import HopHop.Mir

namespace HopHop

/-! The builder of programs, as it keeps its tables. -/

/-- A table whose length is a 32-bit number. -/
abbrev MirArray (α : Type) := { entries : List α // entries.length < UInt32.size }

def MirArray.empty {α : Type} : MirArray α := ⟨[], (by decide : 0 < UInt32.size)⟩

/-- `H2MirProgramBuilderAppendElem`: the index of the new entry, and the table with it. A table that has no 32-bit
index left is refused. -/
def MirArray.append {α : Type} (table : MirArray α) (value : α) : Option (UInt32 × MirArray α) :=
  if room : table.val.length + 1 < UInt32.size then
    some (UInt32.ofNat table.val.length,
      ⟨table.val ++ [value], by rw [List.length_append, List.length_singleton]; exact room⟩)
  else none

/-- A source text: where it lies and what it holds. -/
structure MirSourceRef where
  ptr : UInt64
  src : List UInt8
  deriving DecidableEq, Repr

/-- A field reference of the builder. -/
structure MirFieldEntry where
  name : MirField
  sourceRef : UInt32
  ownerTypeRef : UInt32
  typeRef : UInt32
  deriving DecidableEq, Repr

/-- A reference to a host function. -/
structure MirHostRef where
  nameStart : UInt32
  nameEnd : UInt32
  generic : Bool
  flags : UInt32
  target : UInt32
  deriving DecidableEq, Repr

/-- A symbol of the builder. -/
structure MirSymbolEntry where
  symbol : MirSymbolRef
  flags : UInt32
  target : UInt32
  deriving DecidableEq, Repr

/-- The tables that belong to no function. -/
structure MirBuilderTables where
  consts : MirArray MirConst
  sources : MirArray MirSourceRef
  fields : MirArray MirFieldEntry
  types : MirArray MirTypeRef
  hosts : MirArray MirHostRef
  symbols : MirArray MirSymbolEntry

/-- `H2MirProgramBuilder`: the tables, and the function that is open. -/
structure MirProgramBuilder where
  tables : MirBuilderTables
  insts : MirArray MirInst
  funcs : MirArray MirFunction
  locals : MirArray MirLocal
  openFunc : Option Nat

def MirBuilderTables.empty : MirBuilderTables := ⟨.empty, .empty, .empty, .empty, .empty, .empty⟩

/-- `H2MirProgramBuilderInit`. -/
def MirProgramBuilder.init : MirProgramBuilder := ⟨.empty, .empty, .empty, .empty, none⟩

namespace MirBuilderTables

variable (t : MirBuilderTables)

def addConst (value : MirConst) : Option (UInt32 × MirBuilderTables) :=
  (t.consts.append value).map fun (i, consts) => (i, { t with consts })

/-- A source that is there already is not added again. -/
def addSource (value : MirSourceRef) : Option (UInt32 × MirBuilderTables) :=
  match t.sources.val.findIdx? fun s => s.ptr = value.ptr ∧ s.src.length = value.src.length with
  | some i => some (UInt32.ofNat i, t)
  | none => (t.sources.append value).map fun (i, sources) => (i, { t with sources })

def addField (value : MirFieldEntry) : Option (UInt32 × MirBuilderTables) :=
  (t.fields.append value).map fun (i, fields) => (i, { t with fields })

def addType (value : MirTypeRef) : Option (UInt32 × MirBuilderTables) :=
  (t.types.append value).map fun (i, types) => (i, { t with types })

def addHost (value : MirHostRef) : Option (UInt32 × MirBuilderTables) :=
  (t.hosts.append value).map fun (i, hosts) => (i, { t with hosts })

def addSymbol (value : MirSymbolEntry) : Option (UInt32 × MirBuilderTables) :=
  (t.symbols.append value).map fun (i, symbols) => (i, { t with symbols })

end MirBuilderTables

/-- A table with one entry changed. -/
def MirArray.modify {α : Type} (table : MirArray α) (i : Nat) (f : α → α) : MirArray α :=
  ⟨table.val.modify i f, by rw [List.length_modify]; exact table.property⟩

namespace MirProgramBuilder

variable (b : MirProgramBuilder)

/-- The slot of the new local, and the builder with it. -/
def addLocal (value : MirLocal) : Option (UInt32 × MirProgramBuilder) := do
  let openFunc ← b.openFunc
  let fn ← b.funcs.val[openFunc]?
  let (_, locals) ← b.locals.append value
  return (fn.localCount, { b with
    locals
    funcs := b.funcs.modify openFunc fun fn => { fn with localCount := fn.localCount + 1 } })

/-- Starts a function behind everything that was added so far. -/
def beginFunction (value : MirFunction) : Option (UInt32 × MirProgramBuilder) :=
  if b.openFunc.isSome then none
  else do
    let fn : MirFunction := { value with
      instStart := UInt32.ofNat b.insts.val.length
      instLen := 0
      localStart := UInt32.ofNat b.locals.val.length
      localCount := 0 }
    let (index, funcs) ← b.funcs.append fn
    return (index, { b with funcs, openFunc := some index.toNat })

/-- The length of a function that goes up to the end of the instructions. -/
def closeRange (insts : List MirInst) (fn : MirFunction) : MirFunction :=
  { fn with instLen := UInt32.ofNat insts.length - fn.instStart }

def appendInst (value : MirInst) : Option MirProgramBuilder := do
  let openFunc ← b.openFunc
  let (_, insts) ← b.insts.append value
  return { b with insts, funcs := b.funcs.modify openFunc (closeRange insts.val) }

/-- What an insertion at a place does to the entry of a function: the one it goes into is longer, and those behind it
that begin there or later move. -/
def shiftFunction (functionIndex : Nat) (absIndex : UInt32) (i : Nat) (fn : MirFunction) : MirFunction :=
  if i = functionIndex then { fn with instLen := fn.instLen + 1 }
  else if functionIndex < i ∧ absIndex ≤ fn.instStart then { fn with instStart := fn.instStart + 1 }
  else fn

/-- Puts an instruction between those of a function that is closed. -/
def insertInst (functionIndex instIndexInFunction : UInt32) (value : MirInst) : Option MirProgramBuilder :=
  if b.openFunc.isSome then none
  else
    match b.funcs.val[functionIndex.toNat]? with
    | none => none
    | some fn =>
      if fn.instLen < instIndexInFunction then none
      else if room : b.insts.val.length + 1 < UInt32.size then
        let absIndex := fn.instStart + instIndexInFunction
        some { b with
          insts := ⟨b.insts.val.insertIdx absIndex.toNat value, by
            exact Nat.lt_of_le_of_lt List.length_insertIdx_le_succ room⟩
          funcs := ⟨b.funcs.val.mapIdx (shiftFunction functionIndex.toNat absIndex), by
            rw [List.length_mapIdx]; exact b.funcs.property⟩ }
      else none

def endFunction : Option MirProgramBuilder := do
  let openFunc ← b.openFunc
  return { b with funcs := b.funcs.modify openFunc (closeRange b.insts.val), openFunc := none }

/-- `H2MirProgramBuilderFinish`. -/
def finish : MirProgram where
  insts := b.insts.val
  consts := b.tables.consts.val
  sources := b.tables.sources.val.map MirSourceRef.src
  funcs := b.funcs.val
  locals := b.locals.val
  fields := b.tables.fields.val.map MirFieldEntry.name
  types := b.tables.types.val
  hosts := b.tables.hosts.val.map MirHostRef.target
  symbols := b.tables.symbols.val.map MirSymbolEntry.symbol
  lengths := by
    simp only [List.length_map, List.forall_mem_cons]
    exact ⟨b.insts.property, b.tables.consts.property, b.tables.sources.property, b.funcs.property,
      b.locals.property, b.tables.fields.property, b.tables.types.property, b.tables.hosts.property,
      b.tables.symbols.property, fun _ member => by cases member⟩

end MirProgramBuilder

/-- A call of the builder that adds to a table of no function. -/
inductive TableCall
  | addConst (value : MirConst)
  | addSource (value : MirSourceRef)
  | addField (value : MirFieldEntry)
  | addType (value : MirTypeRef)
  | addHost (value : MirHostRef)
  | addSymbol (value : MirSymbolEntry)

/-- A call of the builder. -/
inductive BuilderCall
  | table (call : TableCall)
  | addLocal (value : MirLocal)
  | beginFunction (value : MirFunction)
  | appendInst (value : MirInst)
  | insertInst (functionIndex instIndexInFunction : UInt32) (value : MirInst)
  | endFunction

def MirBuilderTables.call (t : MirBuilderTables) : TableCall → Option (UInt32 × MirBuilderTables)
  | .addConst value => t.addConst value
  | .addSource value => t.addSource value
  | .addField value => t.addField value
  | .addType value => t.addType value
  | .addHost value => t.addHost value
  | .addSymbol value => t.addSymbol value

/-- One call: the index it answers, where it answers one, and the builder after it. -/
def MirProgramBuilder.call (b : MirProgramBuilder) : BuilderCall → Option (Option UInt32 × MirProgramBuilder)
  | .table call => (b.tables.call call).map fun (i, tables) => (some i, { b with tables })
  | .addLocal value => (b.addLocal value).map fun (i, b) => (some i, b)
  | .beginFunction value => (b.beginFunction value).map fun (i, b) => (some i, b)
  | .appendInst value => (b.appendInst value).map fun b => (none, b)
  | .insertInst functionIndex instIndex value => (b.insertInst functionIndex instIndex value).map fun b => (none, b)
  | .endFunction => b.endFunction.map fun b => (none, b)

/-- Calls one after the other, none of which may fail. -/
def runCalls {α β : Type} (call : α → β → Option (Option UInt32 × α)) : α → List β → Option (List (Option UInt32) × α)
  | b, [] => some ([], b)
  | b, c :: rest => do
    let (index, b) ← call b c
    let (indices, b) ← runCalls call b rest
    return (index :: indices, b)

end HopHop
