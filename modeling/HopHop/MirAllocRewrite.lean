import HopHop.Ast
import HopHop.CodeSplice
import HopHop.Mir

namespace HopHop

/-! The passes that put code for allocations into the functions of a program. -/

/-- The tables that the inserted code refers to. -/
structure MirTables where
  consts : List MirConst
  sources : List (List UInt8)
  fields : List MirField
  types : List MirTypeRef
  hosts : List UInt32
  symbols : List MirSymbolRef

def MirProgram.tables (program : MirProgram) : MirTables :=
  ⟨program.consts, program.sources, program.fields, program.types, program.hosts, program.symbols⟩

/-- Entries are only added. -/
structure MirTables.Extends (t t' : MirTables) : Prop where
  consts : t.consts <+: t'.consts
  sources : t.sources <+: t'.sources
  fields : t.fields <+: t'.fields
  types : t.types <+: t'.types
  hosts : t.hosts <+: t'.hosts
  symbols : t.symbols <+: t'.symbols

/-- An instruction of straight code whose operand names an entry. -/
def MirInst.Refers (tables : MirTables) (fn : MirFunction) (ins : MirInst) : Prop :=
  match ins.op with
  | .PUSH_CONST => ins.aux.toNat < tables.consts.length
  | .LOAD_IDENT | .STORE_IDENT | .CALL => ins.aux.toNat < tables.symbols.length
  | .CAST | .COERCE => ins.aux.toNat < tables.types.length
  | .CALL_HOST => ins.aux.toNat < tables.hosts.length
  | .AGG_GET | .AGG_ADDR => ins.aux.toNat < tables.fields.length
  | .LOCAL_ZERO | .LOCAL_LOAD | .LOCAL_STORE | .LOCAL_ADDR => ins.aux < fn.localCount
  | .JUMP | .JUMP_IF_FALSE | .CALL_FN | .MAKE_CLOSURE | .CAPTURE_LOAD | .CAPTURE_STORE | .CAPTURE_ADDR => False
  | _ => True

/-- What a pass finds at a place: the number of instructions that go in, and whether the token of the instruction
changes. -/
structure AllocSite where
  count : Nat
  marked : Bool

/-- A pass over the allocations of a program. The code for a place stands before it or, where the pass is the one of
the values put into what was allocated, behind the instruction after it. -/
structure AllocPass where
  measure : MirFunction → List MirInst → Nat → MirTables → Option AllocSite × MirTables
  emit : MirFunction → List MirInst → Nat → MirTables → Option (List MirInst × MirTables)
  mark : UInt16 → UInt16
  after : Bool
  inside : ∀ {fn code pc t}, after = true → (measure fn code pc t).1.isSome → pc + 1 < code.length
  measured : ∀ fn code pc (t : MirTables), t.Extends (measure fn code pc t).2
  grows : ∀ {fn code pc} {t t' : MirTables} {block}, emit fn code pc t = some (block, t') → t.Extends t'
  refers : ∀ {fn code pc t block t'}, emit fn code pc t = some (block, t') → ∀ i ∈ block, i.Refers t' fn

/-- How a pass ends early: it returns `-1`, or it would read or write outside a table. -/
inductive AllocStop
  | failed
  | outside
  deriving DecidableEq, Repr

def MirInst.isJump (ins : MirInst) : Bool := ins.op = .JUMP ∨ ins.op = .JUMP_IF_FALSE

/-- What the pass finds at each place of a function from this one on. -/
def AllocPass.measureFrom (pass : AllocPass) (fn : MirFunction) (code : List MirInst) :
    Nat → Nat → MirTables → List (Option AllocSite) × MirTables
  | 0, _, t => ([], t)
  | places + 1, pc, t =>
    let site := pass.measure fn code pc t
    let rest := measureFrom pass fn code places (pc + 1) site.2
    (site.1 :: rest.1, rest.2)

def AllocPass.sites (pass : AllocPass) (fn : MirFunction) (code : List MirInst) (t : MirTables) :
    List (Option AllocSite) × MirTables :=
  pass.measureFrom fn code code.length 0 t

def siteAt (sites : List (Option AllocSite)) (pc : Nat) : Option AllocSite := (sites[pc]?).join

def countAt (sites : List (Option AllocSite)) (pc : Nat) : Nat := ((siteAt sites pc).map AllocSite.count).getD 0

def extraLen (sites : List (Option AllocSite)) : Nat := ((List.range sites.length).map (countAt sites)).sum

section

variable (pass : AllocPass) (fn : MirFunction) (code : List MirInst) (sites : List (Option AllocSite))

/-- The place whose code stands before an instruction. -/
def AllocPass.placeBefore (pc : Nat) : Option Nat := if pass.after then none else some pc

/-- The place whose code stands behind an instruction. -/
def AllocPass.placeAfter (pc : Nat) : Option Nat := if pass.after ∧ pc ≠ 0 then some (pc - 1) else none

def countOf (place : Option Nat) : Nat := (place.map (countAt sites)).getD 0

/-- `insertCounts[pc]`: how many instructions go in at the instruction. -/
def AllocPass.insertCount (pc : Nat) : Nat := countOf sites (pass.placeBefore pc) + countOf sites (pass.placeAfter pc)

def AllocPass.pcMap (pc : Nat) : Nat := pc + ((List.range pc).map (pass.insertCount sites)).sum

def AllocPass.markedInst (pc : Nat) (ins : MirInst) : MirInst :=
  if (siteAt sites pc).any AllocSite.marked then { ins with tok := pass.mark ins.tok } else ins

def AllocPass.movedInst (ins : MirInst) : MirInst :=
  if ins.isJump ∧ ins.aux < fn.instLen then { ins with aux := UInt32.ofNat (pass.pcMap sites ins.aux.toNat) } else ins

/-- The code for a place. It has to be as long as it was measured. -/
def AllocPass.block (pc room : Nat) (t : MirTables) : Except AllocStop (List MirInst × MirTables) :=
  if countAt sites pc = 0 then .ok ([], t)
  else if room < countAt sites pc then .error .outside
  else
    match pass.emit fn code pc t with
    | none => .error .failed
    | some (block, t) => if block.length = countAt sites pc then .ok (block, t) else .error .failed

def AllocPass.blockAt (place : Option Nat) (room : Nat) (t : MirTables) :
    Except AllocStop (List MirInst × MirTables) :=
  match place with
  | none => .ok ([], t)
  | some pc => pass.block fn code sites pc room t

/-- The new code of a function from an instruction on, written to an array with so much room. -/
def AllocPass.rewriteFrom : List MirInst → Nat → Nat → MirTables → Except AllocStop (List MirInst × MirTables)
  | [], _, _, t => .ok ([], t)
  | ins :: rest, pc, room, t => do
    let before ← pass.blockAt fn code sites (pass.placeBefore pc) room t
    if room ≤ before.1.length then throw .outside
    let room := room - before.1.length - 1
    let after ← pass.blockAt fn code sites (pass.placeAfter pc) room before.2
    let more ← rewriteFrom rest (pc + 1) (room - after.1.length) after.2
    return (before.1 ++ pass.movedInst fn sites (pass.markedInst sites pc ins) :: (after.1 ++ more.1), more.2)

end

/-- What a pass makes of a program: the instructions, the functions and the tables. -/
structure Rewritten where
  insts : List MirInst
  funcs : List MirFunction
  tables : MirTables

section

variable (pass : AllocPass) (program : MirProgram)

/-- The first loop of a pass: how many instructions go in, over all functions. -/
def AllocPass.totalExtraLen : List MirFunction → MirTables → Nat × MirTables
  | [], t => (0, t)
  | fn :: rest, t =>
    let found := pass.sites fn (fn.code program) t
    let later := totalExtraLen rest found.2
    (extraLen found.1 + later.1, later.2)

/-- The entry of a function in the new table. -/
def MirFunction.movedTo (fn : MirFunction) (start : Nat) (sites : List (Option AllocSite)) : MirFunction :=
  { fn with instStart := UInt32.ofNat start, instLen := fn.instLen + UInt32.ofNat (extraLen sites) }

/-- The second loop: every function is written behind the one before it. -/
def AllocPass.rewriteFuncs : List MirFunction → Nat → Nat → MirTables → Except AllocStop Rewritten
  | [], _, _, t => .ok ⟨[], [], t⟩
  | fn :: rest, start, room, t => do
    let code := fn.code program
    if code.length ≠ fn.instLen.toNat then throw .outside
    let found := pass.sites fn code t
    let out ← pass.rewriteFrom fn code found.1 code 0 room found.2
    let later ← rewriteFuncs rest (start + out.1.length) (room - out.1.length) out.2
    return ⟨out.1 ++ later.insts, fn.movedTo start found.1 :: later.funcs, later.tables⟩

/-- A whole pass. A program without a place for the pass keeps its code as it is. -/
def AllocPass.rewrite : Except AllocStop Rewritten :=
  let total := pass.totalExtraLen program program.funcs program.tables
  if total.1 = 0 then .ok ⟨program.insts, program.funcs, total.2⟩
  else if UInt32.size ≤ program.insts.length + total.1 then .error .failed
  else pass.rewriteFuncs program program.funcs 0 (program.insts.length + total.1) total.2

/-- The program with what a pass made of it. -/
def Rewritten.assemble (out : Rewritten) : Except AllocStop MirProgram :=
  if lengths : ∀ n ∈ [out.insts.length, out.tables.consts.length, out.tables.sources.length, out.funcs.length,
      program.locals.length, out.tables.fields.length, out.tables.types.length, out.tables.hosts.length,
      out.tables.symbols.length], n < UInt32.size then
    .ok ⟨out.insts, out.tables.consts, out.tables.sources, out.funcs, program.locals, out.tables.fields,
      out.tables.types, out.tables.hosts, out.tables.symbols, lengths⟩
  else .error .failed

/-- Passes one after the other, each set up for the program that the ones before it made. -/
def rewritePasses : List (MirProgram → AllocPass) → MirProgram → Except AllocStop MirProgram
  | [], program => .ok program
  | pass :: rest, program => do
    let out ← (pass program).rewrite program
    let program ← out.assemble program
    rewritePasses rest program

end

end HopHop
