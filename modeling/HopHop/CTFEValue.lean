import HopHop.Token

namespace HopHop

/-- Kinds of a compile-time value, in the order of the source enumeration. -/
inductive CTFEValueKind
  | INVALID | INT | FLOAT | BOOL | STRING | TYPE | SPAN | NULL | OPTIONAL | AGGREGATE | ARRAY | REFERENCE
  deriving DecidableEq, Repr

/-- An address of the memory the interpreter works in; 0 is NULL. -/
abbrev Ptr := UInt64

structure CTFEString where
  bytes : Ptr
  len : UInt32
  deriving DecidableEq, Repr

structure CTFESpan where
  fileBytes : Ptr
  fileLen : UInt32
  startLine : UInt32
  startColumn : UInt32
  endLine : UInt32
  endColumn : UInt32
  deriving DecidableEq, Repr

/-- A compile-time value. Which fields carry meaning depends on the kind; the others are zero unless a
callback left something there. -/
structure CTFEValue where
  kind : CTFEValueKind
  i64 : Int64
  f64 : Float
  b : UInt8
  typeTag : UInt64
  s : CTFEString
  span : CTFESpan
  deriving Repr

namespace CTFEValue

/-- The value with every field zero. -/
def invalid : CTFEValue where
  kind := .INVALID
  i64 := 0
  f64 := 0
  b := 0
  typeTag := 0
  s := ⟨0, 0⟩
  span := ⟨0, 0, 0, 0, 0, 0⟩

def int (i : Int64) : CTFEValue := { invalid with kind := .INT, i64 := i }

def float (f : Float) : CTFEValue := { invalid with kind := .FLOAT, f64 := f }

def bool (b : Bool) : CTFEValue := { invalid with kind := .BOOL, b := if b then 1 else 0 }

def string (s : CTFEString) : CTFEValue := { invalid with kind := .STRING, s := s }

def null : CTFEValue := { invalid with kind := .NULL }

def reference (target : Ptr) : CTFEValue := { invalid with kind := .REFERENCE, s := ⟨target, 0⟩ }

@[simp] theorem kind_int (i : Int64) : (int i).kind = .INT := rfl
@[simp] theorem i64_int (i : Int64) : (int i).i64 = i := rfl

theorem int_inj {i j : Int64} : int i = int j ↔ i = j :=
  ⟨congrArg i64, congrArg int⟩

/-- The 64-bit integer a value stands for, when it is one. -/
def toInt64 (v : CTFEValue) : Option Int64 :=
  if v.kind = .INT then some v.i64 else none

end CTFEValue

/-- A closure as `MAKE_CLOSURE` lays it out: the captured references, `count` of them from `refs` on. -/
structure ClosureData where
  count : UInt32
  refs : Ptr
  deriving DecidableEq, Repr

/-- The memory and the build the interpreter runs on. The operations are those of the host machine and of
the arena; nothing is assumed about how they relate. -/
structure Machine (σ : Type) where
  /-- Whether the compiler offers the overflow builtins. -/
  hasBuiltin : Bool
  alloc : Nat → σ → Option Ptr × σ
  loadByte : Ptr → σ → UInt8
  storeByte : Ptr → UInt8 → σ → σ
  loadValue : Ptr → σ → CTFEValue
  storeValue : Ptr → CTFEValue → σ → σ
  loadClosure : Ptr → σ → ClosureData
  storeClosure : Ptr → ClosureData → σ → σ
  setDiag : Diag → σ → σ

/-- The tables the interpreter reads by index. -/
inductive Table
  | insts | consts | sources | funcs | localMeta | types | hosts | symbols | fields | locals | args
  deriving DecidableEq, Repr

/-- Why an evaluation ends without a value: it is not a constant, it is an error, the operand stack is
empty or full, a table is read outside its bounds, or the budget of the model is used up. -/
inductive Stop
  | notConst
  | error
  | popEmpty
  | stackFull
  | outOfBounds (table : Table) (index : Nat)
  | outOfFuel
  deriving DecidableEq, Repr

/-- What the source returns where a run stops this way; the last two are not outcomes of the source. -/
def Stop.returnCode : Stop → Option Int
  | notConst | popEmpty => some 0
  | error | stackFull => some (-1)
  | outOfBounds .. | outOfFuel => none

/-- A computation over the memory `σ` that may stop. -/
abbrev Exec (σ : Type) := EStateM Stop σ

namespace Exec

variable {σ α : Type}

/-- The evaluation is not a constant one: the source returns 0. -/
def notConst : Exec σ α := throw .notConst

/-- The evaluation failed: the source returns -1. -/
def error : Exec σ α := throw .error

def guardConst (isConst : Bool) : Exec σ Unit :=
  if isConst then pure () else notConst

end Exec

namespace Machine

variable {σ : Type} (m : Machine σ)

/-- `H2ArenaAlloc`, with the diagnostic its callers raise when it returns NULL. -/
def allocOr (size start stop : Nat) : Exec σ Ptr := do
  match ← modifyGet (m.alloc size) with
  | some p => pure p
  | none =>
    modify (m.setDiag ⟨.ARENA_OOM, start, stop⟩)
    Exec.error

def memcmp (a b : Ptr) : Nat → σ → Ordering
  | 0, _ => .eq
  | n + 1, state => (compare (m.loadByte a state) (m.loadByte b state)).then (memcmp (a + 1) (b + 1) n state)

def memcpy (dst src : Ptr) : Nat → σ → σ
  | 0, state => state
  | n + 1, state => memcpy (dst + 1) (src + 1) n (m.storeByte dst (m.loadByte src state) state)

end Machine

/-- A machine without memory: every read is zero and nothing can be allocated. -/
def Machine.bare : Machine Unit where
  hasBuiltin := true
  alloc := fun _ state => (none, state)
  loadByte := fun _ _ => 0
  storeByte := fun _ _ state => state
  loadValue := fun _ _ => .invalid
  storeValue := fun _ _ state => state
  loadClosure := fun _ _ => ⟨0, 0⟩
  storeClosure := fun _ _ state => state
  setDiag := fun _ state => state

/-- A machine that hands out the same block for every request. -/
def Machine.giving : Machine Unit := { Machine.bare with alloc := fun _ state => (some 8, state) }

/-- `H2MirReferenceTarget`: the address of the value a reference points at. -/
def referenceTarget (value : CTFEValue) : Option Ptr :=
  if value.kind ≠ .REFERENCE ∨ value.s.bytes = 0 then none else some value.s.bytes

end HopHop
