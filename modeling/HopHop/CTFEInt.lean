import HopHop.CTFEArith

namespace HopHop

/-! Integer trees: what compile-time evaluation makes of them against their value over the integers. -/

/-- The unary operators of an integer tree. -/
inductive IntUnary
  | ADD | SUB
  deriving DecidableEq, Repr

/-- The binary operators of an integer tree. -/
inductive IntBinary
  | ADD | SUB | MUL | DIV | MOD | AND | OR | XOR | LSHIFT | RSHIFT
  deriving DecidableEq, Repr

def IntUnary.token : IntUnary → TokenKind
  | ADD => .ADD
  | SUB => .SUB

def IntBinary.token : IntBinary → TokenKind
  | ADD => .ADD
  | SUB => .SUB
  | MUL => .MUL
  | DIV => .DIV
  | MOD => .MOD
  | AND => .AND
  | OR => .OR
  | XOR => .XOR
  | LSHIFT => .LSHIFT
  | RSHIFT => .RSHIFT

/-- An expression tree over 64-bit constants. -/
inductive IntTree
  | const (i : Int64)
  | unary (op : IntUnary) (input : IntTree)
  | binary (op : IntBinary) (lhs rhs : IntTree)
  deriving DecidableEq, Repr

/-- `H2CTFEEvalUnary` and `H2CTFEEvalBinary` composed over the tree, operands left to right. -/
def evalTree {σ : Type} (m : Machine σ) (hook : Option (BinaryHook σ)) (fuel : Nat) : IntTree → Exec σ CTFEValue
  | .const i => pure (.int i)
  | .unary op input => do
    let input ← evalTree m hook fuel input
    (evalUnary op.token input).elim Exec.notConst pure
  | .binary op lhs rhs => do
    let lhs ← evalTree m hook fuel lhs
    let rhs ← evalTree m hook fuel rhs
    evalBinary m hook op.token fuel lhs rhs

/-- A unary operator on unbounded integers. -/
def exactUnary : IntUnary → Int → Int
  | .ADD, x => x
  | .SUB, x => -x

/-- A binary operator on unbounded integers, where it is defined. -/
def exactBinary (op : IntBinary) (x y : Int) : Option Int :=
  match op with
  | .ADD => some (x + y)
  | .SUB => some (x - y)
  | .MUL => some (x * y)
  | .DIV => if y = 0 then none else some (x.tdiv y)
  | .MOD => if y = 0 then none else some (x.tmod y)
  | .AND => some (Int.land x y)
  | .OR => some (Int.lor x y)
  | .XOR => some (Int.xor x y)
  | .LSHIFT => if y < 0 then none else some (x * 2 ^ y.toNat)
  | .RSHIFT => if y < 0 then none else some (x / 2 ^ y.toNat)

/-- The value of a tree in unbounded arithmetic. -/
def exactValue : IntTree → Option Int
  | .const i => some i.toInt
  | .unary op input => (exactValue input).map (exactUnary op)
  | .binary op lhs rhs => (exactValue lhs).bind fun x => (exactValue rhs).bind fun y => exactBinary op x y

/-- The tree itself and every tree inside it. -/
def IntTree.subtrees : IntTree → List IntTree
  | .const i => [.const i]
  | .unary op input => .unary op input :: input.subtrees
  | .binary op lhs rhs => .binary op lhs rhs :: (lhs.subtrees ++ rhs.subtrees)

/-- The exact value and all the intermediate ones are defined and fit 64 bits. -/
def AllFit (e : IntTree) : Prop :=
  ∀ s ∈ e.subtrees, ∃ z, exactValue s = some z ∧ FitsI64 z

/-- Evaluation yields the exact value of the tree, or none; and it yields none where the value or an
intermediate one is undefined or does not fit. -/
def ExactOrRefuses {σ : Type} (m : Machine σ) (hook : Option (BinaryHook σ)) (fuel : Nat) (state : σ)
    (e : IntTree) : Prop :=
  ∀ v after, evalTree m hook fuel e state = .ok v after →
    v.kind = .INT ∧ exactValue e = some v.i64.toInt ∧ AllFit e

/-- The binary operators as compile-time evaluation has them, read over the integers: a result that does not
fit is refused, but a left shift drops the bits above the 64th. -/
def wrappingBinary (op : IntBinary) (x y : Int) : Option Int :=
  match op with
  | .LSHIFT => if y < 0 ∨ 63 < y ∨ x < 0 then none else some ((x * 2 ^ y.toNat).bmod (2 ^ 64))
  | .RSHIFT => if y < 0 ∨ 63 < y ∨ x < 0 then none else some (x / 2 ^ y.toNat)
  | .MOD => if y = 0 ∨ (x = -2 ^ 63 ∧ y = -1) then none else some (x.tmod y)
  | op => (exactBinary op x y).filter fun z => FitsI64 z

def wrappingValue : IntTree → Option Int
  | .const i => some i.toInt
  | .unary op input => ((wrappingValue input).map (exactUnary op)).filter fun z => FitsI64 z
  | .binary op lhs rhs => (wrappingValue lhs).bind fun x => (wrappingValue rhs).bind fun y => wrappingBinary op x y

/-- No left shift with admitted operands reaches the sign bit. -/
def ShiftsFit : IntTree → Prop
  | .const _ => True
  | .unary _ input => ShiftsFit input
  | .binary op lhs rhs =>
    ShiftsFit lhs ∧ ShiftsFit rhs ∧
      (op = .LSHIFT → ∀ x ∈ wrappingValue lhs, ∀ y ∈ wrappingValue rhs, 0 ≤ x → 0 ≤ y → y ≤ 63 →
        x * 2 ^ y.toNat < 2 ^ 63)

/-- A refused or integer result against the integer it should be. -/
def Agrees (out : Option CTFEValue) (exact : Option Int) : Prop :=
  (∃ i, out = some (.int i) ∧ exact = some i.toInt) ∨ (out = none ∧ exact = none)

theorem Agrees.some_of_eq {i : Int64} {z : Int} (same : i.toInt = z) : Agrees (some (.int i)) (some z) :=
  Or.inl ⟨i, rfl, congrArg some same.symm⟩

theorem Agrees.none : Agrees none none := Or.inr ⟨rfl, rfl⟩

theorem agrees_checked {i : Int64} {z : Int} (exact : FitsI64 z → i.toInt = z) :
    Agrees ((if FitsI64 z then some i else none).map .int) ((some z).filter fun z => FitsI64 z) := by
  by_cases fits : FitsI64 z
  · simp only [fits, if_true, Option.map_some, Option.filter_some, decide_true]
    exact .some_of_eq (exact fits)
  · simp only [fits, if_false, Option.map_none, Option.filter_some, decide_false, Bool.false_eq_true]
    exact .none

theorem agrees_fitting {i : Int64} {z : Int} (exact : i.toInt = z) :
    Agrees (some (.int i)) ((some z).filter fun z => FitsI64 z) := by
  have fits : FitsI64 z := exact ▸ Int64.fits i
  simp only [Option.filter_some, fits, decide_true, if_true]
  exact .some_of_eq exact

theorem eq_minValue_iff {a : Int64} : a = Int64.minValue ↔ a.toInt = -2 ^ 63 := by
  rw [← Int64.toInt_inj, Int64.toInt_minValue]

theorem eq_zero_iff {a : Int64} : a = 0 ↔ a.toInt = 0 := by
  rw [← Int64.toInt_inj, Int64.toInt_zero]

theorem eq_minus_iff {a : Int64} : a = -1 ↔ a.toInt = -1 := by
  rw [← Int64.toInt_inj]
  rfl

theorem agrees_div (hasBuiltin : Bool) (a b : Int64) :
    Agrees (evalBinaryInt hasBuiltin .DIV a b) (wrappingBinary .DIV a.toInt b.toInt) := by
  simp only [evalBinaryInt.eq_def, wrappingBinary.eq_def, exactBinary.eq_def]
  by_cases zero : b = 0
  · simp only [zero, Int64.toInt_zero, true_or, if_true]
    exact .none
  · rw [if_neg (mt eq_zero_iff.mpr zero)]
    by_cases edge : a = Int64.minValue ∧ b = -1
    · obtain ⟨rfl, rfl⟩ := edge
      exact Or.inr (by decide)
    · rw [if_neg (not_or.mpr ⟨zero, edge⟩)]
      refine agrees_fitting ?_
      by_cases least : a = Int64.minValue
      · exact Int64.toInt_div_of_ne_right a b fun minus => edge ⟨least, minus⟩
      · exact Int64.toInt_div_of_ne_left a b least

theorem agrees_mod (hasBuiltin : Bool) (a b : Int64) :
    Agrees (evalBinaryInt hasBuiltin .MOD a b) (wrappingBinary .MOD a.toInt b.toInt) := by
  simp only [evalBinaryInt.eq_def, wrappingBinary.eq_def, eq_zero_iff, eq_minValue_iff, eq_minus_iff]
  split
  · exact .none
  · exact .some_of_eq (Int64.toInt_mod a b)

theorem shift_refused {a n : Int64} :
    (n < 0 ∨ 63 < n ∨ a < 0) ↔ (n.toInt < 0 ∨ 63 < n.toInt ∨ a.toInt < 0) := by
  simp only [Int64.lt_iff_toInt_lt, Int64.toInt_zero]
  exact Iff.rfl

theorem agrees_shl (hasBuiltin : Bool) (a n : Int64) :
    Agrees (evalBinaryInt hasBuiltin .LSHIFT a n) (wrappingBinary .LSHIFT a.toInt n.toInt) := by
  simp only [evalBinaryInt.eq_def, wrappingBinary.eq_def, shift_refused]
  split
  · exact .none
  · exact .some_of_eq (toInt_shl (by omega) (by omega) (by omega))

theorem agrees_shr (hasBuiltin : Bool) (a n : Int64) :
    Agrees (evalBinaryInt hasBuiltin .RSHIFT a n) (wrappingBinary .RSHIFT a.toInt n.toInt) := by
  simp only [evalBinaryInt.eq_def, wrappingBinary.eq_def, shift_refused]
  split
  · exact .none
  · exact .some_of_eq (toInt_shr (by omega) (by omega) (by omega))

theorem evalBinaryInt_agrees (hasBuiltin : Bool) (op : IntBinary) (a b : Int64) :
    Agrees (evalBinaryInt hasBuiltin op.token a b) (wrappingBinary op a.toInt b.toInt) := by
  cases op with
  | ADD =>
    simp only [IntBinary.token, evalBinaryInt.eq_def, addI64_eq]
    exact agrees_checked toInt_add_fits
  | SUB =>
    simp only [IntBinary.token, evalBinaryInt.eq_def, subI64_eq]
    exact agrees_checked toInt_sub_fits
  | MUL =>
    simp only [IntBinary.token, evalBinaryInt.eq_def, mulI64_eq]
    exact agrees_checked toInt_mul_fits
  | DIV => exact agrees_div hasBuiltin a b
  | MOD => exact agrees_mod hasBuiltin a b
  | AND => exact agrees_fitting (toInt_land a b)
  | OR => exact agrees_fitting (toInt_lor a b)
  | XOR => exact agrees_fitting (toInt_lxor a b)
  | LSHIFT => exact agrees_shl hasBuiltin a b
  | RSHIFT => exact agrees_shr hasBuiltin a b

theorem evalUnary_agrees (op : IntUnary) (a : Int64) :
    Agrees (evalUnary op.token (.int a)) ((some (exactUnary op a.toInt)).filter fun z => FitsI64 z) := by
  cases op with
  | ADD => exact agrees_fitting rfl
  | SUB =>
    by_cases least : a = Int64.minValue
    · subst least
      exact Or.inr (by decide)
    · have bounds := Int64.fits a
      have above : a.toInt ≠ -2 ^ 63 := mt eq_minValue_iff.mpr least
      have fits : FitsI64 (-a.toInt) := by
        unfold FitsI64 at *
        omega
      have value : evalUnary IntUnary.SUB.token (.int a) = some (.int (-a)) := if_neg least
      rw [value]
      refine agrees_fitting ?_
      rw [Int64.toInt_neg, bmod_fits fits]
      rfl

/-- On integers no callback and no memory is involved. -/
theorem evalBinary_int {σ : Type} (m : Machine σ) (hook : Option (BinaryHook σ)) (op : TokenKind) (fuel : Nat)
    (a b : Int64) :
    evalBinary m hook op fuel (.int a) (.int b) = (evalBinaryInt m.hasBuiltin op a b).elim Exec.notConst pure := by
  rw [evalBinary.eq_def]
  rfl

theorem evalTree_agrees {σ : Type} (m : Machine σ) (hook : Option (BinaryHook σ)) (fuel : Nat) (e : IntTree) :
    ∃ out, evalTree m hook fuel e = out.elim Exec.notConst pure ∧ Agrees out (wrappingValue e) := by
  induction e with
  | const i => exact ⟨some (.int i), rfl, .some_of_eq rfl⟩
  | unary op input ih =>
    obtain ⟨out, run, ⟨i, rfl, value⟩ | ⟨rfl, value⟩⟩ := ih
    · refine ⟨evalUnary op.token (.int i), ?_, ?_⟩
      · rw [evalTree, run]
        rfl
      · rw [wrappingValue, value]
        exact evalUnary_agrees op i
    · refine ⟨none, ?_, ?_⟩
      · rw [evalTree, run]
        rfl
      · rw [wrappingValue, value]
        exact .none
  | binary op lhs rhs ihl ihr =>
    obtain ⟨left, runLeft, ⟨i, rfl, leftValue⟩ | ⟨rfl, leftValue⟩⟩ := ihl
    · obtain ⟨right, runRight, ⟨j, rfl, rightValue⟩ | ⟨rfl, rightValue⟩⟩ := ihr
      · refine ⟨evalBinaryInt m.hasBuiltin op.token i j, ?_, ?_⟩
        · rw [evalTree, runLeft, runRight, ← evalBinary_int m hook op.token fuel]
          rfl
        · rw [wrappingValue, leftValue, rightValue]
          exact evalBinaryInt_agrees m.hasBuiltin op i j
      · refine ⟨none, ?_, ?_⟩
        · rw [evalTree, runLeft, runRight]
          rfl
        · rw [wrappingValue, leftValue, rightValue]
          exact .none
    · refine ⟨none, ?_, ?_⟩
      · rw [evalTree, runLeft]
        rfl
      · rw [wrappingValue, leftValue]
        exact .none

theorem wrappingBinary_fits {op : IntBinary} {x y z : Int} (xFits : FitsI64 x) (yFits : FitsI64 y)
    (value : wrappingBinary op x y = some z) : FitsI64 z := by
  have agrees := evalBinaryInt_agrees true op (Int64.ofInt x) (Int64.ofInt y)
  rw [toInt_ofInt_fits xFits, toInt_ofInt_fits yFits, value] at agrees
  obtain ⟨i, _, same⟩ | ⟨_, refused⟩ := agrees
  · rw [Option.some.inj same]
    exact Int64.fits i
  · cases refused

theorem wrappingValue_fits {e : IntTree} {z : Int} (value : wrappingValue e = some z) : FitsI64 z := by
  induction e generalizing z with
  | const i =>
    rw [← Option.some.inj value]
    exact Int64.fits i
  | unary op input =>
    exact of_decide_eq_true (Option.filter_eq_some_iff.mp value).2
  | binary op lhs rhs ihl ihr =>
    obtain ⟨x, left, rest⟩ := Option.bind_eq_some_iff.mp value
    obtain ⟨y, right, result⟩ := Option.bind_eq_some_iff.mp rest
    exact wrappingBinary_fits (ihl left) (ihr right) result

/-- Only a left shift can differ from the exact operator. -/
theorem exactBinary_of_wrapping {op : IntBinary} {x y z : Int} (value : wrappingBinary op x y = some z)
    (bound : op = .LSHIFT → 0 ≤ x → 0 ≤ y → y ≤ 63 → x * 2 ^ y.toNat < 2 ^ 63) : exactBinary op x y = some z := by
  cases op with
  | ADD | SUB | MUL | DIV | AND | OR | XOR =>
    simp only [wrappingBinary.eq_def] at value
    exact (Option.filter_eq_some_iff.mp value).1
  | MOD =>
    simp only [wrappingBinary.eq_def] at value
    split at value
    · cases value
    · rename_i admitted
      rw [exactBinary, if_neg fun zero => admitted (Or.inl zero)]
      exact value
  | LSHIFT =>
    simp only [wrappingBinary.eq_def] at value
    split at value
    · cases value
    · rename_i admitted
      have below := bound rfl (by omega) (by omega) (by omega)
      have power : (0 : Int) < 2 ^ y.toNat := Int.pow_pos (by decide)
      have nonneg : 0 ≤ x * 2 ^ y.toNat := Int.mul_nonneg (by omega) (by omega)
      rw [exactBinary, if_neg (by omega), ← value, bmod_fits ⟨by omega, below⟩]
  | RSHIFT =>
    simp only [wrappingBinary.eq_def] at value
    split at value
    · cases value
    · rw [exactBinary, if_neg (by omega)]
      exact value

theorem AllFit.unary {op : IntUnary} {input : IntTree} (fit : AllFit (.unary op input)) : AllFit input :=
  fun s member => fit s (List.mem_cons_of_mem _ member)

theorem AllFit.lhs {op : IntBinary} {lhs rhs : IntTree} (fit : AllFit (.binary op lhs rhs)) : AllFit lhs :=
  fun s member => fit s (List.mem_cons_of_mem _ (List.mem_append_left _ member))

theorem AllFit.rhs {op : IntBinary} {lhs rhs : IntTree} (fit : AllFit (.binary op lhs rhs)) : AllFit rhs :=
  fun s member => fit s (List.mem_cons_of_mem _ (List.mem_append_right _ member))

theorem IntTree.mem_subtrees (e : IntTree) : e ∈ e.subtrees := by
  cases e with
  | const | unary | binary => exact List.mem_cons_self

/-- With shifts that fit, what evaluation computes is exact, at the root and inside. -/
theorem exact_of_shiftsFit {e : IntTree} {z : Int} (shifts : ShiftsFit e) (value : wrappingValue e = some z) :
    exactValue e = some z ∧ AllFit e := by
  have fits := wrappingValue_fits value
  induction e generalizing z with
  | const i =>
    refine ⟨value, fun s member => ?_⟩
    rw [List.mem_singleton.mp member]
    exact ⟨z, value, fits⟩
  | unary op input ih =>
    obtain ⟨x, inner, rfl⟩ := Option.map_eq_some_iff.mp (Option.filter_eq_some_iff.mp value).1
    obtain ⟨exact, fit⟩ := ih shifts inner (wrappingValue_fits inner)
    have root : exactValue (.unary op input) = some (exactUnary op x) := by
      rw [exactValue, exact]
      rfl
    refine ⟨root, fun s member => ?_⟩
    rcases List.mem_cons.mp member with rfl | inside
    · exact ⟨_, root, fits⟩
    · exact fit s inside
  | binary op lhs rhs ihl ihr =>
    obtain ⟨leftShifts, rightShifts, here⟩ := shifts
    obtain ⟨x, left, rest⟩ := Option.bind_eq_some_iff.mp value
    obtain ⟨y, right, result⟩ := Option.bind_eq_some_iff.mp rest
    obtain ⟨leftExact, leftFit⟩ := ihl leftShifts left (wrappingValue_fits left)
    obtain ⟨rightExact, rightFit⟩ := ihr rightShifts right (wrappingValue_fits right)
    have root : exactValue (.binary op lhs rhs) = some z := by
      rw [exactValue, leftExact, rightExact]
      exact exactBinary_of_wrapping result fun shift => here shift x left y right
    refine ⟨root, fun s member => ?_⟩
    rcases List.mem_cons.mp member with rfl | inside
    · exact ⟨z, root, fits⟩
    · rcases List.mem_append.mp inside with inLeft | inRight
      · exact leftFit s inLeft
      · exact rightFit s inRight

/-- A shift that reaches the sign bit leaves an intermediate value that does not fit. -/
theorem not_allFit_of_wrapping {e : IntTree} {z : Int} (shifts : ¬ ShiftsFit e) (value : wrappingValue e = some z) :
    ¬ AllFit e := by
  induction e generalizing z with
  | const => exact absurd trivial shifts
  | unary op input ih =>
    obtain ⟨x, inner, rfl⟩ := Option.map_eq_some_iff.mp (Option.filter_eq_some_iff.mp value).1
    exact fun fit => ih shifts inner fit.unary
  | binary op lhs rhs ihl ihr =>
    obtain ⟨x, left, rest⟩ := Option.bind_eq_some_iff.mp value
    obtain ⟨y, right, result⟩ := Option.bind_eq_some_iff.mp rest
    intro fit
    by_cases leftShifts : ShiftsFit lhs
    · by_cases rightShifts : ShiftsFit rhs
      · obtain ⟨exact, existing, fits⟩ := fit _ (IntTree.mem_subtrees _)
        rw [exactValue, (exact_of_shiftsFit leftShifts left).1, (exact_of_shiftsFit rightShifts right).1] at existing
        refine shifts ⟨leftShifts, rightShifts, ?_⟩
        intro shift x' left' y' right' _ low _
        rw [left] at left'
        rw [right] at right'
        cases left'
        cases right'
        subst shift
        have product : x * 2 ^ y.toNat = exact := by
          simpa only [Option.bind_some, exactBinary, if_neg (Int.not_lt.mpr low), Option.some.injEq] using existing
        rw [product]
        exact fits.2
      · exact ihr rightShifts right fit.rhs
    · exact ihl leftShifts left fit.lhs

section

variable {σ : Type} (m : Machine σ) (hook : Option (BinaryHook σ)) (fuel : Nat) (state : σ)

/-- Evaluation yields a value exactly where the wrapping reading has one, and that one. -/
theorem evalTree_ok_iff {e : IntTree} {v : CTFEValue} {after : σ} :
    evalTree m hook fuel e state = .ok v after ↔ ∃ i, wrappingValue e = some i.toInt ∧ v = .int i ∧ after = state := by
  obtain ⟨out, run, ⟨i, rfl, value⟩ | ⟨rfl, value⟩⟩ := evalTree_agrees m hook fuel e
  · rw [run, value]
    constructor
    · intro yields
      cases yields
      exact ⟨i, rfl, rfl, rfl⟩
    · rintro ⟨j, same, rfl, rfl⟩
      rw [Int64.toInt_inj.mp (Option.some.inj same)]
      rfl
  · rw [run, value]
    constructor
    · intro yields
      cases yields
    · rintro ⟨j, same, _⟩
      cases same

/-- Compile-time evaluation of an integer tree is exact or refuses, unless a left shift of the tree reaches
the sign bit and nothing above it refuses what is left. -/
theorem exactOrRefuses_iff (e : IntTree) :
    ExactOrRefuses m hook fuel state e ↔ ShiftsFit e ∨ wrappingValue e = none := by
  constructor
  · intro exact
    by_cases shifts : ShiftsFit e
    · exact Or.inl shifts
    · right
      rw [Option.eq_none_iff_forall_ne_some]
      intro z value
      have same := toInt_ofInt_fits (wrappingValue_fits value)
      have run := (evalTree_ok_iff m hook fuel state).mpr ⟨Int64.ofInt z, by rw [value, same], rfl, rfl⟩
      exact not_allFit_of_wrapping shifts value (exact _ _ run).2.2
  · intro condition v after run
    obtain ⟨i, value, rfl, _⟩ := (evalTree_ok_iff m hook fuel state).mp run
    rcases condition with shifts | refused
    · exact ⟨rfl, exact_of_shiftsFit shifts value⟩
    · rw [refused] at value
      cases value

end

/-- `1 << 63` evaluates, to the least 64-bit integer. -/
theorem not_exactOrRefuses_sign :
    ¬ ExactOrRefuses Machine.bare none 0 () (.binary .LSHIFT (.const 1) (.const 63)) := by
  intro exact
  obtain ⟨_, value, _⟩ := exact (.int Int64.minValue) () rfl
  revert value
  decide

end HopHop
