import HopHop.TypeTable
import Mathlib.Logic.Relation

namespace HopHop

/-- A structural type: its constructor with the lengths, mutability and attributes that belong to it, over components
of any kind. -/
inductive TypeShape (α : Type)
  | ptr (base : α)
  | ref (base : α) (mutable : Bool)
  | optional (base : α)
  | array (base : α) (len : UInt32)
  | slice (base : α) (mutable : Bool)
  | function (result : α) (params : List (α × Bool)) (variadic : Bool)
  | tuple (elems : List α)
  | pack (elems : List α)
  | anonStruct (fields : List (List UInt8 × α))
  | anonUnion (fields : List (List UInt8 × α))
  deriving DecidableEq, Repr

namespace TypeShape

variable {α β : Type}

def map (f : α → β) : TypeShape α → TypeShape β
  | ptr base => ptr (f base)
  | ref base mutable => ref (f base) mutable
  | optional base => optional (f base)
  | array base len => array (f base) len
  | slice base mutable => slice (f base) mutable
  | function result params variadic => function (f result) (params.map fun p => (f p.1, p.2)) variadic
  | tuple elems => tuple (elems.map f)
  | pack elems => pack (elems.map f)
  | anonStruct fields => anonStruct (fields.map fun p => (p.1, f p.2))
  | anonUnion fields => anonUnion (fields.map fun p => (p.1, f p.2))

/-- The components, in order; the result of a function stands before its parameters. -/
def parts : TypeShape α → List α
  | ptr base | ref base _ | optional base | array base _ | slice base _ => [base]
  | function result params _ => result :: params.map Prod.fst
  | tuple elems | pack elems => elems
  | anonStruct fields | anonUnion fields => fields.map Prod.snd

/-- The constructor with its attributes, without the components. -/
def head (shape : TypeShape α) : TypeShape Unit := shape.map fun _ => ()

end TypeShape

namespace TypeTable

variable (c : TypeTable)

/-- The structural type an entry stands for; the other entries (declared names, built-in types, type parameters)
stand for themselves. -/
def shapeOf (t : TCType) : Option (TypeShape TypeId) :=
  match t.kind with
  | .PTR => some (.ptr t.baseType)
  | .REF => some (.ref t.baseType t.flags.mutable)
  | .OPTIONAL => some (.optional t.baseType)
  | .ARRAY => some (.array t.baseType t.arrayLen)
  | .SLICE => some (.slice t.baseType t.flags.mutable)
  | .FUNCTION =>
    some (.function t.baseType ((c.componentsOf t).map fun p => (p.typeId, p.isConst)) t.flags.functionVariadic)
  | .TUPLE => some (.tuple ((c.componentsOf t).map FuncParam.typeId))
  | .PACK => some (.pack ((c.componentsOf t).map FuncParam.typeId))
  | .ANON_STRUCT => some (.anonStruct ((c.fieldsOf t).map fun f => (c.nameOf f.nameStart f.nameEnd, f.typeId)))
  | .ANON_UNION => some (.anonUnion ((c.fieldsOf t).map fun f => (c.nameOf f.nameStart f.nameEnd, f.typeId)))
  | _ => none

def shape (id : TypeId) : Option (TypeShape TypeId) := (c.entry id).bind c.shapeOf

/-- The alias `id` stands for `base`. -/
def AliasStep (id base : TypeId) : Prop :=
  ∃ t, c.entry id = some t ∧ t.kind = .ALIAS ∧ t.flags.aliasResolved ∧ t.baseType = base

/-- `base` is what remains of `id` after some of its aliases. -/
abbrev Peels : TypeId → TypeId → Prop := Relation.ReflTransGen c.AliasStep

/-- Two types that differ only in aliases, at any depth. -/
inductive SameUpToAlias : TypeId → TypeId → Prop
  | refl (id : TypeId) : SameUpToAlias id id
  | left {id base other : TypeId} : c.AliasStep id base → SameUpToAlias base other → SameUpToAlias id other
  | right {id base other : TypeId} : c.AliasStep id base → SameUpToAlias other base → SameUpToAlias other id
  | parts {a b : TypeId} {sa sb : TypeShape TypeId} : c.shape a = some sa → c.shape b = some sb →
      sa.head = sb.head →
      (∀ (i : Nat) (x y : TypeId), sa.parts[i]? = some x → sb.parts[i]? = some y → SameUpToAlias x y) →
      SameUpToAlias a b

/-- The entry is a plain one: not an alias. -/
def Bare (id : TypeId) : Prop := ∀ t, c.entry id = some t → t.kind ≠ .ALIAS

variable {c}

theorem Bare.not_step {id base : TypeId} (bare : c.Bare id) : ¬c.AliasStep id base := by
  rintro ⟨t, atId, isAlias, -, -⟩
  exact bare t atId isAlias

theorem Bare.of_entry {id : TypeId} {t : TCType} (atId : c.entry id = some t) (kind : t.kind ≠ .ALIAS) : c.Bare id := by
  intro u atU
  rw [atId] at atU
  cases atU
  exact kind

theorem AliasStep.unique {id base other : TypeId} (one : c.AliasStep id base) (two : c.AliasStep id other) :
    base = other := by
  obtain ⟨t, atT, -, -, rfl⟩ := one
  obtain ⟨u, atU, -, -, rfl⟩ := two
  rw [atT] at atU
  cases atU
  rfl

/-- A type peels to one bare type at most. -/
theorem Peels.unique {id a b : TypeId} (toA : c.Peels id a) (toB : c.Peels id b) (bareA : c.Bare a)
    (bareB : c.Bare b) : a = b := by
  induction toA using Relation.ReflTransGen.head_induction_on with
  | refl =>
    rcases Relation.ReflTransGen.cases_head toB with same | ⟨next, step, -⟩
    · exact same
    · exact absurd step bareA.not_step
  | head step _ ih =>
    rcases Relation.ReflTransGen.cases_head toB with same | ⟨next, other, rest⟩
    · subst same
      exact absurd step bareB.not_step
    · rw [step.unique other] at ih
      exact ih rest

theorem resolveAliasFrom_peels {depth : Nat} {id : TypeId} {base : Nat}
    (resolved : c.resolveAliasFrom depth id = some base) : c.Peels id (some base) := by
  induction depth generalizing id with
  | zero =>
    simp only [resolveAliasFrom] at resolved
    rw [resolved]
  | succ depth ih =>
    simp only [resolveAliasFrom] at resolved
    split at resolved
    · rw [resolved]
    · rename_i t atId
      by_cases isAlias : t.kind = .ALIAS
      · simp only [isAlias, ne_eq, not_true_eq_false, if_false] at resolved
        split at resolved
        · exact .head ⟨t, atId, isAlias, ‹_›, rfl⟩ (ih resolved)
        · cases resolved
      · simp only [ne_eq, isAlias, not_false_eq_true, if_true] at resolved
        rw [resolved]

theorem resolveAliasFrom_bare {depth : Nat} {id : TypeId} (bare : c.Bare id) :
    c.resolveAliasFrom depth id = id := by
  cases depth with
  | zero => rfl
  | succ depth =>
    simp only [resolveAliasFrom]
    split
    · rfl
    · rename_i t atId
      simp only [ne_eq, bare t atId, not_false_eq_true, if_true]

theorem resolveAliasBaseType_bare {id : TypeId} (bare : c.Bare id) : c.resolveAliasBaseType id = id :=
  resolveAliasFrom_bare bare

theorem Peels.same {id base : TypeId} (peels : c.Peels id base) : c.SameUpToAlias base id := by
  induction peels using Relation.ReflTransGen.head_induction_on with
  | refl => exact .refl _
  | head step _ ih => exact .right step ih

theorem shape_eq {id : TypeId} {t : TCType} (atId : c.entry id = some t) : c.shape id = c.shapeOf t := by
  simp [shape, atId]

/-- An alias has no shape of its own. -/
theorem AliasStep.no_shape {id base : TypeId} (step : c.AliasStep id base) : c.shape id = none := by
  obtain ⟨t, atId, isAlias, -, -⟩ := step
  simp [shape_eq atId, shapeOf, isAlias]

/-- Two bare types are the same up to aliases only as one entry or as two of one constructor. -/
theorem SameUpToAlias.bare {a b : TypeId} (same : c.SameUpToAlias a b) :
    ∀ {x y : TypeId}, c.Peels a x → c.Peels b y → c.Bare x → c.Bare y →
      x = y ∨ ∃ sx sy, c.shape x = some sx ∧ c.shape y = some sy ∧ sx.head = sy.head ∧
        ∀ (i : Nat) (p q : TypeId), sx.parts[i]? = some p → sy.parts[i]? = some q → c.SameUpToAlias p q := by
  induction same with
  | refl id =>
    intro x y peelX peelY bareX bareY
    exact .inl (peelX.unique peelY bareX bareY)
  | left step _ ih =>
    intro x y peelX peelY bareX bareY
    rcases Relation.ReflTransGen.cases_head peelX with rfl | ⟨next, other, rest⟩
    · exact absurd step bareX.not_step
    · rw [← step.unique other] at rest
      exact ih rest peelY bareX bareY
  | right step _ ih =>
    intro x y peelX peelY bareX bareY
    rcases Relation.ReflTransGen.cases_head peelY with rfl | ⟨next, other, rest⟩
    · exact absurd step bareY.not_step
    · rw [← step.unique other] at rest
      exact ih peelX rest bareX bareY
  | parts shapeA shapeB heads all _ =>
    intro x y peelX peelY bareX bareY
    rcases Relation.ReflTransGen.cases_head peelX with rfl | ⟨next, step, -⟩
    · rcases Relation.ReflTransGen.cases_head peelY with rfl | ⟨next, step, -⟩
      · exact .inr ⟨_, _, shapeA, shapeB, heads, all⟩
      · rw [step.no_shape] at shapeB
        cases shapeB
    · rw [step.no_shape] at shapeA
      cases shapeA

end TypeTable

end HopHop
