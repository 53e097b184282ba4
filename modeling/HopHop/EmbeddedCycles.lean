import HopHop.ChainWalk
import HopHop.NamedFields

namespace HopHop.TypeTable

/-- Why embedded fields are refused: a cycle, with the name of the field that closes it, or a base type that is an alias
of nothing. -/
inductive EmbeddedFailure
  | EMBEDDED_CYCLE (nameStart nameEnd : Nat)
  | unresolvedAlias
  deriving DecidableEq, Repr

section

variable (c : TypeTable)

def isNamed (id : Nat) : Bool := (c.types[id]?).any fun t => t.kind = .NAMED

/-- The type that the embedded field of a type leads to, if it is a declared one. -/
def embeddedBase (id : Nat) : Except Unit (Option Nat) :=
  match c.findEmbeddedField (some id) with
  | none => .ok none
  | some field =>
    match c.entry field.typeId with
    | none => .ok none
    | some t =>
      match if t.kind = .ALIAS then c.resolveAliasBaseType field.typeId else field.typeId with
      | none => .error ()
      | some base => .ok (if c.isNamed base then some base else none)

/-- `H2TCCheckEmbeddedCycleFrom`, with the flags `VISITING` and `VISITED` of the types as marks. -/
def checkEmbeddedCycleFrom (id : Nat) (marks : Nat → ChainWalk.Mark) :
    Except (ChainWalk.Failure Nat Unit) (Nat → ChainWalk.Mark) :=
  if c.isNamed id then ChainWalk.walk c.embeddedBase (c.types.length + 1) id marks else .ok marks

/-- The loop of `H2TCCheckEmbeddedCycles` over the declared types. -/
def checkEmbeddedCyclesFrom : List NamedType → (Nat → ChainWalk.Mark) →
    Except (ChainWalk.Failure Nat Unit) (Nat → ChainWalk.Mark)
  | [], marks => .ok marks
  | nt :: rest, marks =>
    match c.checkEmbeddedCycleFrom nt.typeId marks with
    | .error e => .error e
    | .ok marks => checkEmbeddedCyclesFrom rest marks

/-- The place of the name of an embedded field. -/
def embeddedName (id : Nat) : Nat × Nat :=
  match c.findEmbeddedField (some id) with
  | none => (0, 0)
  | some field => (field.nameStart, field.nameEnd)

/-- `H2TCCheckEmbeddedCycles` -/
def checkEmbeddedCycles : Except EmbeddedFailure Unit :=
  match c.checkEmbeddedCyclesFrom c.namedTypes fun _ => .fresh with
  | .ok _ => .ok ()
  | .error (.cycle id) => .error (.EMBEDDED_CYCLE (c.embeddedName id).1 (c.embeddedName id).2)
  | .error (.stuck ()) => .error .unresolvedAlias

/-! ### What is contained by value -/

/-- The types that an entry has in itself: fields that are no trailing arrays, elements, components, what is optional,
and what an alias stands for. -/
def partsByValue (t : TCType) : List Nat :=
  match t.kind with
  | .NAMED => if c.declKind t = some .ENUM then [] else (c.fieldsOf t).filterMap fun f => if f.dependent then none else f.typeId
  | .ANON_STRUCT | .ANON_UNION => (c.fieldsOf t).filterMap TCField.typeId
  | .ARRAY | .OPTIONAL | .ALIAS => t.baseType.toList
  | .TUPLE => (c.componentsOf t).filterMap FuncParam.typeId
  | _ => []

/-- A type is in another by value, with no declared type between them. -/
inductive Within : Nat → Nat → Prop
  | part {id part : Nat} {t : TCType} : c.types[id]? = some t → part ∈ c.partsByValue t → Within id part
  | through {id part inner : Nat} {t : TCType} : c.types[id]? = some t → part ∈ c.partsByValue t →
      c.isNamed part = false → Within part inner → Within id inner

/-- A declared type is in another by value. -/
def Contains (id inner : Nat) : Prop := c.isNamed id = true ∧ c.isNamed inner = true ∧ Within c id inner

/-- Every declared type embeds a chain of types that has an end. -/
def EmbeddingEnds : Prop :=
  ∀ nt ∈ c.namedTypes, c.isNamed nt.typeId = true → ChainWalk.Ends c.embeddedBase nt.typeId

end

variable {c : TypeTable}

theorem isNamed_lt {id : Nat} (named : c.isNamed id = true) : id < c.types.length := by
  rw [isNamed] at named
  cases entry : c.types[id]? with
  | none =>
    rw [entry] at named
    cases named
  | some t => exact (List.getElem?_eq_some_iff.mp entry).1

theorem embeddedBase_isNamed {id base : Nat} (step : ChainWalk.Step c.embeddedBase id base) : c.isNamed base = true := by
  rw [ChainWalk.Step, embeddedBase] at step
  split at step
  · cases step
  · split at step
    · cases step
    · split at step
      · cases step
      · split at step
        · rw [← Option.some.inj (Except.ok.inj step)]
          assumption
        · cases step

/-- The declared types that are walked from. -/
def walkedTypes (c : TypeTable) : List Nat := (c.namedTypes.map NamedType.typeId).filter c.isNamed

theorem mem_walkedTypes {id : Nat} :
    id ∈ c.walkedTypes ↔ ∃ nt ∈ c.namedTypes, c.isNamed nt.typeId = true ∧ nt.typeId = id := by
  rw [walkedTypes, List.mem_filter, List.mem_map]
  constructor
  · rintro ⟨⟨nt, member, same⟩, named⟩
    exact ⟨nt, member, same ▸ named, same⟩
  · rintro ⟨nt, member, named, same⟩
    exact ⟨⟨nt, member, same⟩, same ▸ named⟩

theorem checkEmbeddedCyclesFrom_eq (named : List NamedType) (marks : Nat → ChainWalk.Mark) :
    c.checkEmbeddedCyclesFrom named marks = ChainWalk.walkAll c.embeddedBase (c.types.length + 1)
      ((named.map NamedType.typeId).filter c.isNamed) marks := by
  induction named generalizing marks with
  | nil => rfl
  | cons nt named ih =>
    rw [checkEmbeddedCyclesFrom, checkEmbeddedCycleFrom, List.map_cons]
    by_cases isNamed : c.isNamed nt.typeId = true
    · rw [if_pos isNamed, List.filter_cons_of_pos isNamed, ChainWalk.walkAll]
      cases ChainWalk.walk c.embeddedBase (c.types.length + 1) nt.typeId marks with
      | error e => rfl
      | ok marks' => exact ih marks'
    · rw [if_neg isNamed, List.filter_cons_of_neg isNamed]
      exact ih marks

/-- What the check finds. -/
theorem checkEmbeddedCycles_spec (c : TypeTable) :
    match c.checkEmbeddedCycles with
    | .ok () => c.EmbeddingEnds
    | .error (.EMBEDDED_CYCLE _ _) => ¬c.EmbeddingEnds ∧ ∃ id, Relation.TransGen (ChainWalk.Step c.embeddedBase) id id
    | .error .unresolvedAlias => ¬c.EmbeddingEnds := by
  have fails : (∃ a ∈ c.walkedTypes, ¬ChainWalk.Ends c.embeddedBase a) → ¬c.EmbeddingEnds := by
    rintro ⟨a, member, not_⟩ all
    obtain ⟨nt, isIn, named, rfl⟩ := mem_walkedTypes.mp member
    exact not_ (all nt isIn named)
  have closed : ∀ x y, ChainWalk.Step c.embeddedBase x y → y ∈ List.range c.types.length :=
    fun x y step => List.mem_range.mpr (isNamed_lt (embeddedBase_isNamed step))
  have among : ∀ a ∈ c.walkedTypes, a ∈ List.range c.types.length := by
    intro a member
    obtain ⟨nt, _, named, rfl⟩ := mem_walkedTypes.mp member
    exact List.mem_range.mpr (isNamed_lt named)
  have walks := @ChainWalk.walkAll_spec Nat Unit _ c.embeddedBase (fun _ => .fresh) _ closed c.walkedTypes among
    (fun _ isVisited => nomatch isVisited) (fun _ isVisiting => nomatch isVisiting)
  rw [List.length_range] at walks
  rw [checkEmbeddedCycles, checkEmbeddedCyclesFrom_eq, ← walkedTypes]
  revert walks
  cases ChainWalk.walkAll c.embeddedBase (c.types.length + 1) c.walkedTypes fun _ => .fresh with
  | error e =>
    cases e with
    | cycle x => exact fun ⟨some_, cycle⟩ => ⟨fails some_, cycle⟩
    | stuck e => exact fails
  | ok marks =>
    intro all nt member named
    exact all nt.typeId (mem_walkedTypes.mpr ⟨nt, member, named, rfl⟩)

theorem depth_lt_of_transGen {holds : Nat → Nat → Prop} {depth : Nat → Nat}
    (decreases : ∀ a b, holds a b → depth b < depth a) {a b : Nat} (reaches : Relation.TransGen holds a b) :
    depth b < depth a := by
  induction reaches with
  | single step => exact decreases _ _ step
  | tail _ step ih => exact (decreases _ _ step).trans ih

end HopHop.TypeTable

namespace HopHop.TypeReader

/-- Why the declared types of a program are refused. -/
inductive TypesFailure
  | fields (diag : FieldDiag)
  | embedded (failure : TypeTable.EmbeddedFailure)
  deriving DecidableEq, Repr

section

variable (scope : FieldScope) (collectFunctions : TypeReader → Except FieldDiag TypeReader) (r : TypeReader)

/-- The aliases are resolved before the functions are collected, which read types too, and the fields after that. -/
def resolveTypes : Except FieldDiag TypeReader := do
  let r ← resolveAllTypeAliases scope r
  let r ← collectFunctions r
  resolveAllNamedTypeFields scope r

/-- The part of the checker that accepts the declared types: the table it leaves. -/
def checkNamedTypes : Except TypesFailure TypeTable :=
  match resolveTypes scope collectFunctions r with
  | .error diag => .error (.fields diag)
  | .ok r =>
    match r.table.checkEmbeddedCycles with
    | .error failure => .error (.embedded failure)
    | .ok () => .ok r.table

/-- What is wanted of it: the declared types of an accepted program have a depth, which decreases from a type to those
in it, so no type is in itself and walks over types end, and a program is refused for a cycle only if there is a cycle
of embedded fields. -/
structure FiniteTypes : Prop where
  accepted : ∀ c, checkNamedTypes scope collectFunctions r = .ok c →
    ∃ depth : Nat → Nat, ∀ id inner, c.Contains id inner → depth inner < depth id
  refused : ∀ nameStart nameEnd,
    checkNamedTypes scope collectFunctions r = .error (.embedded (.EMBEDDED_CYCLE nameStart nameEnd)) →
    ∃ r', resolveTypes scope collectFunctions r = .ok r' ∧
      ∃ id, Relation.TransGen (ChainWalk.Step r'.table.embeddedBase) id id

end

/-- `struct A { a A }` -/
def selfSource : List UInt8 := bytesOf "struct A { a A }"

def selfStruct : AstNode := { AstNode.fresh .STRUCT 0 16 with dataStart := 7, dataEnd := 8 }

def selfFields : NodeList :=
  .cons 1 { AstNode.fresh .FIELD 11 14 with dataStart := 11, dataEnd := 12 }
    (.cons 2 { AstNode.fresh .TYPE_NAME 13 14 with dataStart := 13, dataEnd := 14 } .nil .nil) .nil

def selfScope : FieldScope where
  types := fun _ =>
    { findBuiltinType := fun _ _ => none
      resolveTypeNamePath := fun c name => (c.namedTypes.find? fun nt => c.nameOf nt.nameStart nt.nameEnd = name).map
        NamedType.typeId
      resolveActiveTypeParamType := fun _ _ => none
      findBuiltinQualifiedNamedType := fun _ _ => none
      constantType := fun n _ => fail .UNKNOWN_TYPE n.dataStart n.dataEnd
      arrayLenExpr := fun _ n _ _ => failAt n .ARRAY_LEN_CONST_REQUIRED
      containsVarSizeByValue := fun _ _ => false
      declChildren := fun _ => selfFields }
  depth := 3
  typeExprExpected := fun _ n _ _ _ => failAt n .TYPE_MISMATCH

/-- The reader after the declaration has been met. -/
def selfReader : TypeReader where
  table := ((TypeTable.initial selfSource ⟨[selfStruct], 0⟩ 32).addNamedType 0 selfStruct [] none).2
  scratchParamTypes := []
  scratchParamFlags := []
  allowAnytypeParamType := false
  allowConstNumericTypeName := false

end HopHop.TypeReader
