import HopHop.TypeNames

namespace HopHop.TypeTable

section

variable (c : TypeTable)

/-- Where a substitution goes in a declared type: to its arguments, and for an instance of an alias to the base of the
declaration. There is no way into too many arguments, or into an alias that has no base yet. -/
def namedParts (id : TypeId) : Option (List TypeId × List TypeId) :=
  match c.namedTypes.find? (fun nt => some nt.typeId = id) with
  | none => some ([], [])
  | some nt =>
    if nt.templateRootNamedIndex < 0 ∧ nt.templateArgCount = 0 then some ([], [])
    else if 64 < nt.templateArgCount then none
    else if nt.templateRootNamedIndex < 0 then some (c.templateArgs nt, [])
    else
      match c.namedTypes[nt.templateRootNamedIndex.toNatClampNeg]? with
      | none => none
      | some root =>
        match c.types[root.typeId]? with
        | none => none
        | some rootType =>
          if rootType.kind ≠ .ALIAS then some (c.templateArgs nt, [])
          else if rootType.flags.aliasResolved then some (c.templateArgs nt, [rootType.baseType])
          else none

/-- Where a substitution goes in a type: the components, and the base an alias is instantiated from. -/
def substParts (id : TypeId) : Option (List TypeId × List TypeId) :=
  match c.entry id with
  | none => none
  | some t =>
    match t.kind with
    | .PTR | .REF | .ARRAY | .SLICE | .OPTIONAL => some ([t.baseType], [])
    | .TUPLE | .PACK =>
      if 256 < t.fieldCount then none else some ((c.componentsOf t).map FuncParam.typeId, [])
    | .FUNCTION =>
      if 256 < t.fieldCount then none else some (t.baseType :: (c.componentsOf t).map FuncParam.typeId, [])
    | .NAMED | .ALIAS => c.namedParts id
    | _ => some ([], [])

/-- Types that a substitution can go through without being refused, with a bound for what it adds to the table. -/
inductive Admits : List TypeId → Nat → Prop
  | nil : Admits [] 0
  | cons {id : TypeId} {rest parts bases : List TypeId} {n m k : Nat} : c.substParts id = some (parts, bases) →
      Admits parts n → Admits bases m → Admits rest k → Admits (id :: rest) (parts.length + 1 + n + m + k)

end

variable {c : TypeTable} {working : List Nat}

theorem find?_append_of_none {α : Type} {l more : List α} {p : α → Bool} (others : ∀ x ∈ more, p x = false) :
    (l ++ more).find? p = l.find? p := by
  have missing : more.find? p = none := by
    refine List.find?_eq_none.mpr fun x member => ?_
    rw [others x member]
    exact Bool.false_ne_true
  rw [List.find?_append, missing, Option.or_none]

/-- The declared type of an id is found again when the table has grown. -/
theorem Grows.find_named {c' : TypeTable} (grows : Grows c c') {id : TypeId} (holds : c.Holds id) :
    c'.namedTypes.find? (fun nt => some nt.typeId = id) = c.namedTypes.find? (fun nt => some nt.typeId = id) := by
  obtain ⟨more, same, fresh⟩ := grows.named
  obtain ⟨n, below, rfl⟩ := holds
  rw [same]
  refine find?_append_of_none fun nt member => ?_
  have := (fresh nt member).1
  simp only [Option.some.injEq, decide_eq_false_iff_not]
  omega

theorem Grows.namedAt {c' : TypeTable} (grows : Grows c c') {i : Nat} {nt : NamedType}
    (atI : c.namedTypes[i]? = some nt) : c'.namedTypes[i]? = some nt := by
  obtain ⟨more, same, -⟩ := grows.named
  rw [same, List.getElem?_append_left (List.getElem?_eq_some_iff.mp atI).1, atI]

theorem Grows.templateArgs {c' : TypeTable} (grows : Grows c c') (good : Good working c) {nt : NamedType}
    (member : nt ∈ c.namedTypes) : c'.templateArgs nt = c.templateArgs nt :=
  take_drop_prefix grows.args (good.names.argRange nt member)

theorem Grows.namedParts {c' : TypeTable} (grows : Grows c c') (good : Good working c) {id : TypeId}
    (holds : c.Holds id) {parts : List TypeId × List TypeId} (into : c.namedParts id = some parts) :
    c'.namedParts id = some parts := by
  unfold TypeTable.namedParts at into ⊢
  rw [grows.find_named holds]
  split at into
  · exact into
  · rename_i nt found
    have member := List.mem_of_find?_eq_some found
    rw [grows.templateArgs good member]
    split at into
    · rename_i plain
      rw [if_pos plain]
      exact into
    rename_i notPlain
    rw [if_neg notPlain]
    split at into
    · cases into
    rename_i few
    rw [if_neg few]
    split at into
    · rename_i isDecl
      rw [if_pos isDecl]
      exact into
    rename_i notDecl
    rw [if_neg notDecl]
    split at into
    · cases into
    rename_i root atRoot
    rw [grows.namedAt atRoot]
    split at into
    · cases into
    rename_i rootType atType
    obtain ⟨rootType', atType', keeps⟩ := grows.types _ _ atType
    simp only [atType', keeps.kind]
    split at into
    · rename_i notAlias
      rw [if_pos notAlias]
      exact into
    rename_i isAlias
    rw [if_neg isAlias]
    split at into
    · rename_i resolved
      obtain ⟨base, flag⟩ := keeps.base fun _ => resolved
      rw [flag, if_pos resolved, base]
      exact into
    · cases into

theorem Grows.substParts {c' : TypeTable} (grows : Grows c c') (good : Good working c) {id : TypeId}
    {parts : List TypeId × List TypeId} (into : c.substParts id = some parts) : c'.substParts id = some parts := by
  unfold TypeTable.substParts at into ⊢
  cases atId : c.entry id with
  | none =>
    rw [atId] at into
    cases into
  | some t =>
    obtain ⟨n, rfl, atN⟩ := Option.bind_eq_some_iff.mp atId
    obtain ⟨t', atN', keeps⟩ := grows.types n t atN
    have atId' : c'.entry (some n) = some t' := atN'
    have closed := good.types.closed t (List.mem_of_getElem? atN)
    have base : t.kind ≠ .ALIAS → t'.baseType = t.baseType := fun notAlias =>
      (keeps.base fun isAlias => absurd isAlias notAlias).1
    simp only [atId] at into
    simp only [atId', keeps.kind, keeps.fieldCount]
    cases kind : t.kind <;> simp only [kind] at into ⊢
    case PTR | REF | ARRAY | SLICE | OPTIONAL =>
      rw [base (by rw [kind]; decide)]
      exact into
    case TUPLE =>
      rw [grows.componentsOf closed.inRange keeps (.inr (.inl kind))]
      exact into
    case PACK =>
      rw [grows.componentsOf closed.inRange keeps (.inr (.inr kind))]
      exact into
    case FUNCTION =>
      rw [grows.componentsOf closed.inRange keeps (.inl kind), base (by rw [kind]; decide)]
      exact into
    case NAMED | ALIAS => exact grows.namedParts good (holds_of_entry atId) into
    all_goals exact into

end HopHop.TypeTable
