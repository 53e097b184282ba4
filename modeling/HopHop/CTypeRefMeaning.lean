import HopHop.CTypeRefParse

namespace HopHop.CBackend

/-! ### Units and their runs -/

def TypeValue.declared {δ : Type} : TypeValue δ → List δ
  | .NAMED d => [d]
  | .PTR base | .REF _ base | .ARRAY _ base | .SLICE _ base | .OPTIONAL base => base.declared
  | .BUILTIN _ | .UNTYPED_INT | .UNTYPED_FLOAT | .INVALID => []

mutual

/-- The declarations that a tree names. -/
def TypeTree.declared {δ : Type} : TypeTree δ → List δ
  | .TYPE_NAME (.declared d) => [d]
  | .TYPE_NAME _ => []
  | .TYPE_VALUE v => v.declared
  | .TYPE_PTR child | .TYPE_REF child | .TYPE_MUTREF child | .TYPE_ARRAY _ child | .TYPE_VARRAY _ child
  | .TYPE_SLICE child | .TYPE_MUTSLICE child | .TYPE_OPTIONAL child => child.declared
  | .TYPE_FN children => children.declared
  | .TYPE_TUPLE items => items.declared
  | .TYPE_ANON _ fields => fields.declared

def FnChildren.declared {δ : Type} : FnChildren δ → List δ
  | .none => []
  | .result t => t.declared
  | .param _ _ t rest => t.declared ++ rest.declared

def TypeItems.declared {δ : Type} : TypeItems δ → List δ
  | .nil => []
  | .cons t rest => t.declared ++ rest.declared

def TypeFields.declared {δ : Type} : TypeFields δ → List δ
  | .nil => []
  | .cons _ t rest => t.declared ++ rest.declared

end

/-- The type declarations of an accepted unit: an alias stands for its target, which the backend takes and which does
not lead back to the alias; the C name of an alias is the name of nothing else. -/
structure Scope (δ κ : Type) extends Names δ where
  meaning : Leaf δ → Ty κ
  rank : δ → Nat
  target_meaning : ∀ d t, target d = some t → meaning (.declared d) = t.denote meaning
  target_accepted : ∀ d t, target d = some t → ∀ s, (parseTypeRef toNames t s).1.isSome
  target_rank : ∀ d t e, target d = some t → e ∈ t.declared → (target e).isSome → rank e < rank d
  target_cName : ∀ d, (target d).isSome → (cName d).isSome
  alias_named : ∀ d c l r, (target d).isSome → cName d = some c → leafTypeRef toNames l = some r →
    r.baseName = c.toCIdent → l = .declared d

/-- What the backend does to its type tables: it parses type trees, enters an alias, and makes function types and
anonymous types for other parts of the unit. -/
inductive Call (δ : Type) : Type
  | parseTypeRef (t : TypeTree δ)
  | addTypeAliasInfo (d : δ)
  | ensureFnTypeAlias (returnType : TypeRef) (paramTypes : List TypeRef) (isVariadic : Bool)
  | ensureAnonTypeByFields (isUnion : Bool) (fields : List (CIdent × TypeRef))

section Runs

variable {δ : Type} (names : Names δ)

/-- One declaration of `CollectTypeAliasInfo`. -/
def collectTypeAlias (d : δ) (s : Tables) : Parsed TypeRef :=
  match names.target d, names.cName d with
  | some t, some c =>
    (parseTypeRef names t s).andThen fun targetType s => (some targetType, addTypeAliasInfo c.toCIdent targetType s)
  | _, _ => (none, s)

def Call.run : Call δ → Tables → Parsed TypeRef
  | .parseTypeRef t, s => HopHop.CBackend.parseTypeRef names t s
  | .addTypeAliasInfo d, s => collectTypeAlias names d s
  | .ensureFnTypeAlias returnType paramTypes isVariadic, s =>
    let alias_ := HopHop.CBackend.ensureFnTypeAlias names.packageName returnType paramTypes isVariadic s
    (some (.scalar alias_.1), alias_.2)
  | .ensureAnonTypeByFields isUnion fields, s =>
    let anon := HopHop.CBackend.ensureAnonTypeByFields names.packageName isUnion fields s
    (some (.scalar anon.1), anon.2)

/-- What the calls give, one after the other. -/
def results : List (Call δ) → Tables → List (Option TypeRef)
  | [], _ => []
  | call :: rest, s => (call.run names s).1 :: results rest (call.run names s).2

end Runs

/-- Tables with more entries of every kind. -/
structure Tables.Grows (s t : Tables) : Prop where
  fns : s.fnTypeAliases <+: t.fnTypeAliases
  anons : s.anonTypes <+: t.anonTypes
  aliases : s.typeAliases <+: t.typeAliases

theorem Tables.Grows.refl (s : Tables) : s.Grows s := ⟨List.prefix_refl _, List.prefix_refl _, List.prefix_refl _⟩

theorem Tables.Grows.trans {s t u : Tables} (first : s.Grows t) (second : t.Grows u) : s.Grows u :=
  ⟨first.fns.trans second.fns, first.anons.trans second.anons, first.aliases.trans second.aliases⟩

theorem Tables.Extends.grows {s t : Tables} (extends_ : s.Extends t) : s.Grows t :=
  ⟨extends_.fns, extends_.anons, extends_.aliases ▸ List.prefix_refl _⟩

theorem addTypeAliasInfo_grows (name : CIdent) (r : TypeRef) (s : Tables) : s.Grows (addTypeAliasInfo name r s) := by
  simp only [addTypeAliasInfo]
  split
  · exact .refl s
  · exact ⟨List.prefix_refl _, List.prefix_refl _, List.prefix_append _ _⟩

theorem addTypeAliasInfo_named {packageName : CIdent} {s : Tables} (named : s.Named packageName) (name : CIdent)
    (r : TypeRef) : (addTypeAliasInfo name r s).Named packageName := by
  simp only [addTypeAliasInfo]
  split
  · exact named
  · exact ⟨named.fns, named.anons⟩

section Reached

variable {δ : Type} {names : Names δ}

/-- The tables that some calls have made. -/
inductive Reached (names : Names δ) : Tables → Prop
  | empty : Reached names .empty
  | call {s : Tables} (before : Reached names s) (c : Call δ) : Reached names (c.run names s).2

theorem collectTypeAlias_tables (names : Names δ) (d : δ) (s : Tables) :
    (collectTypeAlias names d s).2 = s ∨ ∃ t c, names.target d = some t ∧ names.cName d = some c ∧
      ((∃ r s', parseTypeRef names t s = (some r, s') ∧
          (collectTypeAlias names d s).2 = addTypeAliasInfo c.toCIdent r s') ∨
        (collectTypeAlias names d s).2 = (parseTypeRef names t s).2) := by
  cases target : names.target d with
  | none =>
    left
    simp only [collectTypeAlias, target]
  | some t =>
    cases cName : names.cName d with
    | none =>
      left
      simp only [collectTypeAlias, target, cName]
    | some c =>
      refine .inr ⟨t, c, rfl, rfl, ?_⟩
      cases parsed : parseTypeRef names t s with
      | mk value s' =>
        cases value with
        | none =>
          right
          simp only [collectTypeAlias, target, cName, parsed, Parsed.andThen]
        | some r =>
          refine .inl ⟨r, s', rfl, ?_⟩
          simp only [collectTypeAlias, target, cName, parsed, Parsed.andThen]

theorem Call.run_named (c : Call δ) {s : Tables} (named : s.Named names.packageName) :
    (c.run names s).2.Named names.packageName := by
  cases c with
  | parseTypeRef t => exact (parseTypeRef_steady names t).named s named
  | addTypeAliasInfo d =>
    rcases collectTypeAlias_tables names d s with same |
      ⟨t, c, -, -, ⟨r, s', parsed, after⟩ | after⟩
    · simp only [run, same]
      exact named
    · have known := (parseTypeRef_steady names t).named s named
      rw [parsed] at known
      simp only [run, after]
      exact addTypeAliasInfo_named known _ _
    · simp only [run, after]
      exact (parseTypeRef_steady names t).named s named
  | ensureFnTypeAlias returnType paramTypes isVariadic => exact (ensureFnTypeAlias_spec named).1
  | ensureAnonTypeByFields isUnion fields => exact (ensureAnonTypeByFields_spec named).1

theorem Call.run_grows (c : Call δ) {s : Tables} (named : s.Named names.packageName) : s.Grows (c.run names s).2 := by
  cases c with
  | parseTypeRef t => exact ((parseTypeRef_steady names t).extends_ s named).grows
  | addTypeAliasInfo d =>
    rcases collectTypeAlias_tables names d s with same |
      ⟨t, c, -, -, ⟨r, s', parsed, after⟩ | after⟩
    · simp only [run, same]
      exact .refl s
    · have more := (parseTypeRef_steady names t).extends_ s named
      rw [parsed] at more
      simp only [run, after]
      exact more.grows.trans (addTypeAliasInfo_grows _ _ _)
    · simp only [run, after]
      exact ((parseTypeRef_steady names t).extends_ s named).grows
  | ensureFnTypeAlias returnType paramTypes isVariadic => exact (ensureFnTypeAlias_spec named).2.1.grows
  | ensureAnonTypeByFields isUnion fields => exact (ensureAnonTypeByFields_spec named).2.1.grows

theorem Reached.named {s : Tables} (reached : Reached names s) : s.Named names.packageName := by
  induction reached with
  | empty => exact .empty _
  | call before c ih => exact c.run_named ih

/-- An entry of the alias table is what the target of an alias parsed to in the tables `before`. -/
def Entered (names : Names δ) (before s : Tables) (info : TypeAliasInfo) : Prop :=
  ∃ d t c after, names.target d = some t ∧ names.cName d = some c ∧ info.aliasName = c.toCIdent ∧
    parseTypeRef names t before = (some info.targetType, after) ∧ after.Grows s

theorem Call.run_aliases (c : Call δ) {s : Tables} (named : s.Named names.packageName) {info : TypeAliasInfo}
    (member : info ∈ (c.run names s).2.typeAliases) :
    info ∈ s.typeAliases ∨ Entered names s (c.run names s).2 info := by
  cases c with
  | parseTypeRef t => exact .inl (((parseTypeRef_steady names t).extends_ s named).aliases ▸ member)
  | addTypeAliasInfo d =>
    rcases collectTypeAlias_tables names d s with same | ⟨t, c, isTarget, isName, ⟨r, s', parsed, after⟩ | after⟩
    · simp only [run, same] at member
      exact .inl member
    · have more := (parseTypeRef_steady names t).extends_ s named
      rw [parsed] at more
      simp only [run, after] at member ⊢
      have cases_ := member
      simp only [CBackend.addTypeAliasInfo] at cases_
      split at cases_
      · exact .inl (more.aliases ▸ cases_)
      · rcases List.mem_append.mp cases_ with old | new
        · exact .inl (more.aliases ▸ old)
        · rw [List.mem_singleton.mp new]
          exact .inr ⟨d, t, c, s', isTarget, isName, rfl, parsed, addTypeAliasInfo_grows _ _ _⟩
    · simp only [run, after] at member
      exact .inl (((parseTypeRef_steady names t).extends_ s named).aliases ▸ member)
  | ensureFnTypeAlias returnType paramTypes isVariadic =>
    exact .inl ((ensureFnTypeAlias_spec named).2.1.aliases ▸ member)
  | ensureAnonTypeByFields isUnion fields =>
    exact .inl ((ensureAnonTypeByFields_spec named).2.1.aliases ▸ member)

theorem Reached.entered {s : Tables} (reached : Reached names s) {info : TypeAliasInfo}
    (member : info ∈ s.typeAliases) : ∃ before, Reached names before ∧ Entered names before s info := by
  induction reached with
  | empty => cases member
  | call before c ih =>
    rcases c.run_aliases before.named member with old | new
    · obtain ⟨earlier, reached, d, t, c', after, isTarget, isName, same, parsed, grows⟩ := ih old
      exact ⟨earlier, reached, d, t, c', after, isTarget, isName, same, parsed, grows.trans (c.run_grows before.named)⟩
    · exact ⟨_, before, new⟩

/-- The tables after some calls. -/
def tablesAfter (names : Names δ) : List (Call δ) → Tables → Tables
  | [], s => s
  | call :: rest, s => tablesAfter names rest (call.run names s).2

theorem tablesAfter_grows {calls : List (Call δ)} {s : Tables} (named : s.Named names.packageName) :
    s.Grows (tablesAfter names calls s) := by
  induction calls generalizing s with
  | nil => exact .refl s
  | cons call rest ih => exact (call.run_grows named).trans (ih (call.run_named named))

theorem tablesAfter_reached {calls : List (Call δ)} {s : Tables} (reached : Reached names s) :
    Reached names (tablesAfter names calls s) := by
  induction calls generalizing s with
  | nil => exact reached
  | cons call rest ih => exact ih (reached.call call)

theorem results_at {calls : List (Call δ)} {s : Tables} (reached : Reached names s) {i : Nat} {call : Call δ}
    {value : Option TypeRef} (isCall : calls[i]? = some call) (given : (results names calls s)[i]? = some value) :
    ∃ before after, Reached names before ∧ call.run names before = (value, after) ∧
      after.Grows (tablesAfter names calls s) := by
  induction calls generalizing s i with
  | nil => cases isCall
  | cons first rest ih =>
    cases i with
    | zero =>
      cases isCall
      simp only [results, List.getElem?_cons_zero, Option.some.injEq] at given
      exact ⟨s, (call.run names s).2, reached, Prod.ext given rfl, tablesAfter_grows (call.run_named reached.named)⟩
    | succ i =>
      rw [List.getElem?_cons_succ] at isCall
      rw [results, List.getElem?_cons_succ] at given
      exact ih (reached.call first) isCall given

end Reached

end HopHop.CBackend
