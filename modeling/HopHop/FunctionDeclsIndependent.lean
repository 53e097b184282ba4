import HopHop.FunctionDeclsOrder

namespace HopHop.Decls

/-- The function nodes of a file, in their order. -/
def declared : NodeList → List FnDecl
  | .nil => []
  | .cons id n kids rest =>
    (if n.kind = .PUB then declared kids else if n.kind = .FN then [⟨id.toNat, n, kids⟩] else []) ++ declared rest

section

variable {Ty : Type} [DecidableEq Ty] {scope : SignatureScope Ty}

theorem collectFunctions_append (first second : List FnDecl) (funcs : List (DeclaredFunction Ty)) :
    collectFunctions scope (first ++ second) funcs = collectFunctions scope first funcs >>= collectFunctions scope second := by
  rw [collectFunctions, List.foldlM_append]
  rfl

theorem collectFunctionDecls_eq (file : NodeList) (funcs : List (DeclaredFunction Ty)) :
    collectFunctionDecls scope file funcs = collectFunctions scope (declared file) funcs := by
  induction file generalizing funcs with
  | nil => rfl
  | cons id n kids rest ihKids ihRest =>
    have later : (fun funcs => collectFunctionDecls scope rest funcs) = collectFunctions scope (declared rest) :=
      funext ihRest
    rw [collectFunctionDecls, declared, collectFunctions_append, ← later]
    by_cases isPub : n.kind = .PUB
    · rw [if_pos isPub, if_pos isPub, ihKids]
    · rw [if_neg isPub, if_neg isPub]
      by_cases isFn : n.kind = .FN
      · rw [if_pos isFn, if_pos isFn, collectFunctions, List.foldlM_cons]
        simp only [List.foldlM_nil, bind_pure]
      · rw [if_neg isFn, if_neg isFn]
        rfl

/-- An entry as far as it matters: what the function is, and where its body is. -/
def described (scope : SignatureScope Ty) (f : DeclaredFunction Ty) : FunctionIdentity Ty × Option Nat :=
  (identity scope f, f.defNode)

def paramTypes (f : DeclaredFunction Ty) : List Ty := f.params.map FnParam.type

/-- What is wanted of collecting the functions of a file: the order is of no effect, declarations are merged when their
identities are equal and only then, a second body is refused, and overloads are kept. -/
structure OrderIndependent (scope : SignatureScope Ty) (file : NodeList) : Prop where
  acceptance : ∀ file', (declared file').Perm (declared file) →
    ((∃ funcs, collectFunctionDecls scope file' [] = .ok funcs) ↔ ∃ funcs, collectFunctionDecls scope file [] = .ok funcs)
  functions : ∀ file' funcs funcs', (declared file').Perm (declared file) →
    collectFunctionDecls scope file [] = .ok funcs → collectFunctionDecls scope file' [] = .ok funcs' →
    (funcs'.map (described scope)).Perm (funcs.map (described scope))
  merged : ∀ funcs, collectFunctionDecls scope file [] = .ok funcs → (funcs.map (identity scope)).Nodup ∧
    ∀ i, i ∈ funcs.map (identity scope) ↔ ∃ d ∈ declared file, ∃ e, readFunction scope d = .ok e ∧ identity scope e = i
  definitions : ∀ funcs, collectFunctionDecls scope file [] = .ok funcs → ∀ f ∈ funcs, ∀ n, f.defNode = some n ↔
    ∃ d ∈ declared file, ∃ e, readFunction scope d = .ok e ∧ identity scope e = identity scope f ∧ e.defNode = some n
  duplicates : (∀ diag, collectFunctionDecls scope file [] = .error diag → diag.code = .DUPLICATE_DEFINITION →
      ¬(bodies scope (entries scope (declared file))).Nodup) ∧
    (¬(bodies scope (entries scope (declared file))).Nodup →
      ¬∃ funcs, collectFunctionDecls scope file [] = .ok funcs)
  overloads : ∀ d ∈ declared file, ∀ d' ∈ declared file, ∀ e e', readFunction scope d = .ok e →
    readFunction scope d' = .ok e' → functionNameEq scope e e' → paramTypes e ≠ paramTypes e' →
    collectFunctions scope [d, d'] [] = .ok [e, e']

/-- Overloads with one number of parameters and one result have one context. -/
def ContextsAgree (scope : SignatureScope Ty) (file : NodeList) : Prop :=
  ∀ d ∈ declared file, ∀ d' ∈ declared file, ∀ e e', readFunction scope d = .ok e → readFunction scope d' = .ok e' →
    functionNameEq scope e e' → sameShape e e' → paramTypes e ≠ paramTypes e' → e.contextType = e'.contextType

/-- A file is accepted when its functions can be read one by one and are admissible together. -/
theorem collectFunctionDecls_ok_iff (file : NodeList) : (∃ funcs, collectFunctionDecls scope file [] = .ok funcs) ↔
    Readable scope (declared file) ∧ Admissible scope (entries scope (declared file)) := by
  have empty : Admissible scope [] := ⟨fun _ none => (List.not_mem_nil none).elim, .nil⟩
  rw [collectFunctionDecls_eq]
  rcases TableOf.nil.collectFunctions empty (declared file) with ⟨funcs, ran, readable, admissible, _⟩ | ⟨diag, ran, not_, _⟩
  · exact ⟨fun _ => ⟨readable, admissible⟩, fun _ => ⟨funcs, ran⟩⟩
  · refine ⟨fun ⟨funcs, ran'⟩ => ?_, fun both => absurd both not_⟩
    rw [ran] at ran'
    cases ran'

theorem tableOf_collected {file : NodeList} {funcs : List (DeclaredFunction Ty)}
    (ran : collectFunctionDecls scope file [] = .ok funcs) : TableOf scope (entries scope (declared file)) funcs := by
  have empty : Admissible scope [] := ⟨fun _ none => (List.not_mem_nil none).elim, .nil⟩
  rw [collectFunctionDecls_eq] at ran
  rcases TableOf.nil.collectFunctions empty (declared file) with ⟨funcs', ran', _, _, tableOf⟩ | ⟨diag, ran', _⟩
  · rw [ran] at ran'
    rw [Except.ok.inj ran']
    exact tableOf
  · rw [ran] at ran'
    cases ran'

theorem Admissible.perm {es es' : List (DeclaredFunction Ty)} (admissible : Admissible scope es) (perm : es'.Perm es) :
    Admissible scope es' := by
  refine ⟨fun f member g member' => ?_, ?_⟩
  · exact admissible.agree f (perm.mem_iff.mp member) g (perm.mem_iff.mp member')
  · exact ((perm.filter _).map _).nodup_iff.mpr admissible.bodies

theorem Readable.perm {ds ds' : List FnDecl} (readable : Readable scope ds) (perm : ds'.Perm ds) : Readable scope ds' :=
  fun d member => readable d (perm.mem_iff.mp member)

/-- Two tables of the same declarations have the same functions. -/
theorem TableOf.perm {es es' funcs funcs' : List (DeclaredFunction Ty)} (tableOf : TableOf scope es funcs)
    (tableOf' : TableOf scope es' funcs') (perm : es'.Perm es) :
    (funcs'.map (described scope)).Perm (funcs.map (described scope)) := by
  have within {es es' funcs funcs' : List (DeclaredFunction Ty)} (tableOf : TableOf scope es funcs)
      (tableOf' : TableOf scope es' funcs') (perm : es'.Perm es) : ∀ x, x ∈ funcs.map (described scope) →
      x ∈ funcs'.map (described scope) := by
    intro x isIn
    obtain ⟨f, member, rfl⟩ := List.mem_map.mp isIn
    have known := (tableOf.mem _).mp (List.mem_map_of_mem member)
    obtain ⟨f', member', same⟩ := List.mem_map.mp ((tableOf'.mem _).mpr (((perm.map _).mem_iff).mpr known))
    have def_ : f'.defNode = f.defNode := by
      refine Option.ext fun n => ?_
      rw [tableOf'.defs f' member', tableOf.defs f member, same]
      exact exists_congr fun e => and_congr_left fun _ => perm.mem_iff
    exact List.mem_map.mpr ⟨f', member', Prod.ext same def_⟩
  have distinct {es funcs : List (DeclaredFunction Ty)} (tableOf : TableOf scope es funcs) :
      (funcs.map (described scope)).Nodup := by
    have nodup := tableOf.nodup
    rw [show identity scope = Prod.fst ∘ described scope from rfl, ← List.map_map] at nodup
    exact nodup.of_map _
  refine (List.perm_ext_iff_of_nodup (distinct tableOf') (distinct tableOf)).mpr fun x => ?_
  exact ⟨within tableOf' tableOf perm.symm x, within tableOf tableOf' perm x⟩

theorem entries_perm {ds ds' : List FnDecl} (perm : ds'.Perm ds) : (entries scope ds').Perm (entries scope ds) :=
  perm.filterMap _

/-- Two overloads on their own. -/
theorem collectFunctions_pair {d d' : FnDecl} {e e' : DeclaredFunction Ty} (read : readFunction scope d = .ok e)
    (read' : readFunction scope d' = .ok e') (name : functionNameEq scope e e') (types : paramTypes e ≠ paramTypes e') :
    collectFunctions scope [d, d'] [] = .ok [e, e'] ↔ (sameShape e e' → e.contextType = e'.contextType) := by
  have other : ¬functionIdentityMatches e e' := by
    intro same
    have params := congrArg (List.map Prod.fst) same.2.2
    rw [paramIdentity, paramIdentity, List.map_map, List.map_map] at params
    exact types params
  have ran : collectFunctions scope [d, d'] [] = addFunction scope d'.node e' [e] := by
    rw [collectFunctions, List.foldlM_cons, collectFunction, read]
    change List.foldlM (collectFunction scope) [e] [d'] = _
    rw [List.foldlM_cons, collectFunction, read']
    simp only [List.foldlM_nil, bind_pure]
    rfl
  rw [ran, addFunction, if_neg (not_not.mpr name)]
  by_cases shape : sameShape e e'
  · rw [if_neg (not_not.mpr shape)]
    by_cases context : e.contextType = e'.contextType
    · rw [if_neg (not_not.mpr context), if_pos other]
      exact ⟨fun _ _ => context, fun _ => rfl⟩
    · rw [if_pos context]
      refine ⟨fun same => ?_, fun all => absurd (all shape) context⟩
      cases same
  · rw [if_pos shape]
    exact ⟨fun _ shape' => absurd shape' shape, fun _ => rfl⟩

end

/-- Types that are known by their names. -/
def namedScope (src : List UInt8) : SignatureScope (List UInt8) where
  src := src
  scratchParamCap := 128
  typeVoid := bytesOf "void"
  typeBool := bytesOf "bool"
  typeIsize := bytesOf "int"
  typeAnytype := bytesOf "anytype"
  typeUntypedInt := bytesOf "const_int"
  typeUntypedFloat := bytesOf "const_float"
  typeParam := fun _ n => (src.drop n.dataStart).take (n.dataEnd - n.dataStart)
  resolveTypeNode := fun _ _ _ n _ => .ok ((src.drop n.dataStart).take (n.dataEnd - n.dataStart))
  containsVarSizeByValue := fun _ => false
  containsAnyParam := fun type params => params.contains type
  sliceType := fun type => bytesOf "[" ++ type ++ bytesOf "]"
  canAssign := fun dst src => dst = src

/-- A node with a name. -/
def namedNode (kind : AstKind) (start stop dataStart dataEnd : Nat) : AstNode :=
  { AstNode.fresh kind start stop with dataStart, dataEnd }

/-- A declaration of `f` with a parameter `x` of a named type and the context of a name, from a place of the source. -/
def overload (id start : Nat) : FnDecl where
  id := id
  node := namedNode .FN start (start + 21) (start + 3) (start + 4)
  kids :=
    .cons (id + 1) (namedNode .PARAM (start + 5) (start + 10) (start + 5) (start + 6))
      (.cons (id + 2) (namedNode .TYPE_NAME (start + 7) (start + 10) (start + 7) (start + 10)) .nil .nil)
      (.cons (id + 3) (namedNode .CONTEXT_CLAUSE (start + 12) (start + 21) 0 0)
        (.cons (id + 4) (namedNode .TYPE_NAME (start + 20) (start + 21) (start + 20) (start + 21)) .nil .nil) .nil)

def twoContexts : List UInt8 := bytesOf "fn f(x int) context A\nfn f(x str) context B\n"

end HopHop.Decls
