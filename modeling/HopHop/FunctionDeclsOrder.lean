import HopHop.FunctionDecls
import Mathlib.Data.List.Nodup
import Mathlib.Data.List.Perm.Basic

namespace HopHop.Decls

/-- What makes two declarations ones of the same function. -/
structure FunctionIdentity (Ty : Type) where
  name : List UInt8
  returnType : Option Ty
  variadic : Bool
  contextType : Option Ty
  params : List (Ty × Bool)
  deriving DecidableEq, Repr

section

variable {Ty : Type} [DecidableEq Ty] {scope : SignatureScope Ty} {node : AstNode}
  {f g new : DeclaredFunction Ty} {es funcs funcs' : List (DeclaredFunction Ty)}

def identity (scope : SignatureScope Ty) (f : DeclaredFunction Ty) : FunctionIdentity Ty :=
  ⟨f.name.bytes scope.src, f.returnType, f.variadic, f.contextType, paramIdentity f⟩

theorem identity_eq_iff :
    identity scope f = identity scope new ↔ functionNameEq scope f new ∧ functionIdentityMatches f new := by
  simp only [identity, FunctionIdentity.mk.injEq, functionNameEq, functionIdentityMatches, sameShape]
  constructor
  · rintro ⟨name, returnType, variadic, contextType, params⟩
    have count := congrArg List.length params
    rw [paramIdentity, paramIdentity, List.length_map, List.length_map] at count
    exact ⟨name, ⟨count, returnType, variadic⟩, contextType, params⟩
  · rintro ⟨name, ⟨_, returnType, variadic⟩, contextType, params⟩
    exact ⟨name, returnType, variadic, contextType, params⟩

/-- Two functions that are taken for ones of the same context. -/
def Comparable (scope : SignatureScope Ty) (f g : DeclaredFunction Ty) : Prop := functionNameEq scope f g ∧ sameShape f g

theorem Comparable.symm (comparable : Comparable scope f g) : Comparable scope g f :=
  ⟨comparable.1.symm, comparable.2.1.symm, comparable.2.2.1.symm, comparable.2.2.2.symm⟩

theorem Comparable.trans {h : DeclaredFunction Ty} (first : Comparable scope f g) (second : Comparable scope g h) :
    Comparable scope f h :=
  ⟨first.1.trans second.1, first.2.1.trans second.2.1, first.2.2.1.trans second.2.2.1,
    first.2.2.2.trans second.2.2.2⟩

theorem comparable_of_identity (same : identity scope f = identity scope g) : Comparable scope f g :=
  have both := identity_eq_iff.mp same
  ⟨both.1, both.2.1⟩

/-- A function has the context of all that are comparable to it. -/
def AgreesWith (scope : SignatureScope Ty) (new : DeclaredFunction Ty) (funcs : List (DeclaredFunction Ty)) : Prop :=
  ∀ f ∈ funcs, Comparable scope f new → f.contextType = new.contextType

def Agree (scope : SignatureScope Ty) (funcs : List (DeclaredFunction Ty)) : Prop :=
  ∀ f ∈ funcs, AgreesWith scope f funcs

/-! ### One function -/

/-- What adding a function to a table comes to. -/
inductive AddOutcome (scope : SignatureScope Ty) (node : AstNode) (new : DeclaredFunction Ty)
    (funcs : List (DeclaredFunction Ty)) : Except CollectDiag (List (DeclaredFunction Ty)) → Prop
  | mismatch : ¬AgreesWith scope new funcs →
      AddOutcome scope node new funcs (refuse .CONTEXT_CLAUSE_MISMATCH node.start node.stop)
  | first : AgreesWith scope new funcs → (∀ f ∈ funcs, identity scope f ≠ identity scope new) →
      AddOutcome scope node new funcs (.ok (funcs ++ [new]))
  | again {f : DeclaredFunction Ty} : AgreesWith scope new funcs → f ∈ funcs → identity scope f = identity scope new →
      new.defNode = none → AddOutcome scope node new funcs (.ok funcs)
  | defines (pre post : List (DeclaredFunction Ty)) {f : DeclaredFunction Ty} : AgreesWith scope new funcs →
      funcs = pre ++ f :: post → identity scope f = identity scope new → new.defNode.isSome = true →
      f.defNode = none → AddOutcome scope node new funcs (.ok (pre ++ { f with defNode := new.defNode } :: post))
  | duplicate {f : DeclaredFunction Ty} : AgreesWith scope new funcs → f ∈ funcs →
      identity scope f = identity scope new → new.defNode.isSome = true → f.defNode.isSome = true →
      AddOutcome scope node new funcs (refuse .DUPLICATE_DEFINITION node.dataStart node.dataEnd)

/-- A function that is passed over. -/
theorem AddOutcome.cons {outcome : Except CollectDiag (List (DeclaredFunction Ty))}
    (later : AddOutcome scope node new funcs outcome) (agrees : Comparable scope f new → f.contextType = new.contextType)
    (other : identity scope f ≠ identity scope new) :
    AddOutcome scope node new (f :: funcs) ((f :: ·) <$> outcome) := by
  have agreesAll (rest : AgreesWith scope new funcs) : AgreesWith scope new (f :: funcs) := by
    intro g member comparable
    rcases List.mem_cons.mp member with rfl | later
    · exact agrees comparable
    · exact rest g later comparable
  cases later with
  | mismatch differ =>
    exact .mismatch fun all => differ fun g member => all g (List.mem_cons_of_mem _ member)
  | first rest fresh =>
    refine .first (agreesAll rest) fun g member => ?_
    rcases List.mem_cons.mp member with rfl | later
    · exact other
    · exact fresh g later
  | again rest member same noBody => exact .again (agreesAll rest) (List.mem_cons_of_mem _ member) same noBody
  | defines pre post rest split same body noBody =>
    exact .defines (f :: pre) post (agreesAll rest) (congrArg (f :: ·) split) same body noBody
  | duplicate rest member same body body' =>
    exact .duplicate (agreesAll rest) (List.mem_cons_of_mem _ member) same body body'

theorem addFunction_outcome (node : AstNode) (new : DeclaredFunction Ty) (agree : Agree scope funcs) :
    AddOutcome scope node new funcs (addFunction scope node new funcs) := by
  induction funcs with
  | nil => exact .first (fun _ none => (List.not_mem_nil none).elim) fun _ none => (List.not_mem_nil none).elim
  | cons f funcs ih =>
    have later := ih fun g member h member' => agree g (List.mem_cons_of_mem _ member) h (List.mem_cons_of_mem _ member')
    rw [addFunction]
    by_cases name : functionNameEq scope f new
    · rw [if_neg (not_not.mpr name)]
      by_cases shape : sameShape f new
      · rw [if_neg (not_not.mpr shape)]
        by_cases context : f.contextType = new.contextType
        · have agrees : AgreesWith scope new (f :: funcs) := by
            intro g member comparable
            rw [← context]
            exact agree f (List.mem_cons_self ..) g member (comparable.trans (Comparable.symm ⟨name, shape⟩))
          rw [if_neg (not_not.mpr context)]
          by_cases matches_ : functionIdentityMatches f new
          · have same := identity_eq_iff.mpr ⟨name, matches_⟩
            rw [if_neg (not_not.mpr matches_)]
            by_cases body : new.defNode.isSome = true
            · rw [if_pos body]
              by_cases body' : f.defNode.isSome = true
              · rw [if_pos body']
                exact .duplicate agrees (List.mem_cons_self ..) same body body'
              · rw [if_neg body']
                exact .defines [] funcs agrees rfl same body (Option.not_isSome_iff_eq_none.mp body')
            · rw [if_neg body]
              exact .again agrees (List.mem_cons_self ..) same (Option.not_isSome_iff_eq_none.mp body)
          · rw [if_pos matches_]
            exact later.cons (fun _ => context) fun same => matches_ (identity_eq_iff.mp same).2
        · rw [if_pos context]
          exact .mismatch fun all => context (all f (List.mem_cons_self ..) ⟨name, shape⟩)
      · rw [if_pos shape]
        exact later.cons (fun comparable => absurd comparable.2 shape) fun same =>
          shape (comparable_of_identity same).2
    · rw [if_pos name]
      exact later.cons (fun comparable => absurd comparable.1 name) fun same => name (comparable_of_identity same).1

/-! ### All functions -/

/-- What the table is to be for declarations: one entry for each identity, with the body of that identity. -/
structure TableOf (scope : SignatureScope Ty) (es funcs : List (DeclaredFunction Ty)) : Prop where
  nodup : (funcs.map (identity scope)).Nodup
  mem : ∀ i, i ∈ funcs.map (identity scope) ↔ i ∈ es.map (identity scope)
  defs : ∀ f ∈ funcs, ∀ n, f.defNode = some n ↔ ∃ e ∈ es, identity scope e = identity scope f ∧ e.defNode = some n

/-- The identities of the declarations that have a body. -/
def bodies (scope : SignatureScope Ty) (es : List (DeclaredFunction Ty)) : List (FunctionIdentity Ty) :=
  (es.filter (·.defNode.isSome)).map (identity scope)

/-- No two comparable declarations differ in their contexts, and no two bodies have one identity. -/
structure Admissible (scope : SignatureScope Ty) (es : List (DeclaredFunction Ty)) : Prop where
  agree : Agree scope es
  bodies : (bodies scope es).Nodup

theorem mem_bodies {i : FunctionIdentity Ty} :
    i ∈ bodies scope es ↔ ∃ e ∈ es, e.defNode.isSome = true ∧ identity scope e = i := by
  simp only [bodies, List.mem_map, List.mem_filter, and_assoc]

theorem agreesWith_of_identity (tableOf : TableOf scope es funcs) : AgreesWith scope new funcs ↔ AgreesWith scope new es := by
  have transfer {l l' : List (DeclaredFunction Ty)} (sub : ∀ f ∈ l, identity scope f ∈ l'.map (identity scope))
      (agrees : AgreesWith scope new l') : AgreesWith scope new l := by
    intro f member comparable
    obtain ⟨g, member', same⟩ := List.mem_map.mp (sub f member)
    have context : g.contextType = f.contextType := congrArg FunctionIdentity.contextType same
    rw [← context]
    exact agrees g member' ((comparable_of_identity same).trans comparable)
  constructor
  · exact transfer fun f member => (tableOf.mem _).mpr (List.mem_map_of_mem member)
  · exact transfer fun f member => (tableOf.mem _).mp (List.mem_map_of_mem member)

theorem agree_append (agree : Agree scope es) (agrees : AgreesWith scope new es) : Agree scope (es ++ [new]) := by
  intro f member g member' comparable
  rcases List.mem_append.mp member with old | isNew <;> rcases List.mem_append.mp member' with old' | isNew'
  · exact agree f old g old' comparable
  · rw [List.mem_singleton.mp isNew'] at comparable ⊢
    exact (agrees f old comparable.symm).symm
  · rw [List.mem_singleton.mp isNew] at comparable ⊢
    exact agrees g old' comparable
  · rw [List.mem_singleton.mp isNew, List.mem_singleton.mp isNew']

theorem bodies_append : bodies scope (es ++ [new])
    = bodies scope es ++ if new.defNode.isSome then [identity scope new] else [] := by
  rw [bodies, List.filter_append, List.map_append, ← bodies, List.filter_singleton]
  cases new.defNode.isSome <;> rfl

theorem TableOf.agree (tableOf : TableOf scope es funcs) (agree : Agree scope es) : Agree scope funcs := by
  intro f member
  obtain ⟨e, member', same⟩ := List.mem_map.mp ((tableOf.mem _).mp (List.mem_map_of_mem member))
  have agrees : AgreesWith scope f es := by
    intro g inEs comparable
    have context : e.contextType = f.contextType := congrArg FunctionIdentity.contextType same
    rw [← context]
    exact (agree e member' g inEs (comparable.trans (comparable_of_identity same).symm)).symm ▸ rfl
  exact (agreesWith_of_identity tableOf).mpr agrees

theorem TableOf.nil : TableOf scope [] [] :=
  ⟨.nil, fun _ => Iff.rfl, fun _ none => (List.not_mem_nil none).elim⟩

/-- A table with one more function. -/
theorem TableOf.first (tableOf : TableOf scope es funcs) (fresh : ∀ f ∈ funcs, identity scope f ≠ identity scope new) :
    TableOf scope (es ++ [new]) (funcs ++ [new]) := by
  have notBefore : ∀ e ∈ es, identity scope e ≠ identity scope new := by
    intro e member same
    obtain ⟨f, member', same'⟩ := List.mem_map.mp ((tableOf.mem _).mpr (List.mem_map_of_mem member))
    exact fresh f member' (same'.trans same)
  refine ⟨?_, ?_, ?_⟩
  · rw [List.map_append, List.map_singleton, ← List.concat_eq_append, List.nodup_concat]
    refine ⟨fun isIn => ?_, tableOf.nodup⟩
    obtain ⟨f, member, same⟩ := List.mem_map.mp isIn
    exact fresh f member same
  · intro i
    rw [List.map_append, List.map_append, List.mem_append, List.mem_append, tableOf.mem]
  · intro f member n
    rcases List.mem_append.mp member with old | isNew
    · rw [tableOf.defs f old]
      constructor
      · rintro ⟨e, isIn, same, def_⟩
        exact ⟨e, List.mem_append_left _ isIn, same, def_⟩
      · rintro ⟨e, isIn, same, def_⟩
        rcases List.mem_append.mp isIn with old' | isNew
        · exact ⟨e, old', same, def_⟩
        · rw [List.mem_singleton.mp isNew] at same
          exact absurd same.symm (fresh f old)
    · rw [List.mem_singleton.mp isNew]
      constructor
      · intro def_
        exact ⟨new, List.mem_append_right _ (List.mem_singleton_self _), rfl, def_⟩
      · rintro ⟨e, isIn, same, def_⟩
        rcases List.mem_append.mp isIn with old' | isNew
        · exact absurd same (notBefore e old')
        · rwa [List.mem_singleton.mp isNew] at def_

theorem TableOf.mem_again (tableOf : TableOf scope es funcs) (known : identity scope new ∈ funcs.map (identity scope))
    (i : FunctionIdentity Ty) : i ∈ funcs.map (identity scope) ↔ i ∈ (es ++ [new]).map (identity scope) := by
  rw [tableOf.mem, List.map_append, List.mem_append, List.map_singleton, List.mem_singleton]
  constructor
  · exact Or.inl
  · rintro (old | rfl)
    · exact old
    · exact (tableOf.mem _).mp known

/-- A declaration without a body that is there already. -/
theorem TableOf.again (tableOf : TableOf scope es funcs) (member : f ∈ funcs)
    (same : identity scope f = identity scope new) (noBody : new.defNode = none) : TableOf scope (es ++ [new]) funcs := by
  refine ⟨tableOf.nodup, tableOf.mem_again (same ▸ List.mem_map_of_mem member), ?_⟩
  intro g inFuncs n
  rw [tableOf.defs g inFuncs]
  constructor
  · rintro ⟨e, isIn, same', def_⟩
    exact ⟨e, List.mem_append_left _ isIn, same', def_⟩
  · rintro ⟨e, isIn, same', def_⟩
    rcases List.mem_append.mp isIn with old | isNew
    · exact ⟨e, old, same', def_⟩
    · rw [List.mem_singleton.mp isNew, noBody] at def_
      cases def_

/-- A body for a function that was only declared. -/
theorem TableOf.defines {pre post : List (DeclaredFunction Ty)} (tableOf : TableOf scope es (pre ++ f :: post))
    (same : identity scope f = identity scope new) (noBody : f.defNode = none) :
    TableOf scope (es ++ [new]) (pre ++ { f with defNode := new.defNode } :: post) := by
  have sameMap : (pre ++ { f with defNode := new.defNode } :: post).map (identity scope)
      = (pre ++ f :: post).map (identity scope) := by
    rw [List.map_append, List.map_append, List.map_cons, List.map_cons]
    rfl
  have known : identity scope new ∈ (pre ++ f :: post).map (identity scope) :=
    same ▸ List.mem_map_of_mem (List.mem_append_right _ (List.mem_cons_self ..))
  have others : ∀ g ∈ pre ++ post, identity scope g ≠ identity scope f := by
    intro g member same'
    have nodup := tableOf.nodup
    rw [List.map_append, List.map_cons, List.nodup_middle, List.nodup_cons, ← List.map_append] at nodup
    exact nodup.1 (same' ▸ List.mem_map_of_mem member)
  refine ⟨sameMap ▸ tableOf.nodup, sameMap ▸ tableOf.mem_again known, ?_⟩
  intro g member n
  by_cases isDefined : g ∈ pre ++ post
  · have old : g ∈ pre ++ f :: post := by
      rcases List.mem_append.mp isDefined with before | behind
      · exact List.mem_append_left _ before
      · exact List.mem_append_right _ (List.mem_cons_of_mem _ behind)
    rw [tableOf.defs g old]
    constructor
    · rintro ⟨e, isIn, same', def_⟩
      exact ⟨e, List.mem_append_left _ isIn, same', def_⟩
    · rintro ⟨e, isIn, same', def_⟩
      rcases List.mem_append.mp isIn with old' | isNew
      · exact ⟨e, old', same', def_⟩
      · rw [List.mem_singleton.mp isNew, ← same] at same'
        exact absurd same'.symm (others g isDefined)
  · have isF : g = { f with defNode := new.defNode } := by
      rcases List.mem_append.mp member with before | behind
      · exact absurd (List.mem_append_left _ before) isDefined
      · rcases List.mem_cons.mp behind with here | behind
        · exact here
        · exact absurd (List.mem_append_right _ behind) isDefined
    rw [isF]
    constructor
    · intro def_
      exact ⟨new, List.mem_append_right _ (List.mem_singleton_self _), same.symm, def_⟩
    · rintro ⟨e, isIn, same', def_⟩
      rcases List.mem_append.mp isIn with old | isNew
      · have already := (tableOf.defs f (List.mem_append_right _ (List.mem_cons_self ..)) n).mpr ⟨e, old, same', def_⟩
        rw [noBody] at already
        cases already
      · rwa [List.mem_singleton.mp isNew] at def_

theorem TableOf.mem_bodies (tableOf : TableOf scope es funcs) (member : f ∈ funcs) :
    identity scope f ∈ bodies scope es ↔ f.defNode.isSome = true := by
  rw [Decls.mem_bodies]
  constructor
  · rintro ⟨e, isIn, body, same⟩
    obtain ⟨n, def_⟩ := Option.isSome_iff_exists.mp body
    rw [(tableOf.defs f member n).mpr ⟨e, isIn, same, def_⟩]
    rfl
  · intro body
    obtain ⟨n, def_⟩ := Option.isSome_iff_exists.mp body
    obtain ⟨e, isIn, same, def_'⟩ := (tableOf.defs f member n).mp def_
    exact ⟨e, isIn, def_' ▸ rfl, same⟩

theorem nodup_bodies_append : (bodies scope (es ++ [new])).Nodup ↔
    (bodies scope es).Nodup ∧ (new.defNode.isSome = true → identity scope new ∉ bodies scope es) := by
  rw [bodies_append]
  by_cases body : new.defNode.isSome = true
  · rw [if_pos body, ← List.concat_eq_append, List.nodup_concat]
    exact ⟨fun ⟨fresh, nodup⟩ => ⟨nodup, fun _ => fresh⟩, fun ⟨nodup, fresh⟩ => ⟨fresh body, nodup⟩⟩
  · rw [if_neg body, List.append_nil]
    exact ⟨fun nodup => ⟨nodup, fun body' => absurd body' body⟩, And.left⟩

/-- Adding a function goes well exactly when the declarations stay admissible, and leaves their table. -/
theorem TableOf.add (tableOf : TableOf scope es funcs) (node : AstNode) (new : DeclaredFunction Ty) (admissible : Admissible scope es) :
    (∃ funcs', addFunction scope node new funcs = .ok funcs' ∧ Admissible scope (es ++ [new]) ∧
      TableOf scope (es ++ [new]) funcs') ∨
    (∃ diag, addFunction scope node new funcs = .error diag ∧ ¬Admissible scope (es ++ [new]) ∧
      (diag.code = .DUPLICATE_DEFINITION → ¬(bodies scope (es ++ [new])).Nodup)) := by
  have outcome := addFunction_outcome node new (tableOf.agree admissible.agree)
  have admits (agrees : AgreesWith scope new funcs)
      (fresh : new.defNode.isSome = true → identity scope new ∉ bodies scope es) : Admissible scope (es ++ [new]) :=
    ⟨agree_append admissible.agree ((agreesWith_of_identity tableOf).mp agrees),
      nodup_bodies_append.mpr ⟨admissible.bodies, fresh⟩⟩
  generalize addFunction scope node new funcs = result at outcome
  cases outcome with
  | mismatch differ =>
    refine Or.inr ⟨_, rfl, fun all => differ ?_, fun code => nomatch code⟩
    refine (agreesWith_of_identity tableOf).mpr fun f member comparable => ?_
    exact (all.agree new (List.mem_append_right _ (List.mem_singleton_self _)) f (List.mem_append_left _ member) comparable)
  | first agrees fresh =>
    refine Or.inl ⟨_, rfl, admits agrees fun _ isBody => ?_, tableOf.first fresh⟩
    obtain ⟨e, member, _, same⟩ := Decls.mem_bodies.mp isBody
    obtain ⟨f, inFuncs, same'⟩ := List.mem_map.mp ((tableOf.mem _).mpr (List.mem_map_of_mem member))
    exact fresh f inFuncs (same'.trans same)
  | again agrees member same noBody =>
    refine Or.inl ⟨_, rfl, admits agrees fun body => ?_, tableOf.again member same noBody⟩
    rw [noBody] at body
    cases body
  | @defines pre post f agrees split same body noBody =>
    rw [split] at tableOf
    refine Or.inl ⟨_, rfl, admits agrees fun _ isBody => ?_, tableOf.defines same noBody⟩
    rw [← same, tableOf.mem_bodies (List.mem_append_right _ (List.mem_cons_self ..)), noBody] at isBody
    cases isBody
  | @duplicate f agrees member same body body' =>
    have twice : ¬(bodies scope (es ++ [new])).Nodup := fun nodup =>
      (nodup_bodies_append.mp nodup).2 body (same ▸ (tableOf.mem_bodies member).mpr body')
    exact Or.inr ⟨_, rfl, fun all => twice all.bodies, fun _ => twice⟩

/-! ### Runs -/

/-- What the function nodes are read as, as far as they can be. -/
def entries (scope : SignatureScope Ty) (ds : List FnDecl) : List (DeclaredFunction Ty) :=
  ds.filterMap fun d => (readFunction scope d).toOption

/-- The functions can be read, one by one. -/
def Readable (scope : SignatureScope Ty) (ds : List FnDecl) : Prop := ∀ d ∈ ds, ∃ e, readFunction scope d = .ok e

def collectFunctions (scope : SignatureScope Ty) (ds : List FnDecl) (funcs : List (DeclaredFunction Ty)) :
    Except CollectDiag (List (DeclaredFunction Ty)) :=
  ds.foldlM (collectFunction scope) funcs

theorem entries_cons {d : FnDecl} {e : DeclaredFunction Ty} (ds : List FnDecl) (read : readFunction scope d = .ok e) :
    entries scope (d :: ds) = e :: entries scope ds :=
  List.filterMap_cons_some (congrArg Except.toOption read)

theorem mem_entries {ds : List FnDecl} {e : DeclaredFunction Ty} :
    e ∈ entries scope ds ↔ ∃ d ∈ ds, readFunction scope d = .ok e := by
  rw [entries, List.mem_filterMap]
  refine exists_congr fun d => and_congr_right fun _ => ?_
  cases readFunction scope d with
  | error diag => constructor <;> (intro same; cases same)
  | ok f =>
    constructor
    · exact fun same => congrArg Except.ok (Option.some.inj same)
    · exact fun same => congrArg some (Except.ok.inj same)

theorem nodup_bodies_left {es' : List (DeclaredFunction Ty)} (nodup : (bodies scope (es ++ es')).Nodup) :
    (bodies scope es).Nodup := by
  rw [bodies, List.filter_append, List.map_append] at nodup
  exact nodup.of_append_left

theorem Admissible.left {es' : List (DeclaredFunction Ty)} (admissible : Admissible scope (es ++ es')) :
    Admissible scope es := by
  refine ⟨fun f member g member' => ?_, nodup_bodies_left admissible.bodies⟩
  exact admissible.agree f (List.mem_append_left _ member) g (List.mem_append_left _ member')

/-- Only errors that are not about the table. -/
structure Common {α : Type} (x : Except CollectDiag α) : Prop where
  code : ∀ diag, x = .error diag → diag.code ≠ .DUPLICATE_DEFINITION

theorem Common.ok {α : Type} (a : α) : Common (.ok a : Except CollectDiag α) := ⟨fun _ same => nomatch same⟩

theorem Common.refuse {α : Type} {code : CollectCode} (start stop : Nat) (other : code ≠ .DUPLICATE_DEFINITION) :
    Common (refuse code start stop : Except CollectDiag α) :=
  ⟨fun _ same => Except.error.inj same ▸ other⟩

theorem Common.bind {α β : Type} {x : Except CollectDiag α} {f : α → Except CollectDiag β} (first : Common x)
    (later : ∀ a, Common (f a)) : Common (x >>= f) := by
  cases x with
  | error diag => exact ⟨fun diag' same => first.code diag' (congrArg Except.error (Except.error.inj same))⟩
  | ok a => exact later a

theorem Common.ite {α : Type} {p : Prop} [Decidable p] {x y : Except CollectDiag α} (first : Common x)
    (second : Common y) : Common (if p then x else y) := by
  by_cases holds : p
  · rwa [if_pos holds]
  · rwa [if_neg holds]

theorem common_refuseAt {α : Type} (n : AstNode) (code : DiagCode) :
    Common (refuseAt n code : Except CollectDiag α) :=
  .refuse _ _ fun same => nomatch same

theorem common_resolve (declNode : Nat) (anytype constNumeric : Bool) (n : AstNode) (kids : NodeList) :
    Common (resolve scope declNode anytype constNumeric n kids) := by
  rw [resolve]
  split
  · exact .ok _
  · exact .refuse _ _ fun same => nomatch same

theorem common_readParamType (declNode : Nat) (n : AstNode) (kids : NodeList) :
    Common (readParamType scope declNode n kids) := by
  cases kids with
  | nil => exact .refuse _ _ fun same => nomatch same
  | cons id typeNode below rest =>
    refine (common_resolve ..).bind fun type => .ite (.refuse _ _ fun same => nomatch same) ?_
    exact .ite (common_refuseAt ..) (.ite (.ok _) (.ok _))

theorem common_readSigParts (declNode : Nat) (kids : NodeList) (sig : FunctionSig Ty) :
    Common (readSigParts scope declNode kids sig) := by
  induction kids generalizing sig with
  | nil => exact .ok sig
  | cons id n below rest _ ih =>
    rw [readSigParts.eq_def]
    refine .ite (.ite (.refuse _ _ fun same => nomatch same) (.ite (common_refuseAt ..) ?_)) (.ite ?_ (.ite ?_ ?_))
    · exact (common_readParamType ..).bind fun type => ih _
    · refine .ite (common_refuseAt ..) ((common_resolve ..).bind fun returnType => ?_)
      exact .ite (common_refuseAt ..) (ih _)
    · refine .ite (common_refuseAt ..) ?_
      cases below with
      | nil => exact common_refuseAt ..
      | cons typeId typeNode typeKids others => exact (common_resolve ..).bind fun contextType => ih _
    · exact .ite (ih _) (ih _)

/-- What is wrong with a function alone is never a second definition. -/
theorem common_readFunction (d : FnDecl) : Common (readFunction scope d) := by
  refine (common_readSigParts ..).bind fun sig => Common.bind ?_ fun _ => .ok _
  refine .ite (common_refuseAt ..) (.ite ?_ (.ite ?_ (.ok _)))
  · exact .refuse _ _ fun same => nomatch same
  · exact .refuse _ _ fun same => nomatch same

/-- A run from a table of admissible declarations. -/
theorem TableOf.collectFunctions (tableOf : TableOf scope es funcs) (admissible : Admissible scope es) (ds : List FnDecl) :
    (∃ funcs', Decls.collectFunctions scope ds funcs = .ok funcs' ∧ Readable scope ds ∧
      Admissible scope (es ++ entries scope ds) ∧ TableOf scope (es ++ entries scope ds) funcs') ∨
    (∃ diag, Decls.collectFunctions scope ds funcs = .error diag ∧
      ¬(Readable scope ds ∧ Admissible scope (es ++ entries scope ds)) ∧
      (diag.code = .DUPLICATE_DEFINITION → ¬(bodies scope (es ++ entries scope ds)).Nodup)) := by
  induction ds generalizing es funcs with
  | nil =>
    refine Or.inl ⟨funcs, rfl, fun _ none => (List.not_mem_nil none).elim, ?_, ?_⟩
    · rwa [entries, List.filterMap_nil, List.append_nil]
    · rwa [entries, List.filterMap_nil, List.append_nil]
  | cons d ds ih =>
    rw [Decls.collectFunctions, List.foldlM_cons, collectFunction]
    cases read : readFunction scope d with
    | error diag =>
      refine Or.inr ⟨diag, rfl, fun all => ?_, fun code => absurd code ((common_readFunction d).code diag read)⟩
      obtain ⟨e, read'⟩ := all.1 d (List.mem_cons_self ..)
      rw [read] at read'
      cases read'
    | ok new =>
      have split : es ++ entries scope (d :: ds) = es ++ [new] ++ entries scope ds := by
        rw [entries_cons ds read, List.append_assoc, List.singleton_append]
      rw [split]
      have readable : Readable scope (d :: ds) ↔ Readable scope ds := by
        rw [Readable, List.forall_mem_cons]
        exact and_iff_right ⟨new, read⟩
      rw [readable]
      rcases tableOf.add d.node new admissible with ⟨next, added, admissible', tableOf'⟩ | ⟨diag, added, not_, twice⟩
      · rcases ih tableOf' admissible' with ⟨funcs', ran, rest⟩ | ⟨diag, ran, rest⟩
        · exact Or.inl ⟨funcs', (congrArg (· >>= _) added).trans ran, rest⟩
        · exact Or.inr ⟨diag, (congrArg (· >>= _) added).trans ran, rest⟩
      · refine Or.inr ⟨diag, congrArg (· >>= _) added, fun all => not_ all.2.left, fun code nodup => ?_⟩
        exact twice code (nodup_bodies_left nodup)

end

end HopHop.Decls
