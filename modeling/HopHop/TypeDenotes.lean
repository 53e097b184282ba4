import HopHop.TypeInvariant
import HopHop.TypeTerm

namespace HopHop

/-- What a name comes to on its own. -/
inductive NameTarget
  | type (id : TypeId)
  | generic (root : TypeId)
  | constant

/-- The order in which names are looked up. An instance goes back to its declaration. -/
def TypeScope.target (scope : TypeScope) (c : TypeTable) (name : List UInt8) : NameTarget :=
  if name = bytesOf "anytype" then .type c.typeAnytype
  else
    match scope.findBuiltinType c name with
    | some id => .type (some id)
    | none =>
      match scope.resolveTypeNamePath c name with
      | some named =>
        match TypeReader.rootOf c (some named) with
        | none => .type (some named)
        | some (root, templateArgCount) => if templateArgCount = 0 then .type root else .generic root
      | none =>
        match scope.resolveActiveTypeParamType c name with
        | some id => .type (some id)
        | none =>
          match scope.findBuiltinQualifiedNamedType c name with
          | some id => .type (some id)
          | none => .constant

/-- A structural type is its constructor with the components. -/
theorem TypeShape.eq_of_head_parts {α : Type} {s s' : TypeShape α} (heads : s.head = s'.head)
    (parts : s.parts = s'.parts) : s = s' := by
  have pairs : ∀ {β : Type} {ps ps' : List (α × β)}, ps.map (fun p => ((), p.2)) = ps'.map (fun p => ((), p.2)) →
      ps.map Prod.fst = ps'.map Prod.fst → ps = ps' := by
    intro β ps ps' seconds firsts
    induction ps generalizing ps' with
    | nil => cases ps' <;> simp_all
    | cons p ps ih =>
      cases ps' with
      | nil => simp at firsts
      | cons p' ps' =>
        simp only [List.map_cons, List.cons.injEq, Prod.mk.injEq, true_and] at seconds firsts
        rw [ih seconds.2 firsts.2, Prod.ext firsts.1 seconds.1]
  have fields : ∀ {β : Type} {ps ps' : List (β × α)}, ps.map (fun p => (p.1, ())) = ps'.map (fun p => (p.1, ())) →
      ps.map Prod.snd = ps'.map Prod.snd → ps = ps' := by
    intro β ps ps' firsts seconds
    induction ps generalizing ps' with
    | nil => cases ps' <;> simp_all
    | cons p ps ih =>
      cases ps' with
      | nil => simp at firsts
      | cons p' ps' =>
        simp only [List.map_cons, List.cons.injEq, Prod.mk.injEq, and_true] at seconds firsts
        rw [ih firsts.2 seconds.2, Prod.ext firsts.1 seconds.1]
  cases s <;> cases s' <;> simp only [TypeShape.head, TypeShape.map, reduceCtorEq] at heads
  all_goals simp only [TypeShape.parts, List.cons.injEq, and_true] at parts
  case ptr.ptr | optional.optional => rw [parts]
  case ref.ref | array.array | slice.slice =>
    injection heads with _ second
    rw [parts, second]
  case tuple.tuple | pack.pack => rw [parts]
  case function.function =>
    injection heads with _ others last
    rw [parts.1, pairs others parts.2, last]
  case anonStruct.anonStruct | anonUnion.anonUnion =>
    injection heads with same
    rw [fields same parts]

namespace TypeTable

/-- `id` is the instance of a generic declaration with these arguments. -/
def InstanceOf (c : TypeTable) (root : TypeId) (args : List TypeId) (id : TypeId) : Prop :=
  ∃ nt ∈ c.namedTypes, id = some nt.typeId ∧ 0 ≤ nt.templateRootNamedIndex ∧
    (∃ rootNt, c.namedTypes[nt.templateRootNamedIndex.toNatClampNeg]? = some rootNt ∧ root = some rootNt.typeId) ∧
    c.templateArgs nt = args

/-- The type that stands under a pointer or a reference to `base`. -/
def WithRights (c : TypeTable) (isPtr : Bool) (base id : TypeId) : Prop :=
  match c.shape base with
  | some (.slice elem _) => c.shape id = some (.slice elem isPtr)
  | _ => id = base

section

variable (scope : TypeScope) (values : TypeValues) (c : TypeTable)

/-- What the root of a written type makes of the types of its parts. -/
def LabelMeans : TypeLabel → List TypeId → TypeId → Prop
  | .name name, ids, id =>
    match scope.target c name with
    | .type target => ids = [] ∧ id = target
    | .generic root => ids ≠ [] ∧ c.InstanceOf root ids id
    | .constant => ids = [] ∧ id = values.constantType name
  | .made head, ids, id => ∃ s, c.shape id = some s ∧ s.head = head ∧ s.parts = ids
  | .pointee isPtr, ids, id => ∃ base, ids = [base] ∧ c.WithRights isPtr base id
  | .variadic, ids, id =>
    ∃ base, ids = [base] ∧ if base = c.typeAnytype then id = base else c.shape id = some (.slice base false)
  | .noResult, ids, id => ids = [] ∧ id = c.typeVoid

mutual

/-- `id` is the type that is written: the constructor of the root over the types that the parts denote on their own,
in order. -/
def Denotes : TypeTerm → TypeId → Prop
  | .node label parts, id => c.Holds id ∧ ∃ ids, DenoteAll parts ids ∧ LabelMeans scope values c label ids id

def DenoteAll : List TypeTerm → List TypeId → Prop
  | [], ids => ids = []
  | t :: ts, ids => ∃ id rest, ids = id :: rest ∧ Denotes t id ∧ DenoteAll ts rest

end

mutual

/-- The types are written alike: one constructor with the same attributes over parts that are alike. A name may stand
for any type; two names stand for one declaration, with arguments that are alike. -/
def Alike : TypeTerm → TypeTerm → Prop
  | .node (.made head) parts, .node (.made head') parts' => head = head' ∧ AlikeAll parts parts'
  | .node (.name name) args, .node (.name name') args' =>
    match scope.target c name, scope.target c name' with
    | .type target, .type target' => target = target'
    | .generic root, .generic root' => root = root' ∧ AlikeAll args args'
    | _, _ => True
  | _, _ => True

def AlikeAll : List TypeTerm → List TypeTerm → Prop
  | [], ts => ts = []
  | t :: ts, ts' => ∃ t' rest, ts' = t' :: rest ∧ Alike t t' ∧ AlikeAll ts rest

end

end

variable {scope : TypeScope} {values : TypeValues} {c c' : TypeTable} {working : List Nat}

theorem Holds.entry {id : TypeId} (holds : c.Holds id) : ∃ t, c.entry id = some t := by
  obtain ⟨n, below, rfl⟩ := holds
  exact ⟨c.types[n], List.getElem?_eq_getElem below⟩

theorem Grows.shape (grows : Grows c c') (good : GoodTypes c) {id : TypeId} (holds : c.Holds id) :
    c'.shape id = c.shape id := by
  obtain ⟨t, atId⟩ := holds.entry
  obtain ⟨t', atId', keeps⟩ := grows.entry atId
  obtain ⟨n, -, atN⟩ := Option.bind_eq_some_iff.mp atId
  rw [shape_eq atId, shape_eq atId', grows.shapeOf (good.closed t (List.mem_of_getElem? atN)).inRange keeps]

theorem Holds.of_shape {id : TypeId} {s : TypeShape TypeId} (isShape : c.shape id = some s) : c.Holds id := by
  obtain ⟨t, atId, -⟩ := Option.bind_eq_some_iff.mp isShape
  exact holds_of_entry atId

/-- No two entries stand for one structural type. -/
theorem GoodTypes.shape_inj (good : GoodTypes c) {id id' : TypeId} {s : TypeShape TypeId} (shape : c.shape id = some s)
    (shape' : c.shape id' = some s) : id = id' := by
  have atKey : ∀ {id : TypeId}, c.shape id = some s → ∃ n, id = some n ∧ c.shapes[n]? = some (some s) := by
    intro id isShape
    obtain ⟨t, atId, ofT⟩ := Option.bind_eq_some_iff.mp isShape
    obtain ⟨n, rfl, atN⟩ := Option.bind_eq_some_iff.mp atId
    exact ⟨n, rfl, by simp only [shapes, List.getElem?_map, atN, Option.map_some, ofT]⟩
  obtain ⟨n, rfl, key⟩ := atKey shape
  obtain ⟨n', rfl, key'⟩ := atKey shape'
  rw [good.distinct n n' s key key']

theorem Grows.instanceOf (grows : Grows c c') (good : Good working c) {root : TypeId} {args : List TypeId}
    {id : TypeId} (isInstance : c.InstanceOf root args id) : c'.InstanceOf root args id := by
  obtain ⟨nt, member, rfl, index, ⟨rootNt, atRoot, isRoot⟩, sameArgs⟩ := isInstance
  obtain ⟨more, named, -⟩ := grows.named
  refine ⟨nt, by rw [named]; exact List.mem_append_left _ member, rfl, index, ⟨rootNt, ?_, isRoot⟩, ?_⟩
  · rw [named, List.getElem?_append_left (List.getElem?_eq_some_iff.mp atRoot).1, atRoot]
  · rw [← sameArgs]
    exact take_drop_prefix grows.args (good.names.argRange nt member)

theorem Good.instanceOf_unique (good : Good working c) {root : TypeId} {args : List TypeId} {id id' : TypeId}
    (one : c.InstanceOf root args id) (two : c.InstanceOf root args id') : id = id' := by
  obtain ⟨nt, member, rfl, index, ⟨rootNt, atRoot, rfl⟩, rfl⟩ := one
  obtain ⟨nt', member', rfl, index', ⟨rootNt', atRoot', isRoot⟩, sameArgs⟩ := two
  have sameRoot := good.named_inj atRoot atRoot' (Option.some.inj isRoot)
  obtain ⟨i, atI⟩ := List.getElem?_of_mem member
  obtain ⟨j, atJ⟩ := List.getElem?_of_mem member'
  have roots : nt.templateRootNamedIndex.toInt = nt'.templateRootNamedIndex.toInt := by
    rw [Int16.le_iff_toInt_le, Int16.toInt_zero] at index index'
    have := Int16.toNat_toInt nt.templateRootNamedIndex
    have := Int16.toNat_toInt nt'.templateRootNamedIndex
    omega
  have key : c.instanceKeys[i]? = some (some (nt.templateRootNamedIndex.toInt, c.templateArgs nt)) := by
    simp only [instanceKeys, List.getElem?_map, atI, Option.map_some, instanceKey, index, if_true]
  have key' : c.instanceKeys[j]? = some (some (nt.templateRootNamedIndex.toInt, c.templateArgs nt)) := by
    simp only [instanceKeys, List.getElem?_map, atJ, Option.map_some, instanceKey, index', if_true, roots, sameArgs]
  have same := good.names.instances i j _ key key'
  rw [same, atJ] at atI
  cases atI
  rfl

/-- One type is an instance of one declaration with one list of arguments. -/
theorem Good.instanceOf_inj (good : Good working c) {root root' : TypeId} {args args' : List TypeId} {id : TypeId}
    (one : c.InstanceOf root args id) (two : c.InstanceOf root' args' id) : root = root' ∧ args = args' := by
  obtain ⟨nt, member, rfl, -, ⟨rootNt, atRoot, rfl⟩, rfl⟩ := one
  obtain ⟨nt', member', isId, -, ⟨rootNt', atRoot', rfl⟩, rfl⟩ := two
  obtain ⟨i, atI⟩ := List.getElem?_of_mem member
  obtain ⟨j, atJ⟩ := List.getElem?_of_mem member'
  have same := good.named_inj atI atJ (Option.some.inj isId)
  rw [same, atJ] at atI
  cases atI
  rw [atRoot] at atRoot'
  cases atRoot'
  exact ⟨rfl, rfl⟩

theorem LabelMeans.unique (good : Good working c) {label : TypeLabel} {ids : List TypeId} {id id' : TypeId}
    (one : LabelMeans scope values c label ids id) (two : LabelMeans scope values c label ids id') : id = id' := by
  cases label with
  | name name =>
    simp only [LabelMeans] at one two
    cases target : scope.target c name with
    | type id =>
      rw [target] at one two
      exact one.2.trans two.2.symm
    | generic root =>
      rw [target] at one two
      exact good.instanceOf_unique one.2 two.2
    | constant =>
      rw [target] at one two
      exact one.2.trans two.2.symm
  | made head =>
    obtain ⟨s, shape, isHead, parts⟩ := one
    obtain ⟨s', shape', isHead', parts'⟩ := two
    have same : s' = s := TypeShape.eq_of_head_parts (isHead'.trans isHead.symm) (parts'.trans parts.symm)
    exact good.types.shape_inj shape (same ▸ shape')
  | pointee isPtr =>
    obtain ⟨base, rfl, rights⟩ := one
    obtain ⟨base', isBase, rights'⟩ := two
    cases isBase
    simp only [WithRights] at rights rights'
    split at rights
    · rename_i elem mutable isSlice
      rw [isSlice] at rights'
      exact good.types.shape_inj rights rights'
    · rename_i other
      split at rights'
      · rename_i elem mutable isSlice
        exact absurd isSlice (other elem mutable)
      · exact rights.trans rights'.symm
  | variadic =>
    obtain ⟨base, rfl, slice⟩ := one
    obtain ⟨base', isBase, slice'⟩ := two
    cases isBase
    split at slice
    · rw [slice]
      split at slice'
      · exact slice'.symm
      · contradiction
    · split at slice'
      · contradiction
      · exact good.types.shape_inj slice slice'
  | noResult => exact one.2.trans two.2.symm

mutual

/-- A written type denotes one type at most. -/
theorem Denotes.unique (good : Good working c) : ∀ (t : TypeTerm) {id id' : TypeId}, Denotes scope values c t id →
    Denotes scope values c t id' → id = id'
  | .node _ parts, _, _, ⟨_, ids, all, means⟩, ⟨_, ids', all', means'⟩ => by
    have same : ids = ids' := DenoteAll.unique good parts all all'
    exact (same ▸ means).unique good means'

theorem DenoteAll.unique (good : Good working c) : ∀ (ts : List TypeTerm) {ids ids' : List TypeId},
    DenoteAll scope values c ts ids → DenoteAll scope values c ts ids' → ids = ids'
  | [], _, _, one, two => one.trans two.symm
  | t :: ts, _, _, ⟨id, rest, isIds, here, others⟩, ⟨id', rest', isIds', here', others'⟩ => by
    rw [isIds, isIds', Denotes.unique good t here here', DenoteAll.unique good ts others others']

end

theorem LabelMeans.grows (good : Good working c) (grows : Grows c c') (same : scope.target c' = scope.target c)
    {label : TypeLabel} {ids : List TypeId} {id : TypeId} (holds : c.Holds id) (parts : ∀ p ∈ ids, c.Holds p)
    (means : LabelMeans scope values c label ids id) : LabelMeans scope values c' label ids id := by
  cases label with
  | name name =>
    simp only [LabelMeans, same] at means ⊢
    split at means
    · exact means
    · exact ⟨means.1, grows.instanceOf good means.2⟩
    · exact means
  | made head =>
    obtain ⟨s, shape, spec⟩ := means
    exact ⟨s, (grows.shape good.types holds).trans shape, spec⟩
  | pointee isPtr =>
    obtain ⟨base, rfl, rights⟩ := means
    refine ⟨base, rfl, ?_⟩
    simp only [WithRights, grows.shape good.types (parts base List.mem_cons_self),
      grows.shape good.types holds] at rights ⊢
    exact rights
  | variadic =>
    obtain ⟨base, rfl, slice⟩ := means
    refine ⟨base, rfl, ?_⟩
    rw [grows.typeAnytype, grows.shape good.types holds]
    exact slice
  | noResult => exact ⟨means.1, means.2.trans grows.typeVoid.symm⟩

theorem Denotes.holds {t : TypeTerm} {id : TypeId} (denotes : Denotes scope values c t id) : c.Holds id := by
  obtain ⟨label, parts⟩ := t
  exact denotes.1

theorem DenoteAll.holds : ∀ {ts : List TypeTerm} {ids : List TypeId}, DenoteAll scope values c ts ids →
    ∀ id ∈ ids, c.Holds id
  | [], _, all => by
    rw [show _ = [] from all]
    intro id member
    cases member
  | _ :: _, _, ⟨first, rest, isIds, here, others⟩ => by
    rw [isIds]
    intro id member
    rcases List.mem_cons.mp member with rfl | later
    · exact here.holds
    · exact DenoteAll.holds others id later

theorem DenoteAll.length : ∀ {ts : List TypeTerm} {ids : List TypeId}, DenoteAll scope values c ts ids →
    ids.length = ts.length
  | [], _, all => congrArg List.length (show _ = [] from all)
  | _ :: _, _, ⟨_, _, isIds, _, others⟩ => by
    rw [isIds, List.length_cons, List.length_cons, DenoteAll.length others]

mutual

/-- What a written type denotes stays as the table grows. -/
theorem Denotes.grows (good : Good working c) (grows : Grows c c') (same : scope.target c' = scope.target c) :
    ∀ (t : TypeTerm) {id : TypeId}, Denotes scope values c t id → Denotes scope values c' t id
  | .node _ parts, _, ⟨holds, ids, all, means⟩ =>
    ⟨grows.holds holds, ids, DenoteAll.grows good grows same parts all, means.grows good grows same holds all.holds⟩

theorem DenoteAll.grows (good : Good working c) (grows : Grows c c') (same : scope.target c' = scope.target c) :
    ∀ (ts : List TypeTerm) {ids : List TypeId}, DenoteAll scope values c ts ids → DenoteAll scope values c' ts ids
  | [], _, all => all
  | t :: ts, _, ⟨id, rest, isIds, here, others⟩ =>
    ⟨id, rest, isIds, Denotes.grows good grows same t here, DenoteAll.grows good grows same ts others⟩

end

mutual

/-- Types that are written differently, names apart, denote different types. -/
theorem Denotes.alike (good : Good working c) : ∀ (t : TypeTerm) {t' : TypeTerm} {id : TypeId},
    Denotes scope values c t id → Denotes scope values c t' id → Alike scope c t t'
  | .node label parts, .node label' parts', id, ⟨_, ids, all, means⟩, ⟨_, ids', all', means'⟩ => by
    cases label <;> cases label' <;> try exact trivial
    case made.made head head' =>
      obtain ⟨s, shape, rfl, rfl⟩ := means
      obtain ⟨s', shape', rfl, rfl⟩ := means'
      rw [shape] at shape'
      cases shape'
      exact ⟨rfl, DenoteAll.alike good parts all all'⟩
    case name.name name name' =>
      simp only [LabelMeans, Alike] at means means' ⊢
      cases target : scope.target c name with
      | constant => trivial
      | type id =>
        cases target' : scope.target c name' with
        | type id' =>
          rw [target] at means
          rw [target'] at means'
          exact means.2.symm.trans means'.2
        | generic root => trivial
        | constant => trivial
      | generic root =>
        cases target' : scope.target c name' with
        | type id' => trivial
        | generic root' =>
          rw [target] at means
          rw [target'] at means'
          obtain ⟨rfl, rfl⟩ := good.instanceOf_inj means.2 means'.2
          exact ⟨rfl, DenoteAll.alike good parts all all'⟩
        | constant => trivial

theorem DenoteAll.alike (good : Good working c) : ∀ (ts : List TypeTerm) {ts' : List TypeTerm} {ids : List TypeId},
    DenoteAll scope values c ts ids → DenoteAll scope values c ts' ids → AlikeAll scope c ts ts'
  | [], ts', ids, all, all' => by
    cases ts' with
    | nil => rfl
    | cons t' rest' =>
      obtain ⟨id, rest, isIds, -, -⟩ := all'
      rw [show ids = [] from all] at isIds
      cases isIds
  | t :: ts, ts', ids, ⟨id, rest, isIds, here, others⟩, all' => by
    subst isIds
    cases ts' with
    | nil => cases (show id :: rest = [] from all')
    | cons t' rest' =>
      obtain ⟨id', tail, isIds, here', others'⟩ := all'
      cases isIds
      exact ⟨t', rest', rfl, Denotes.alike good t here here', DenoteAll.alike good ts others others'⟩

end

end TypeTable

end HopHop
