import HopHop.Interning
import HopHop.TypeShape
import HopHop.TypeSubst
import Mathlib.Order.Nat

namespace HopHop.TypeTable

open Interning

/-- The id names an entry. -/
def Holds (c : TypeTable) (id : TypeId) : Prop := ∃ n < c.types.length, id = some n

/-- What may change in an entry: the function it belongs to, and an alias that is not resolved comes to be. -/
structure Keeps (t t' : TCType) : Prop where
  kind : t'.kind = t.kind
  declNode : t'.declNode = t.declNode
  arrayLen : t'.arrayLen = t.arrayLen
  fieldStart : t'.fieldStart = t.fieldStart
  fieldCount : t'.fieldCount = t.fieldCount
  mutable : t'.flags.mutable = t.flags.mutable
  variadic : t'.flags.functionVariadic = t.flags.functionVariadic
  base : (t.kind = .ALIAS → t.flags.aliasResolved = true) →
    t'.baseType = t.baseType ∧ t'.flags.aliasResolved = t.flags.aliasResolved
  unresolved : t'.flags.aliasResolved = false → t'.baseType = t.baseType

theorem Keeps.refl (t : TCType) : Keeps t t :=
  ⟨rfl, rfl, rfl, rfl, rfl, rfl, rfl, fun _ => ⟨rfl, rfl⟩, fun _ => rfl⟩

theorem Keeps.trans {t t' t'' : TCType} (first : Keeps t t') (second : Keeps t' t'') : Keeps t t'' where
  kind := second.kind.trans first.kind
  declNode := second.declNode.trans first.declNode
  arrayLen := second.arrayLen.trans first.arrayLen
  fieldStart := second.fieldStart.trans first.fieldStart
  fieldCount := second.fieldCount.trans first.fieldCount
  mutable := second.mutable.trans first.mutable
  variadic := second.variadic.trans first.variadic
  base := by
    intro resolved
    obtain ⟨base, flag⟩ := first.base resolved
    have resolved' : t'.kind = .ALIAS → t'.flags.aliasResolved = true := by
      intro isAlias
      rw [flag]
      exact resolved (first.kind ▸ isAlias)
    obtain ⟨base', flag'⟩ := second.base resolved'
    exact ⟨base'.trans base, flag'.trans flag⟩
  unresolved := by
    intro still
    have before : t'.flags.aliasResolved = false := by
      cases flag : t'.flags.aliasResolved with
      | false => rfl
      | true => rw [(second.base fun _ => flag).2, flag] at still; cases still
    exact (second.unresolved still).trans (first.unresolved before)

/-- A table that has grown: entries and instances are only added, and the old entries keep what they are. -/
structure Grows (c c' : TypeTable) : Prop where
  types : ∀ (i : Nat) (t : TCType), c.types[i]? = some t → ∃ t', c'.types[i]? = some t' ∧ Keeps t t'
  named : ∃ more, c'.namedTypes = c.namedTypes ++ more ∧
    ∀ nt ∈ more, c.types.length ≤ nt.typeId ∧ 0 ≤ nt.templateRootNamedIndex
  params : c.funcParams <+: c'.funcParams
  fields : c.fields <+: c'.fields
  args : c.genericArgTypes <+: c'.genericArgTypes
  src : c'.src = c.src
  typeCap : c'.typeCap = c.typeCap
  namedTypeCap : c'.namedTypeCap = c.namedTypeCap
  funcParamCap : c'.funcParamCap = c.funcParamCap
  genericArgCap : c'.genericArgCap = c.genericArgCap
  typeVoid : c'.typeVoid = c.typeVoid
  typeAnytype : c'.typeAnytype = c.typeAnytype

theorem Grows.entry {c c' : TypeTable} (grows : Grows c c') {id : TypeId} {t : TCType} (atId : c.entry id = some t) :
    ∃ t', c'.entry id = some t' ∧ Keeps t t' := by
  obtain ⟨n, rfl, atN⟩ := Option.bind_eq_some_iff.mp atId
  exact grows.types n t atN

section

variable {c c' : TypeTable}

theorem Grows.refl (c : TypeTable) : Grows c c where
  types := fun i t atI => ⟨t, atI, .refl t⟩
  named := ⟨[], by simp⟩
  params := List.prefix_refl _
  fields := List.prefix_refl _
  args := List.prefix_refl _
  src := rfl
  typeCap := rfl
  namedTypeCap := rfl
  funcParamCap := rfl
  genericArgCap := rfl
  typeVoid := rfl
  typeAnytype := rfl

theorem Grows.length_le (grows : Grows c c') : c.types.length ≤ c'.types.length := by
  by_contra shorter
  have inside : c'.types.length < c.types.length := by omega
  obtain ⟨t', atI, -⟩ := grows.types _ _ (List.getElem?_eq_getElem inside)
  have := (List.getElem?_eq_some_iff.mp atI).1
  omega

theorem Grows.trans {c'' : TypeTable} (first : Grows c c') (second : Grows c' c'') : Grows c c'' where
  types := by
    intro i t atI
    obtain ⟨t', atI', keeps⟩ := first.types i t atI
    obtain ⟨t'', atI'', keeps'⟩ := second.types i t' atI'
    exact ⟨t'', atI'', keeps.trans keeps'⟩
  named := by
    obtain ⟨more, same, fresh⟩ := first.named
    obtain ⟨more', same', fresh'⟩ := second.named
    refine ⟨more ++ more', by rw [same', same, List.append_assoc], ?_⟩
    intro nt member
    rcases List.mem_append.mp member with old | new
    · exact fresh nt old
    · exact ⟨first.length_le.trans (fresh' nt new).1, (fresh' nt new).2⟩
  params := first.params.trans second.params
  fields := first.fields.trans second.fields
  args := first.args.trans second.args
  src := second.src.trans first.src
  typeCap := second.typeCap.trans first.typeCap
  namedTypeCap := second.namedTypeCap.trans first.namedTypeCap
  funcParamCap := second.funcParamCap.trans first.funcParamCap
  genericArgCap := second.genericArgCap.trans first.genericArgCap
  typeVoid := second.typeVoid.trans first.typeVoid
  typeAnytype := second.typeAnytype.trans first.typeAnytype

theorem Grows.holds (grows : Grows c c') {id : TypeId} (holds : c.Holds id) : c'.Holds id := by
  obtain ⟨n, below, rfl⟩ := holds
  exact ⟨n, below.trans_le grows.length_le, rfl⟩

theorem holds_of_entry {id : TypeId} {t : TCType} (atId : c.entry id = some t) : c.Holds id := by
  obtain ⟨n, rfl, atN⟩ := Option.bind_eq_some_iff.mp atId
  exact ⟨n, (List.getElem?_eq_some_iff.mp atN).1, rfl⟩

theorem take_drop_prefix {α : Type} {l l' : List α} (pre : l <+: l') {start count : Nat}
    (inside : start + count ≤ l.length) : (l'.drop start).take count = (l.drop start).take count := by
  obtain ⟨more, rfl⟩ := pre
  rw [List.drop_append_of_le_length (by omega), List.take_append_of_le_length (by rw [List.length_drop]; omega)]

/-- The places in the parameter and field arrays that an entry refers to are filled, and a tuple has two at least. -/
structure InRange (c : TypeTable) (t : TCType) : Prop where
  params : t.kind = .FUNCTION ∨ t.kind = .TUPLE ∨ t.kind = .PACK → t.fieldStart + t.fieldCount ≤ c.funcParams.length
  fields : t.kind = .ANON_STRUCT ∨ t.kind = .ANON_UNION → t.fieldStart + t.fieldCount ≤ c.fields.length
  tuple : t.kind = .TUPLE → 2 ≤ t.fieldCount

theorem InRange.grows {t t' : TCType} (inRange : InRange c t) (grows : Grows c c') (keeps : Keeps t t') :
    InRange c' t' where
  params := by
    intro kind
    rw [keeps.kind] at kind
    rw [keeps.fieldStart, keeps.fieldCount]
    exact (inRange.params kind).trans grows.params.length_le
  fields := by
    intro kind
    rw [keeps.kind] at kind
    rw [keeps.fieldStart, keeps.fieldCount]
    exact (inRange.fields kind).trans grows.fields.length_le
  tuple := by
    intro kind
    rw [keeps.kind] at kind
    rw [keeps.fieldCount]
    exact inRange.tuple kind

theorem Grows.componentsOf (grows : Grows c c') {t t' : TCType} (inRange : InRange c t) (keeps : Keeps t t')
    (kind : t.kind = .FUNCTION ∨ t.kind = .TUPLE ∨ t.kind = .PACK) : c'.componentsOf t' = c.componentsOf t := by
  simp only [TypeTable.componentsOf, keeps.fieldStart, keeps.fieldCount]
  exact take_drop_prefix grows.params (inRange.params kind)

theorem Grows.fieldsOf (grows : Grows c c') {t t' : TCType} (inRange : InRange c t) (keeps : Keeps t t')
    (kind : t.kind = .ANON_STRUCT ∨ t.kind = .ANON_UNION) : c'.fieldsOf t' = c.fieldsOf t := by
  simp only [TypeTable.fieldsOf, keeps.fieldStart, keeps.fieldCount]
  exact take_drop_prefix grows.fields (inRange.fields kind)

theorem Grows.nameOf (grows : Grows c c') (start stop : Nat) : c'.nameOf start stop = c.nameOf start stop := by
  simp only [TypeTable.nameOf, grows.src]

/-- A structural type is what it was. -/
theorem Grows.shapeOf (grows : Grows c c') {t t' : TCType} (inRange : InRange c t) (keeps : Keeps t t') :
    c'.shapeOf t' = c.shapeOf t := by
  have base : t.kind ≠ .ALIAS → t'.baseType = t.baseType := fun notAlias =>
    (keeps.base fun isAlias => absurd isAlias notAlias).1
  cases kind : t.kind <;>
    simp only [TypeTable.shapeOf, keeps.kind, kind, keeps.arrayLen, keeps.mutable, keeps.variadic, grows.nameOf]
  case PTR | REF | OPTIONAL | ARRAY | SLICE => rw [base (by rw [kind]; decide)]
  case FUNCTION =>
    rw [base (by rw [kind]; decide), grows.componentsOf inRange keeps (.inl kind)]
  case TUPLE => rw [grows.componentsOf inRange keeps (.inr (.inl kind))]
  case PACK => rw [grows.componentsOf inRange keeps (.inr (.inr kind))]
  case ANON_STRUCT => rw [grows.fieldsOf inRange keeps (.inl kind)]
  case ANON_UNION => rw [grows.fieldsOf inRange keeps (.inr kind)]

/-- An entry whose parts are all there; only an alias that is not resolved yet has no base. -/
structure ClosedEntry (c : TypeTable) (t : TCType) : Prop where
  inRange : InRange c t
  parts : ∀ s, c.shapeOf t = some s → ∀ p ∈ s.parts, c.Holds p
  base : t.kind = .ALIAS → t.flags.aliasResolved = true → c.Holds t.baseType

theorem ClosedEntry.grows {t t' : TCType} (closed : ClosedEntry c t) (grows : Grows c c') (keeps : Keeps t t')
    (filled : t.kind = .ALIAS → t.flags.aliasResolved = false → t'.flags.aliasResolved = true → c'.Holds t'.baseType) :
    ClosedEntry c' t' where
  inRange := closed.inRange.grows grows keeps
  parts := by
    intro s isShape p member
    rw [grows.shapeOf closed.inRange keeps] at isShape
    exact grows.holds (closed.parts s isShape p member)
  base := by
    intro isAlias resolved'
    rw [keeps.kind] at isAlias
    by_cases resolved : t.flags.aliasResolved = true
    · rw [(keeps.base fun _ => resolved).1]
      exact grows.holds (closed.base isAlias resolved)
    · exact filled isAlias (Bool.eq_false_iff.mpr resolved) resolved'

/-- What a structural type is known by. -/
def shapes (c : TypeTable) : List (Option (TypeShape TypeId)) := c.types.map c.shapeOf

/-- What an instance is known by; a declaration is not an instance. -/
def instanceKey (c : TypeTable) (nt : NamedType) : Option (Int × List TypeId) :=
  if 0 ≤ nt.templateRootNamedIndex then some (nt.templateRootNamedIndex.toInt, c.templateArgs nt) else none

def instanceKeys (c : TypeTable) : List (Option (Int × List TypeId)) := c.namedTypes.map c.instanceKey

/-- The entries are closed and no two stand for one structural type. -/
structure GoodTypes (c : TypeTable) : Prop where
  closed : ∀ t ∈ c.types, ClosedEntry c t
  distinct : Distinct c.shapes

/-- The declarations and instances are in order; the bases of the aliases among the instances have been filled in,
those apart that are being worked on. -/
structure GoodNames (working : List Nat) (c : TypeTable) : Prop where
  entries : ∀ nt ∈ c.namedTypes, ∃ t, c.types[nt.typeId]? = some t ∧ (t.kind = .NAMED ∨ t.kind = .ALIAS)
  once : (c.namedTypes.map NamedType.typeId).Nodup
  args : ∀ arg ∈ c.genericArgTypes, c.Holds arg
  argRange : ∀ nt ∈ c.namedTypes, nt.templateArgStart + nt.templateArgCount ≤ c.genericArgTypes.length
  rooted : ∀ nt ∈ c.namedTypes, 0 ≤ nt.templateRootNamedIndex →
    ∃ root, c.namedTypes[nt.templateRootNamedIndex.toNatClampNeg]? = some root ∧ root.templateRootNamedIndex < 0 ∧
      root.templateArgCount = nt.templateArgCount ∧ 0 < nt.templateArgCount
  instances : Distinct c.instanceKeys
  resolved : ∀ nt ∈ c.namedTypes, 0 ≤ nt.templateRootNamedIndex → nt.typeId ∉ working →
    ∀ t, c.types[nt.typeId]? = some t → t.kind = .ALIAS → t.flags.aliasResolved = true

structure Good (working : List Nat) (c : TypeTable) : Prop where
  types : GoodTypes c
  names : GoodNames working c
  waiting : ∀ id ∈ working, ∃ t, c.types[id]? = some t ∧ t.flags.aliasResolved = false

theorem Grows.shapes (grows : Grows c c') (good : GoodTypes c) (same : c'.types.length = c.types.length) :
    c'.shapes = c.shapes := by
  apply List.ext_getElem?
  intro i
  simp only [TypeTable.shapes, List.getElem?_map]
  cases atI : c.types[i]? with
  | none =>
    have beyond : c'.types[i]? = none := by
      rw [List.getElem?_eq_none_iff] at atI ⊢
      omega
    rw [beyond, Option.map_none, Option.map_none]
  | some t =>
    obtain ⟨t', atI', keeps⟩ := grows.types i t atI
    rw [atI']
    have shape := grows.shapeOf (good.closed t (List.mem_of_getElem? atI)).inRange keeps
    simp only [Option.map_some, shape]

/-- Nothing but the base of an alias is filled in. -/
theorem GoodTypes.grows (good : GoodTypes c) (grows : Grows c c') (same : c'.types.length = c.types.length)
    (filled : ∀ t ∈ c'.types, t.kind = .ALIAS → t.flags.aliasResolved = true → c'.Holds t.baseType) :
    GoodTypes c' where
  closed := by
    intro t' member
    obtain ⟨i, atI'⟩ := List.getElem?_of_mem member
    have below : i < c.types.length := same ▸ (List.getElem?_eq_some_iff.mp atI').1
    obtain ⟨u, atU, keeps⟩ := grows.types i _ (List.getElem?_eq_getElem below)
    rw [atI'] at atU
    cases atU
    refine (good.closed _ (List.getElem_mem below)).grows grows keeps ?_
    intro isAlias _ resolved
    exact filled t' member (keeps.kind ▸ isAlias) resolved
  distinct := by
    rw [grows.shapes good same]
    exact good.distinct

theorem GoodNames.grows {working : List Nat} (good : GoodNames working c) (grows : Grows c c')
    (named : c'.namedTypes = c.namedTypes) (args : c'.genericArgTypes = c.genericArgTypes) :
    GoodNames working c' where
  entries := by
    intro nt member
    rw [named] at member
    obtain ⟨t, atNt, kind⟩ := good.entries nt member
    obtain ⟨t', atNt', keeps⟩ := grows.types _ _ atNt
    exact ⟨t', atNt', keeps.kind ▸ kind⟩
  once := named ▸ good.once
  args := by
    intro arg member
    exact grows.holds (good.args arg (args ▸ member))
  argRange := by
    intro nt member
    rw [args]
    exact good.argRange nt (named ▸ member)
  rooted := by
    rw [named]
    exact good.rooted
  instances := by
    have key : c'.instanceKey = c.instanceKey := by
      funext nt
      simp only [instanceKey, templateArgs, args]
    have keys : c'.instanceKeys = c.instanceKeys := by rw [instanceKeys, instanceKeys, named, key]
    rw [keys]
    exact good.instances
  resolved := by
    intro nt member isInstance idle t' atNt' isAlias
    rw [named] at member
    obtain ⟨t, atNt, -⟩ := good.entries nt member
    obtain ⟨u, atU, keeps⟩ := grows.types _ _ atNt
    rw [atNt'] at atU
    cases atU
    rw [keeps.kind] at isAlias
    have resolved := good.resolved nt member isInstance idle t atNt isAlias
    rw [(keeps.base fun _ => resolved).2, resolved]

/-- A step that leaves the entries and the declarations alone. -/
theorem Good.grows {working : List Nat} (good : Good working c) (grows : Grows c c') (types : c'.types = c.types)
    (named : c'.namedTypes = c.namedTypes) (args : c'.genericArgTypes = c.genericArgTypes) : Good working c' where
  types := by
    refine good.types.grows grows (by rw [types]) ?_
    intro t member isAlias resolved
    exact grows.holds ((good.types.closed t (types ▸ member)).base isAlias resolved)
  names := good.names.grows grows named args
  waiting := types ▸ good.waiting

/-- No two declarations or instances have one id. -/
theorem Good.named_inj {working : List Nat} (good : Good working c) {i j : Nat} {nt nt' : NamedType} (atI : c.namedTypes[i]? = some nt)
    (atJ : c.namedTypes[j]? = some nt') (same : nt.typeId = nt'.typeId) : i = j := by
  have keyI : (c.namedTypes.map NamedType.typeId)[i]? = some nt.typeId := by simp [atI]
  have keyJ : (c.namedTypes.map NamedType.typeId)[j]? = some nt.typeId := by simp [atJ, same]
  have below := (List.getElem?_eq_some_iff.mp keyI).1
  exact (List.getElem?_inj below good.names.once).mp (keyI.trans keyJ.symm)

theorem Grows.push (c : TypeTable) (t : TCType) : Grows c { c with types := c.types ++ [t] } :=
  { Grows.refl c with
    types := fun i u atI => ⟨u, by
      rw [List.getElem?_append_left (List.getElem?_eq_some_iff.mp atI).1]
      exact atI, .refl u⟩ }

/-- A new entry that is closed and whose structural type has no entry yet. -/
theorem Good.push {working : List Nat} (good : Good working c) {t : TCType} (closed : ClosedEntry c t)
    (fresh : ∀ s, c.shapeOf t = some s → some s ∉ c.shapes) : Good working { c with types := c.types ++ [t] } where
  types := by
    constructor
    · intro u member
      have still : ∀ {u : TCType}, ClosedEntry c u → ClosedEntry { c with types := c.types ++ [t] } u := by
        intro u closed
        refine closed.grows (.push c t) (.refl u) ?_
        intro _ open' resolved
        rw [open'] at resolved
        cases resolved
      rcases List.mem_append.mp member with old | new
      · exact still (good.types.closed u old)
      · rw [List.mem_singleton.mp new]
        exact still closed
    · have keys : TypeTable.shapes { c with types := c.types ++ [t] } = c.shapes ++ [c.shapeOf t] := by
        simp only [TypeTable.shapes, List.map_append, List.map_cons, List.map_nil]
        rfl
      rw [keys]
      exact good.types.distinct.append fresh
  names := good.names.grows (.push c t) rfl rfl
  waiting := by
    intro id member
    obtain ⟨u, atId, unresolved⟩ := good.waiting id member
    exact ⟨u, by rw [List.getElem?_append_left (List.getElem?_eq_some_iff.mp atId).1, atId], unresolved⟩

/-- What a step has taken of the room in the table. -/
structure Spent (c c' : TypeTable) (n : Nat) : Prop where
  types : c'.types.length ≤ c.types.length + n
  params : c'.funcParams.length ≤ c.funcParams.length + n
  named : c'.namedTypes.length ≤ c.namedTypes.length + n
  args : c'.genericArgTypes.length ≤ c.genericArgTypes.length + n

/-- The table has room for `n` more of everything that types are made of. -/
structure Room (c : TypeTable) (n : Nat) : Prop where
  types : c.types.length + n ≤ c.typeCap
  params : c.funcParams.length + n ≤ c.funcParamCap
  named : c.namedTypes.length + n ≤ c.namedTypeCap
  args : c.genericArgTypes.length + n ≤ c.genericArgCap

theorem Spent.refl (c : TypeTable) (n : Nat) : Spent c c n :=
  ⟨Nat.le_add_right _ _, Nat.le_add_right _ _, Nat.le_add_right _ _, Nat.le_add_right _ _⟩

theorem Spent.trans {c'' : TypeTable} {n m : Nat} (first : Spent c c' n) (second : Spent c' c'' m) :
    Spent c c'' (n + m) where
  types := by have := first.types; have := second.types; omega
  params := by have := first.params; have := second.params; omega
  named := by have := first.named; have := second.named; omega
  args := by have := first.args; have := second.args; omega

theorem Spent.mono {n m : Nat} (spent : Spent c c' n) (le : n ≤ m) : Spent c c' m where
  types := by have := spent.types; omega
  params := by have := spent.params; omega
  named := by have := spent.named; omega
  args := by have := spent.args; omega

theorem Room.mono {n m : Nat} (room : Room c m) (le : n ≤ m) : Room c n where
  types := by have := room.types; omega
  params := by have := room.params; omega
  named := by have := room.named; omega
  args := by have := room.args; omega

/-- The room that is left after a step. -/
theorem Room.after {n m : Nat} (room : Room c (n + m)) (spent : Spent c c' n) (grows : Grows c c') : Room c' m where
  types := by have := room.types; have := spent.types; have := grows.typeCap; omega
  params := by have := room.params; have := spent.params; have := grows.funcParamCap; omega
  named := by have := room.named; have := spent.named; have := grows.namedTypeCap; omega
  args := by have := room.args; have := spent.args; have := grows.genericArgCap; omega

/-- A step that makes a type: the table stays good and grows, within `n`; with room for as much the type is there. -/
structure Makes (working : List Nat) (c : TypeTable) (n : Nat) (made : TypeId × TypeTable) : Prop where
  good : Good working made.2
  grows : Grows c made.2
  spent : Spent c made.2 n
  holds : Room c n → made.2.Holds made.1

end

end HopHop.TypeTable
