import HopHop.CTypeRef

namespace HopHop.CBackend

open Delimited

/-! ### The texts of names and keys -/

theorem bytesOf_injective_digits {a b : List Char} (digitsA : ∀ c ∈ a, c.isDigit = true)
    (digitsB : ∀ c ∈ b, c.isDigit = true)
    (same : a.map (fun c => UInt8.ofNat c.toNat) = b.map fun c => UInt8.ofNat c.toNat) : a = b := by
  have back : ∀ text : List Char, (∀ c ∈ text, c.isDigit = true) →
      (text.map fun c => UInt8.ofNat c.toNat).map (fun byte => Char.ofNat byte.toNat) = text := by
    intro text digits
    rw [List.map_map]
    refine (List.map_congr_left ?_).trans (List.map_id text)
    intro c member
    have digit := digits c member
    simp only [Char.isDigit, Bool.and_eq_true, decide_eq_true_eq, ge_iff_le, UInt32.le_iff_toNat_le] at digit
    have upper : c.toNat ≤ 57 := digit.2
    have small : (UInt8.ofNat c.toNat).toNat = c.toNat := by
      rw [UInt8.toNat_ofNat']
      omega
    simp only [Function.comp, small, Char.ofNat_toNat, id]
  rw [← back a digitsA, ← back b digitsB, same]

theorem decimal_injective : Function.Injective decimal := by
  intro m n same
  have texts := congrArg CIdent.text same
  simp only [decimal, bytesOf, Nat.toString_eq_repr, Nat.toList_repr] at texts
  have digits := bytesOf_injective_digits
    (fun c member => Nat.isDigit_of_mem_toDigits (by decide) (by decide) member)
    (fun c member => Nat.isDigit_of_mem_toDigits (by decide) (by decide) member) texts
  rw [← Nat.ofDigitChars_ten_toDigits (n := m), digits, Nat.ofDigitChars_ten_toDigits]

theorem CIdent.not_mem (a : CIdent) (stop : UInt8) (other : isIdentPart stop = false) : stop ∉ a.text := by
  intro member
  have part := List.all_eq_true.mp a.ident stop member
  rw [other] at part
  cases part

theorem text_ended {stop : UInt8} (other : isIdentPart stop = false) :
    SelfDelimiting (fun _ : CIdent => True) fun a => a.text ++ [stop] :=
  SelfDelimiting.ended (fun a _ => a.not_mem stop other) fun _ _ _ _ same => CIdent.ext_text same

theorem number_ended {stop : UInt8} (other : isIdentPart stop = false) :
    SelfDelimiting (fun _ : Nat => True) fun n => (decimal n).text ++ [stop] :=
  (text_ended other).through decimal_injective

theorem ContainerKind.number_injective : Function.Injective ContainerKind.number := by
  intro a b same
  cases a <;> cases b <;> first | rfl | cases same

/-- The parts of a type reference in the order in which its key has them. -/
def TypeRef.parts (t : TypeRef) : CIdent × Nat × Nat × Nat × Nat × Nat × Nat × Nat :=
  (t.baseName, t.ptrDepth, t.containerKind.number, t.containerPtrDepth, t.hasArrayLen.toNat, t.arrayLen,
    t.readOnly.toNat, t.isOptional.toNat)

theorem TypeRef.parts_injective : Function.Injective TypeRef.parts := by
  intro a b same
  simp only [parts, Prod.mk.injEq] at same
  obtain ⟨base, ptr, kind, containerPtr, hasLen, len, readOnly, optional⟩ := same
  have toNat : ∀ x y : Bool, x.toNat = y.toNat → x = y := by decide
  cases a
  cases b
  simp only [mk.injEq]
  exact ⟨base, ptr, ContainerKind.number_injective kind, containerPtr, len, toNat _ _ hasLen, toNat _ _ readOnly,
    toNat _ _ optional⟩

theorem appendTypeRefKey_reads : SelfDelimiting (fun _ : TypeRef => True) appendTypeRefKey := by
  have bar : isIdentPart 0x7C = false := by decide
  have bracket : isIdentPart 0x5D = false := by decide
  have word := text_ended bar
  have number := number_ended bar
  have last := number_ended bracket
  have flags := number.pair (number.pair (number.pair last))
  have all := ((word.pair (number.pair (number.pair (number.pair flags)))).through TypeRef.parts_injective).after
    (bytesOf "T[")
  intro a b _ _ x y same
  refine all a b ⟨trivial, trivial, trivial, trivial, trivial, trivial, trivial, trivial⟩
    ⟨trivial, trivial, trivial, trivial, trivial, trivial, trivial, trivial⟩ x y ?_
  have barText : bytesOf "|" = [0x7C] := by decide
  have bracketText : bytesOf "]" = [0x5D] := by decide
  delta appendTypeRefKey at same
  simpa only [TypeRef.parts, barText, bracketText, List.append_assoc] using same

theorem anonFieldKey_reads : SelfDelimiting (fun _ : CIdent × TypeRef => True) anonFieldKey := by
  have colon : isIdentPart 0x3A = false := by decide
  have all := ((text_ended colon).pair appendTypeRefKey_reads).before (bytesOf ";")
  intro a b _ _ x y same
  have colonText : bytesOf ":" = [0x3A] := by decide
  refine all a b ⟨trivial, trivial⟩ ⟨trivial, trivial⟩ x y ?_
  simpa only [anonFieldKey, colonText] using same

theorem anonFieldKey_head (field : CIdent × TypeRef) : ∃ c rest, anonFieldKey field = c :: rest ∧ c ≠ 0x7D := by
  have brace := field.1.not_mem 0x7D (by decide)
  have colonText : bytesOf ":" = [0x3A] := by decide
  simp only [anonFieldKey, colonText]
  cases text : field.1.text with
  | nil => exact ⟨0x3A, appendTypeRefKey field.2 ++ bytesOf ";", by simp only [List.nil_append, List.cons_append], by decide⟩
  | cons c rest =>
    refine ⟨c, rest ++ [0x3A] ++ appendTypeRefKey field.2 ++ bytesOf ";", by simp only [List.cons_append], ?_⟩
    rintro rfl
    rw [text] at brace
    exact brace List.mem_cons_self

/-- The key of an anonymous type tells all its fields. -/
theorem anonTypeKey_injective {isUnion other : Bool} {fields others : List (CIdent × TypeRef)}
    (same : anonTypeKey isUnion fields = anonTypeKey other others) : isUnion = other ∧ fields = others := by
  have head : ∀ (u : Bool) (fs : List (CIdent × TypeRef)), (anonTypeKey u fs).head? = some (if u then 0x55 else 0x53) := by
    intro u fs
    cases u <;> rfl
  have unions : isUnion = other := by
    have heads := congrArg List.head? same
    rw [head, head] at heads
    cases isUnion <;> cases other <;> first | rfl | exact absurd heads (by decide)
  subst unions
  refine ⟨rfl, ?_⟩
  have braceText : bytesOf "\x7d" = [0x7D] := by decide
  simp only [anonTypeKey, List.append_assoc, braceText] at same
  exact (anonFieldKey_reads.list fun f _ => anonFieldKey_head f).injective (fun _ _ => trivial) (fun _ _ => trivial)
    (List.append_cancel_left same)

/-! ### Generated names -/

section Generated

variable {packageName : CIdent} {isUnion other : Bool} {k j : Nat}

theorem CIdent.append_cancel_left {a b c : CIdent} (same : a ++ b = a ++ c) : b = c :=
  CIdent.ext_text (List.append_cancel_left (congrArg CIdent.text same))

theorem CIdent.append_assoc (a b c : CIdent) : a ++ b ++ c = a ++ (b ++ c) :=
  CIdent.ext_text (List.append_assoc a.text b.text c.text)

theorem fnTypeAliasName_injective (same : fnTypeAliasName packageName k = fnTypeAliasName packageName j) : k = j :=
  decimal_injective (CIdent.append_cancel_left same)

theorem anonTypeName_injective (same : anonTypeName packageName isUnion k = anonTypeName packageName other j) :
    k = j := by
  simp only [anonTypeName, CIdent.append_assoc] at same
  have tail := CIdent.append_cancel_left (CIdent.append_cancel_left (CIdent.append_cancel_left same))
  cases isUnion <;> cases other
  · exact decimal_injective (CIdent.append_cancel_left (CIdent.append_cancel_left tail))
  · exact absurd (congrArg (List.head? ·.text) tail) (by simp [CIdent.text_append, CIdent.lit, bytesOf])
  · exact absurd (congrArg (List.head? ·.text) tail) (by simp [CIdent.text_append, CIdent.lit, bytesOf])
  · exact decimal_injective (CIdent.append_cancel_left (CIdent.append_cancel_left tail))

/-- The beginnings of the names that the backend makes up for types. -/
def isGeneratedTypeName (name : CIdent) : Bool :=
  (bytesOf "__hop_fn_t_").isPrefixOf name.text || (bytesOf "__hop_anon_").isPrefixOf name.text

theorem isGeneratedTypeName_fn (packageName : CIdent) (k : Nat) :
    isGeneratedTypeName (fnTypeAliasName packageName k) = true := by
  have starts : (bytesOf "__hop_fn_t_").isPrefixOf (fnTypeAliasName packageName k).text = true := by
    simp only [fnTypeAliasName, CIdent.append_assoc, CIdent.text_append, CIdent.lit, List.isPrefixOf_iff_prefix,
      List.prefix_append]
  rw [isGeneratedTypeName, starts, Bool.true_or]

theorem isGeneratedTypeName_anon (packageName : CIdent) (isUnion : Bool) (k : Nat) :
    isGeneratedTypeName (anonTypeName packageName isUnion k) = true := by
  have starts : (bytesOf "__hop_anon_").isPrefixOf (anonTypeName packageName isUnion k).text = true := by
    simp only [anonTypeName, CIdent.append_assoc, CIdent.text_append, CIdent.lit, List.isPrefixOf_iff_prefix,
      List.prefix_append]
  rw [isGeneratedTypeName, starts, Bool.or_true]

theorem fnTypeAliasName_ne_anonTypeName : fnTypeAliasName packageName k ≠ anonTypeName packageName isUnion j := by
  intro same
  have letter := congrArg (fun name : CIdent => name.text[6]?) same
  simp only [fnTypeAliasName, anonTypeName, CIdent.append_assoc, CIdent.text_append, CIdent.lit] at letter
  rw [List.getElem?_append_left (by decide), List.getElem?_append_left (by decide)] at letter
  exact absurd letter (by decide)

theorem CName.not_generated (name : CName) : isGeneratedTypeName name.toCIdent = false := by
  have unreserved := name.unreserved
  cases generated : isGeneratedTypeName name.toCIdent with
  | false => rfl
  | true =>
    have starts : ∀ longer : List UInt8, (bytesOf "__hop_").isPrefixOf longer = true →
        longer.isPrefixOf name.text = true → False := by
      intro longer first second
      rw [List.isPrefixOf_iff_prefix] at first second
      have reserved : isReservedHOPPrefixName name.text = true := by
        rw [isReservedHOPPrefixName, List.isPrefixOf_iff_prefix]
        exact first.trans second
      rw [unreserved] at reserved
      cases reserved
    rw [isGeneratedTypeName, Bool.or_eq_true] at generated
    rcases generated with fn | anon
    · exact absurd fn fun isPrefix => starts _ (by decide) isPrefix
    · exact absurd anon fun isPrefix => starts _ (by decide) isPrefix

theorem normalize_not_generated (name : CName) :
    isGeneratedTypeName (normalizeCoreRuntimeTypeName name.toCIdent) = false := by
  simp only [normalizeCoreRuntimeTypeName]
  split_ifs
  · decide
  · decide
  · decide
  · decide
  · decide
  · exact name.not_generated

theorem leafTypeRef_not_generated {δ : Type} {names : Names δ} {l : Leaf δ} {r : TypeRef}
    (found : leafTypeRef names l = some r) : isGeneratedTypeName r.baseName = false := by
  cases l with
  | declared d =>
    obtain ⟨name, -, rfl⟩ := Option.map_eq_some_iff.mp found
    exact normalize_not_generated name
  | builtin b =>
    cases found
    cases b <;> decide
  | constBuiltin k =>
    obtain ⟨name, atName, rfl⟩ := Option.map_eq_some_iff.mp found
    cases k <;> cases atName <;> decide
  | UNTYPED_INT =>
    cases found
    decide
  | UNTYPED_FLOAT =>
    cases found
    decide

end Generated

/-! ### Growing tables -/

/-- Tables with more function types and anonymous types behind those of `s`. -/
structure Tables.Extends (s t : Tables) : Prop where
  fns : s.fnTypeAliases <+: t.fnTypeAliases
  anons : s.anonTypes <+: t.anonTypes
  aliases : s.typeAliases = t.typeAliases

theorem Tables.Extends.refl (s : Tables) : s.Extends s := ⟨List.prefix_refl _, List.prefix_refl _, rfl⟩

theorem Tables.Extends.trans {s t u : Tables} (first : s.Extends t) (second : t.Extends u) : s.Extends u :=
  ⟨first.fns.trans second.fns, first.anons.trans second.anons, first.aliases.trans second.aliases⟩

theorem Tables.Extends.antisymm {s t : Tables} (there : s.Extends t) (back : t.Extends s) : s = t := by
  have fns := there.fns.eq_of_length_le back.fns.length_le
  have anons := there.anons.eq_of_length_le back.anons.length_le
  cases s
  cases t
  cases fns
  cases anons
  cases there.aliases
  rfl

/-- The entries have the names of their places, and the keys of their fields. -/
structure Tables.Named (packageName : CIdent) (s : Tables) : Prop where
  fns : ∀ (k : Nat) (info : FnTypeAlias),
    s.fnTypeAliases[k]? = some info → info.aliasName = fnTypeAliasName packageName k
  anons : ∀ (k : Nat) (info : AnonTypeInfo), s.anonTypes[k]? = some info →
    info.cName = anonTypeName packageName info.isUnion k ∧ info.key = anonTypeKey info.isUnion info.fields

theorem Tables.Named.empty (packageName : CIdent) : Tables.empty.Named packageName := by
  constructor <;> intro k info atK <;> simp only [Tables.empty, List.getElem?_nil, reduceCtorEq] at atK

theorem getElem?_append_new {α : Type} {l : List α} {new a : α} {k : Nat} (atK : (l ++ [new])[k]? = some a) :
    l[k]? = some a ∨ k = l.length ∧ a = new := by
  by_cases below : k < l.length
  · rw [List.getElem?_append_left below] at atK
    exact .inl atK
  · rw [List.getElem?_append_right (by omega)] at atK
    have bound := (List.getElem?_eq_some_iff.mp atK).1
    rw [List.length_singleton] at bound
    have last : k = l.length := by omega
    subst last
    rw [Nat.sub_self, List.getElem?_cons_zero, Option.some.injEq] at atK
    exact .inr ⟨rfl, atK.symm⟩

theorem equal_lists {as bs : List TypeRef} :
    (as.length = bs.length ∧ (as.zipWith TypeRef.equal bs).all id = true) ↔ as = bs := by
  induction as generalizing bs with
  | nil => cases bs <;> simp
  | cons a as ih =>
    cases bs with
    | nil => simp
    | cons b bs =>
      simp only [List.length_cons, Nat.add_right_cancel_iff, List.zipWith_cons_cons, List.all_cons, id,
        Bool.and_eq_true, TypeRef.equal_iff, List.cons.injEq, ← ih]
      tauto

section Ensure

variable {packageName : CIdent} {returnType : TypeRef} {paramTypes : List TypeRef} {isVariadic isUnion : Bool}
  {fields : List (CIdent × TypeRef)} {s t : Tables}

theorem sameFnType_iff {alias_ : FnTypeAlias} :
    (alias_.returnType.equal returnType && decide (alias_.paramTypes.length = paramTypes.length) &&
      decide (alias_.isVariadic = isVariadic) && (alias_.paramTypes.zipWith TypeRef.equal paramTypes).all id) = true ↔
      alias_ = ⟨alias_.aliasName, returnType, paramTypes, isVariadic⟩ := by
  cases alias_
  simp only [Bool.and_eq_true, decide_eq_true_eq, TypeRef.equal_iff, FnTypeAlias.mk.injEq, true_and, ← equal_lists]
  tauto

/-- The name of a function type is the name of an entry with its parts, and is found again in all later tables. -/
theorem ensureFnTypeAlias_spec (named : s.Named packageName) :
    let made := ensureFnTypeAlias packageName returnType paramTypes isVariadic s
    made.2.Named packageName ∧ s.Extends made.2 ∧
      (∃ k : Nat, made.2.fnTypeAliases[k]? = some ⟨made.1, returnType, paramTypes, isVariadic⟩) ∧
      ∀ t, made.2.Extends t → ensureFnTypeAlias packageName returnType paramTypes isVariadic t = (made.1, t) := by
  simp only [ensureFnTypeAlias]
  split
  · rename_i entry found
    have holds := List.find?_some found
    have parts := sameFnType_iff.mp holds
    obtain ⟨k, atK⟩ := List.mem_iff_getElem?.mp (List.mem_of_find?_eq_some found)
    refine ⟨named, .refl s, ⟨k, by rw [atK, ← parts]⟩, ?_⟩
    intro t extends_
    obtain ⟨more, tail⟩ := extends_.fns
    rw [← tail, List.find?_append, found]
    rfl
  · rename_i missing
    set new : FnTypeAlias :=
      ⟨fnTypeAliasName packageName s.fnTypeAliases.length, returnType, paramTypes, isVariadic⟩ with isNew
    have found : (s.fnTypeAliases ++ [new]).find? (fun alias_ => alias_.returnType.equal returnType &&
        decide (alias_.paramTypes.length = paramTypes.length) && decide (alias_.isVariadic = isVariadic) &&
        (alias_.paramTypes.zipWith TypeRef.equal paramTypes).all id) = some new := by
      rw [List.find?_append, missing, Option.none_or, List.find?_singleton, if_pos (sameFnType_iff.mpr rfl)]
    refine ⟨⟨?_, named.anons⟩, ⟨List.prefix_append _ _, List.prefix_refl _, rfl⟩, ⟨s.fnTypeAliases.length, ?_⟩, ?_⟩
    · intro k info atK
      rcases getElem?_append_new atK with old | ⟨last, isLast⟩
      · exact named.fns k info old
      · rw [isLast, last]
    · rw [List.getElem?_concat_length]
    · intro t extends_
      obtain ⟨more, tail⟩ := extends_.fns
      rw [← tail, List.find?_append, found]
      rfl

theorem ensureAnonTypeByFields_spec (named : s.Named packageName) :
    let made := ensureAnonTypeByFields packageName isUnion fields s
    made.2.Named packageName ∧ s.Extends made.2 ∧
      (∃ k : Nat, made.2.anonTypes[k]? = some ⟨anonTypeKey isUnion fields, made.1, isUnion, fields⟩) ∧
      ∀ t, made.2.Extends t → ensureAnonTypeByFields packageName isUnion fields t = (made.1, t) := by
  simp only [ensureAnonTypeByFields]
  split
  · rename_i entry found
    have holds := List.find?_some found
    have sameKey := of_decide_eq_true holds
    obtain ⟨k, atK⟩ := List.mem_iff_getElem?.mp (List.mem_of_find?_eq_some found)
    have parts := anonTypeKey_injective ((named.anons k entry atK).2.symm.trans sameKey)
    refine ⟨named, .refl s, ⟨k, ?_⟩, ?_⟩
    · rw [atK, ← parts.1, ← parts.2, ← (named.anons k entry atK).2]
    · intro t extends_
      obtain ⟨more, tail⟩ := extends_.anons
      rw [← tail, List.find?_append, found]
      rfl
  · rename_i missing
    set new : AnonTypeInfo :=
      ⟨anonTypeKey isUnion fields, anonTypeName packageName isUnion s.anonTypes.length, isUnion, fields⟩ with isNew
    have found : (s.anonTypes ++ [new]).find? (fun info => decide (info.key = anonTypeKey isUnion fields)) =
        some new := by
      rw [List.find?_append, missing, Option.none_or, List.find?_singleton, if_pos (decide_eq_true rfl)]
    refine ⟨⟨named.fns, ?_⟩, ⟨List.prefix_refl _, List.prefix_append _ _, rfl⟩, ⟨s.anonTypes.length, ?_⟩, ?_⟩
    · intro k info atK
      rcases getElem?_append_new atK with old | ⟨last, isLast⟩
      · exact named.anons k info old
      · rw [isLast, last]
        exact ⟨rfl, rfl⟩
    · rw [List.getElem?_concat_length]
    · intro t extends_
      obtain ⟨more, tail⟩ := extends_.anons
      rw [← tail, List.find?_append, found]
      rfl

end Ensure

end HopHop.CBackend
