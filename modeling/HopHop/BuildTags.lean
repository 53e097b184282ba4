import HopHop.Package

namespace HopHop

abbrev Byte.openBracket : UInt8 := 0x5B
abbrev Byte.closeBracket : UInt8 := 0x5D
abbrev Byte.exclamation : UInt8 := 0x21
abbrev Byte.comma : UInt8 := 0x2C

/-! ### The functions -/

/-- What a loader compares build tags with. -/
structure BuildTarget where
  platformTarget : Option (List UInt8)
  archTarget : Option (List UInt8)
  testingBuild : Bool

/-- An error text around the path that it shows. -/
structure PathError where
  before : String
  path : List UInt8
  behind : String
  deriving DecidableEq, Repr

def invalidBuildTag (filePath : List UInt8) (what : String) : PathError :=
  ⟨"invalid filename build tag in ", filePath, ": " ++ what⟩

def isBuildTagChar (c : UInt8) : Bool := isIdentPart c || c = Byte.minus || c = Byte.dot

def buildTagSliceIsActive (loader : BuildTarget) (tag : List UInt8) : Bool :=
  if tag = [] then false
  else if loader.archTarget = some tag then true
  else if loader.platformTarget = some tag then true
  else loader.testingBuild && tag = bytesOf "testing"

section Match

variable (loader : BuildTarget) (filePath : List UInt8)

/-- The loop over the stem: the place of its opening bracket, if there is one. -/
def findOpenIndex (stemLen : Nat) : List UInt8 → Nat → Option Nat → Except PathError (Option Nat)
  | [], _, openIndex => .ok openIndex
  | c :: rest, i, openIndex =>
    if c = Byte.openBracket then
      if openIndex.isSome then .error (invalidBuildTag filePath "nested '['")
      else findOpenIndex stemLen rest (i + 1) (some i)
    else if c = Byte.closeBracket then
      if openIndex.isNone then .error (invalidBuildTag filePath "unexpected ']'")
      else if i ≠ stemLen - 1 then .error (invalidBuildTag filePath "tag suffix must precede .hop")
      else findOpenIndex stemLen rest (i + 1) openIndex
    else findOpenIndex stemLen rest (i + 1) openIndex

/-- The loop over the characters of a tag. -/
def checkTagChars : List UInt8 → Except PathError Unit
  | [] => .ok ()
  | c :: rest =>
    if c = Byte.openBracket ∨ c = Byte.closeBracket then .error (invalidBuildTag filePath "nested bracket")
    else if !isBuildTagChar c then .error (invalidBuildTag filePath "invalid tag character")
    else checkTagChars rest

/-- The loop over the tags, on what is left of their list; `outMatch` is what the tags before it amount to. -/
def matchTags (rest : List UInt8) (outMatch : Bool) : Except PathError Bool :=
  match rest with
  | [] => .ok outMatch
  | c :: more =>
    let negated : Bool := c = Byte.exclamation
    let atomStart := if negated then more else c :: more
    if negated ∧ atomStart.head? = some Byte.exclamation then .error (invalidBuildTag filePath "duplicate '!'")
    else
      let tag := atomStart.takeWhile (· ≠ Byte.comma)
      if tag = [] then .error (invalidBuildTag filePath "empty tag")
      else
        match checkTagChars filePath tag with
        | .error e => .error e
        | .ok () =>
          let active := buildTagSliceIsActive loader tag
          let outMatch := if (active && negated) || (!active && !negated) then false else outMatch
          let behind := atomStart.dropWhile (· ≠ Byte.comma)
          if behind = [] then .ok outMatch
          else if behind.tail = [] then .error (invalidBuildTag filePath "empty tag")
          else matchTags behind.tail outMatch
termination_by rest.length
decreasing_by
  rename_i some_left _
  have shorter := (List.dropWhile_suffix (l := atomStart) fun x => decide (x ≠ Byte.comma)).length_le
  have start : atomStart.length ≤ more.length + 1 := by
    show (if negated = true then more else c :: more).length ≤ more.length + 1
    split
    · exact Nat.le_succ _
    · exact Nat.le_refl _
  have left : 0 < behind.length := List.length_pos_of_ne_nil some_left
  have after : behind.tail.length = behind.length - 1 := List.length_tail
  rw [after, List.length_cons]
  exact Nat.lt_of_lt_of_le (Nat.sub_lt left Nat.one_pos) (Nat.le_trans shorter start)

def filenameBuildTagsMatch : Except PathError Bool :=
  let base := afterSlash filePath
  if ¬(bytesOf ".hop" <:+ base) then .error (invalidBuildTag filePath "expected .hop file")
  else
    let stem := base.take (base.length - 4)
    match findOpenIndex filePath stem.length stem 0 none with
    | .error e => .error e
    | .ok none => .ok true
    | .ok (some openIndex) =>
      if stem.getLast? ≠ some Byte.closeBracket then .error (invalidBuildTag filePath "missing closing ']'")
      else
        let tags := (stem.take (stem.length - 1)).drop (openIndex + 1)
        if tags = [] then .error (invalidBuildTag filePath "empty tag list") else matchTags loader filePath tags true

end Match

/-- What the filter leaves behind: the paths of the caller's array, and how many of them count. -/
structure FilterRun where
  paths : List (Option (List UInt8))
  fileCount : Except PathError Nat

/-- The loop over the files. There is no result if it reads a path that is not there. -/
def filterLoop (loader : BuildTarget) : Nat → Nat → Nat → List (Option (List UInt8)) → Option FilterRun
  | 0, _, writeIndex, paths => some ⟨paths, .ok writeIndex⟩
  | left + 1, readIndex, writeIndex, paths =>
    match paths[readIndex]? with
    | some (some filePath) =>
      match filenameBuildTagsMatch loader filePath with
      | .error e => some ⟨paths, .error e⟩
      | .ok true =>
        let moved := paths.set writeIndex (some filePath)
        filterLoop loader left (readIndex + 1) (writeIndex + 1)
          (if writeIndex ≠ readIndex then moved.set readIndex none else moved)
      | .ok false => filterLoop loader left (readIndex + 1) writeIndex (paths.set readIndex none)
    | _ => none

def filterPackageFilesByBuildTags (loader : BuildTarget) (dirPath : List UInt8) (paths : List (Option (List UInt8))) :
    Option FilterRun :=
  match filterLoop loader paths.length 0 0 paths with
  | some ⟨paths, .ok 0⟩ => some ⟨paths, .error ⟨"no matching .hop files found in ", dirPath, ""⟩⟩
  | result => result

/-! ### The grammar -/

/-- A tag of a file name, with or without a negation. -/
structure BuildAtom where
  negated : Bool
  tag : List UInt8
  nonempty : tag ≠ []
  chars : ∀ c ∈ tag, isBuildTagChar c = true

namespace BuildAtom

def text (atom : BuildAtom) : List UInt8 := if atom.negated then Byte.exclamation :: atom.tag else atom.tag

/-- A plain tag is active, a negated one is not. -/
def Holds (loader : BuildTarget) (atom : BuildAtom) : Prop :=
  buildTagSliceIsActive loader atom.tag = !atom.negated

instance (loader : BuildTarget) (atom : BuildAtom) : Decidable (atom.Holds loader) := inferInstanceAs (Decidable (_ = _))

end BuildAtom

def tagListText : List BuildAtom → List UInt8
  | [] => []
  | [atom] => atom.text
  | atom :: next :: more => atom.text ++ Byte.comma :: tagListText (next :: more)

def NoBracket (text : List UInt8) : Prop := Byte.openBracket ∉ text ∧ Byte.closeBracket ∉ text

/-- A stem that ends in a list of tags between brackets. -/
def Tagged (stem : List UInt8) (atoms : List BuildAtom) : Prop :=
  atoms ≠ [] ∧ ∃ name, NoBracket name ∧ stem = name ++ Byte.openBracket :: (tagListText atoms ++ [Byte.closeBracket])

theorem isBuildTagChar_ne {c d : UInt8} (char : isBuildTagChar c = true) (other : isBuildTagChar d = false) : c ≠ d := by
  intro same
  rw [same, other] at char
  cases char

theorem checkTagChars_ok_iff (filePath tag : List UInt8) :
    checkTagChars filePath tag = .ok () ↔ ∀ c ∈ tag, isBuildTagChar c = true := by
  induction tag with
  | nil =>
    refine ⟨fun _ c member => ?_, fun _ => rfl⟩
    cases member
  | cons c rest ih =>
    rw [checkTagChars, List.forall_mem_cons, ← ih]
    by_cases char : isBuildTagChar c = true
    · have noBracket : ¬(c = Byte.openBracket ∨ c = Byte.closeBracket) :=
        not_or.mpr ⟨isBuildTagChar_ne char rfl, isBuildTagChar_ne char rfl⟩
      rw [if_neg noBracket, char]
      exact ⟨fun checked => ⟨rfl, checked⟩, And.right⟩
    · rw [eq_false_of_ne_true char]
      refine ⟨fun checked => ?_, fun both => nomatch both.1⟩
      split at checked
      · cases checked
      · cases checked

section Grammar

variable {loader : BuildTarget} {filePath : List UInt8}

/-- The text of a tag stops where the loop over the tags stops. -/
theorem BuildAtom.span (atom : BuildAtom) {behind : List UInt8} (stops : behind = [] ∨ ∃ after, behind = Byte.comma :: after) :
    (atom.tag ++ behind).takeWhile (· ≠ Byte.comma) = atom.tag ∧
      (atom.tag ++ behind).dropWhile (· ≠ Byte.comma) = behind := by
  have inside : ∀ c ∈ atom.tag, decide (c ≠ Byte.comma) = true := by
    intro c member
    exact decide_eq_true (isBuildTagChar_ne (atom.chars c member) rfl)
  rw [List.takeWhile_append_of_pos inside, List.dropWhile_append_of_pos inside]
  rcases stops with rfl | ⟨after, rfl⟩
  · exact ⟨List.append_nil _, rfl⟩
  · exact ⟨List.append_nil _, rfl⟩

theorem outMatch_eq (active negated outMatch : Bool) :
    (if (active && negated) || (!active && !negated) then false else outMatch) =
      (outMatch && decide (active = !negated)) := by
  cases active <;> cases negated <;> cases outMatch <;> rfl

/-- One round of the loop, at the text of a tag. -/
theorem matchTags_atom (atom : BuildAtom) (behind : List UInt8)
    (stops : behind = [] ∨ ∃ after, behind = Byte.comma :: after) (outMatch : Bool) :
    matchTags loader filePath (atom.text ++ behind) outMatch =
      if behind = [] then .ok (outMatch && decide (atom.Holds loader))
      else if behind.tail = [] then .error (invalidBuildTag filePath "empty tag")
      else matchTags loader filePath behind.tail (outMatch && decide (atom.Holds loader)) := by
  obtain ⟨taken, dropped⟩ := atom.span stops
  have checked := (checkTagChars_ok_iff filePath atom.tag).mpr atom.chars
  obtain ⟨c, rest, tag⟩ := List.exists_cons_of_ne_nil atom.nonempty
  have char : isBuildTagChar c = true := atom.chars c (tag ▸ List.mem_cons_self)
  have plain : c ≠ Byte.exclamation := isBuildTagChar_ne char rfl
  have first : (atom.tag ++ behind).head? = some c := by rw [tag]; rfl
  by_cases negated : atom.negated = true
  · rw [BuildAtom.text, if_pos negated, List.cons_append, matchTags]
    simp only [decide_true, if_true, first, Option.some.injEq, plain, and_false, if_false, taken, dropped, atom.nonempty,
      checked, outMatch_eq, BuildAtom.Holds, negated]
  · have cons : atom.tag ++ behind = c :: (rest ++ behind) := by rw [tag, List.cons_append]
    rw [BuildAtom.text, if_neg negated, cons, matchTags]
    simp only [plain, decide_false, Bool.false_eq_true, if_false, false_and, ← cons, taken, dropped, atom.nonempty,
      checked, outMatch_eq, BuildAtom.Holds, eq_false_of_ne_true negated]

/-- A list of tags that the loop reads starts with the text of a tag. -/
theorem atom_of_matchTags {c : UInt8} {more : List UInt8} {outMatch result : Bool}
    (returned : matchTags loader filePath (c :: more) outMatch = .ok result) :
    ∃ (atom : BuildAtom) (behind : List UInt8), (behind = [] ∨ ∃ after, behind = Byte.comma :: after) ∧
      c :: more = atom.text ++ behind := by
  have stops (text : List UInt8) : text.dropWhile (· ≠ Byte.comma) = [] ∨
      ∃ after, text.dropWhile (· ≠ Byte.comma) = Byte.comma :: after := by
    have first := List.head?_dropWhile_not (fun x => decide (x ≠ Byte.comma)) text
    cases behind : text.dropWhile (· ≠ Byte.comma) with
    | nil => exact Or.inl rfl
    | cons d after =>
      rw [behind] at first
      obtain rfl : d = Byte.comma := by simpa using first
      exact Or.inr ⟨after, rfl⟩
  have whole (text : List UInt8) : text.takeWhile (· ≠ Byte.comma) ++ text.dropWhile (· ≠ Byte.comma) = text :=
    List.takeWhile_append_dropWhile
  rw [matchTags] at returned
  by_cases negated : c = Byte.exclamation
  · simp only [negated, decide_true, if_true] at returned
    split at returned
    · cases returned
    · split at returned
      · cases returned
      · rename_i empty
        split at returned
        · cases returned
        · rename_i checked
          have chars := (checkTagChars_ok_iff filePath _).mp checked
          refine ⟨⟨true, more.takeWhile (· ≠ Byte.comma), empty, chars⟩, more.dropWhile (· ≠ Byte.comma), stops more, ?_⟩
          rw [BuildAtom.text, if_pos rfl, List.cons_append, whole, negated]
  · simp only [negated, decide_false, Bool.false_eq_true, if_false, false_and] at returned
    split at returned
    · cases returned
    · rename_i empty
      split at returned
      · cases returned
      · rename_i checked
        have chars := (checkTagChars_ok_iff filePath _).mp checked
        refine ⟨⟨false, (c :: more).takeWhile (· ≠ Byte.comma), empty, chars⟩, (c :: more).dropWhile (· ≠ Byte.comma),
          stops (c :: more), ?_⟩
        rw [BuildAtom.text, if_neg Bool.false_ne_true, whole]

theorem tagListText_ne_nil {atoms : List BuildAtom} (some_atom : atoms ≠ []) : tagListText atoms ≠ [] := by
  have text_ne (atom : BuildAtom) : atom.text ≠ [] := by
    rw [BuildAtom.text]
    split
    · exact List.cons_ne_nil _ _
    · exact atom.nonempty
  cases atoms with
  | nil => exact absurd rfl some_atom
  | cons atom more =>
    cases more with
    | nil => exact text_ne atom
    | cons next more => exact List.append_ne_nil_of_left_ne_nil (text_ne atom) _

/-- The loop reads the text of a list of tags, and tells whether all of them hold. -/
theorem matchTags_text {atoms : List BuildAtom} (some_atom : atoms ≠ []) (outMatch : Bool) :
    matchTags loader filePath (tagListText atoms) outMatch =
      .ok (outMatch && atoms.all fun atom => decide (atom.Holds loader)) := by
  induction atoms generalizing outMatch with
  | nil => exact absurd rfl some_atom
  | cons atom more ih =>
    cases more with
    | nil =>
      have round := @matchTags_atom loader filePath atom [] (Or.inl rfl) outMatch
      rw [List.append_nil] at round
      rw [tagListText, round, if_pos rfl, List.all_cons, List.all_nil, Bool.and_true]
    | cons next more =>
      have rest := ih (List.cons_ne_nil next more) (outMatch && decide (atom.Holds loader))
      rw [tagListText, matchTags_atom atom _ (Or.inr ⟨_, rfl⟩), if_neg (List.cons_ne_nil _ _), List.tail_cons,
        if_neg (tagListText_ne_nil (List.cons_ne_nil next more)), rest, Bool.and_assoc, List.all_cons (a := atom)]

theorem tagList_of_matchTags {rest : List UInt8} {outMatch result : Bool} (some_left : rest ≠ [])
    (returned : matchTags loader filePath rest outMatch = .ok result) :
    ∃ atoms : List BuildAtom, atoms ≠ [] ∧ rest = tagListText atoms := by
  induction length : rest.length using Nat.strongRecOn generalizing rest outMatch with
  | ind size ih =>
    obtain ⟨c, more, rfl⟩ := List.exists_cons_of_ne_nil some_left
    obtain ⟨atom, behind, stops, same⟩ := atom_of_matchTags returned
    rw [same] at returned ⊢
    rw [matchTags_atom atom behind stops] at returned
    rcases stops with rfl | ⟨after, rfl⟩
    · exact ⟨[atom], List.cons_ne_nil _ _, List.append_nil _⟩
    · rw [if_neg (List.cons_ne_nil _ _), List.tail_cons] at returned
      split_ifs at returned with nothing
      have shorter : after.length < size := by
        rw [← length, same, List.length_append, List.length_cons]
        omega
      obtain ⟨atoms, some_atom, text⟩ := ih after.length shorter nothing returned rfl
      obtain ⟨next, more, rfl⟩ := List.exists_cons_of_ne_nil some_atom
      exact ⟨atom :: next :: more, List.cons_ne_nil _ _, by rw [text, tagListText]⟩

theorem noBracket_cons {c : UInt8} {rest : List UInt8} :
    NoBracket (c :: rest) ↔ (c ≠ Byte.openBracket ∧ c ≠ Byte.closeBracket) ∧ NoBracket rest := by
  simp only [NoBracket, List.mem_cons, not_or, ne_comm (a := c)]
  exact ⟨fun both => ⟨⟨both.1.1, both.2.1⟩, both.1.2, both.2.2⟩, fun both => ⟨⟨both.1.1, both.2.1⟩, both.1.2, both.2.2⟩⟩

theorem noBracket_append {first second : List UInt8} :
    NoBracket (first ++ second) ↔ NoBracket first ∧ NoBracket second := by
  simp only [NoBracket, List.mem_append, not_or]
  exact and_and_and_comm

theorem noBracket_tagListText (atoms : List BuildAtom) : NoBracket (tagListText atoms) := by
  have tag (atom : BuildAtom) : NoBracket atom.tag :=
    ⟨fun member => isBuildTagChar_ne (atom.chars _ member) rfl rfl,
      fun member => isBuildTagChar_ne (atom.chars _ member) rfl rfl⟩
  have text (atom : BuildAtom) : NoBracket atom.text := by
    rw [BuildAtom.text]
    split
    · exact noBracket_cons.mpr ⟨⟨by decide, by decide⟩, tag atom⟩
    · exact tag atom
  induction atoms with
  | nil => exact ⟨List.not_mem_nil, List.not_mem_nil⟩
  | cons atom more ih =>
    cases more with
    | nil => exact text atom
    | cons next more => exact noBracket_append.mpr ⟨text atom, noBracket_cons.mpr ⟨⟨by decide, by decide⟩, ih⟩⟩

/-- Behind the opening bracket the loop over the stem lets through only a closing one at the end. -/
theorem findOpenIndex_open {stemLen k : Nat} {rest : List UInt8} {i : Nat} (toEnd : i + rest.length = stemLen)
    (found : Option Nat) : findOpenIndex filePath stemLen rest i (some k) = .ok found ↔
      found = some k ∧ ∃ body, NoBracket body ∧ (rest = body ∨ rest = body ++ [Byte.closeBracket]) := by
  induction rest generalizing i with
  | nil =>
    refine ⟨fun returned => ?_, fun both => ?_⟩
    · exact ⟨(Except.ok.inj returned).symm, [], ⟨List.not_mem_nil, List.not_mem_nil⟩, Or.inl rfl⟩
    · rw [findOpenIndex, both.1]
  | cons c rest ih =>
    rw [List.length_cons] at toEnd
    have later := ih (i := i + 1) (by omega)
    rw [findOpenIndex]
    by_cases opens : c = Byte.openBracket
    · rw [if_pos opens, Option.isSome_some, if_pos rfl]
      refine ⟨fun returned => (nomatch returned), fun ⟨_, body, plain, same⟩ => absurd plain.1 (not_not.mpr ?_)⟩
      cases body with
      | nil =>
        rcases same with same | same
        · cases same
        · rw [opens] at same
          exact absurd (List.cons.inj same).1 (by decide)
      | cons d body =>
        rcases same with same | same <;> exact (List.cons.inj same).1 ▸ opens ▸ List.mem_cons_self
    · rw [if_neg opens]
      by_cases closes : c = Byte.closeBracket
      · rw [if_pos closes, Option.isNone_some, if_neg Bool.false_ne_true]
        by_cases last : rest = []
        · rw [if_neg (by rw [last] at toEnd; simp only [List.length_nil] at toEnd; omega), last, findOpenIndex, closes]
          refine ⟨fun returned => ?_, fun both => by rw [both.1]⟩
          exact ⟨(Except.ok.inj returned).symm, [], ⟨List.not_mem_nil, List.not_mem_nil⟩, Or.inr rfl⟩
        · have inside := List.length_pos_of_ne_nil last
          rw [if_pos (by omega)]
          refine ⟨fun returned => (nomatch returned), fun ⟨_, body, plain, same⟩ => absurd plain.2 (not_not.mpr ?_)⟩
          cases body with
          | nil =>
            rcases same with same | same
            · cases same
            · exact absurd (List.cons.inj same).2 last
          | cons d body =>
            rcases same with same | same <;> exact (List.cons.inj same).1 ▸ closes ▸ List.mem_cons_self
      · rw [if_neg closes, later]
        refine and_congr_right fun _ => ⟨fun ⟨body, plain, same⟩ => ?_, fun ⟨body, plain, same⟩ => ?_⟩
        · refine ⟨c :: body, noBracket_cons.mpr ⟨⟨opens, closes⟩, plain⟩, ?_⟩
          exact same.imp (congrArg (c :: ·)) (congrArg (c :: ·))
        · cases body with
          | nil =>
            rcases same with same | same
            · cases same
            · exact absurd (List.cons.inj same).1 closes
          | cons d body =>
            refine ⟨body, (noBracket_cons.mp plain).2, ?_⟩
            exact same.imp (fun same => (List.cons.inj same).2) fun same => (List.cons.inj same).2

theorem findOpenIndex_closed {stemLen : Nat} {rest : List UInt8} {i : Nat} (found : Option Nat) :
    findOpenIndex filePath stemLen rest i none = .ok found ↔
      (found = none ∧ NoBracket rest) ∨ ∃ name behind, NoBracket name ∧ rest = name ++ Byte.openBracket :: behind ∧
        findOpenIndex filePath stemLen behind (i + name.length + 1) (some (i + name.length)) = .ok found := by
  induction rest generalizing i with
  | nil =>
    refine ⟨fun returned => ?_, ?_⟩
    · exact Or.inl ⟨(Except.ok.inj returned).symm, List.not_mem_nil, List.not_mem_nil⟩
    · rintro (⟨rfl, _⟩ | ⟨name, behind, _, same, _⟩)
      · rfl
      · exact absurd same.symm (List.append_ne_nil_of_right_ne_nil _ (List.cons_ne_nil _ _))
  | cons c rest ih =>
    rw [findOpenIndex]
    by_cases opens : c = Byte.openBracket
    · rw [if_pos opens, Option.isSome_none, if_neg Bool.false_ne_true]
      constructor
      · intro returned
        refine Or.inr ⟨[], rest, ⟨List.not_mem_nil, List.not_mem_nil⟩, by rw [opens]; rfl, returned⟩
      · rintro (⟨_, plain⟩ | ⟨name, behind, plain, same, returned⟩)
        · exact absurd opens (noBracket_cons.mp plain).1.1
        · cases name with
          | nil =>
            obtain rfl := (List.cons.inj same).2
            exact returned
          | cons d name => exact absurd ((List.cons.inj same).1 ▸ opens) (noBracket_cons.mp plain).1.1
    · rw [if_neg opens]
      by_cases closes : c = Byte.closeBracket
      · rw [if_pos closes, Option.isNone_none, if_pos rfl]
        refine ⟨fun returned => (nomatch returned), ?_⟩
        rintro (⟨_, plain⟩ | ⟨name, behind, plain, same, returned⟩)
        · exact absurd closes (noBracket_cons.mp plain).1.2
        · cases name with
          | nil => exact absurd (List.cons.inj same).1 opens
          | cons d name => exact absurd ((List.cons.inj same).1 ▸ closes) (noBracket_cons.mp plain).1.2
      · rw [if_neg closes, ih]
        refine or_congr (and_congr_right fun _ => ?_) ⟨?_, ?_⟩
        · rw [noBracket_cons]
          exact ⟨fun plain => ⟨⟨opens, closes⟩, plain⟩, And.right⟩
        · rintro ⟨name, behind, plain, rfl, returned⟩
          have place : i + (c :: name).length = i + 1 + name.length := by
            rw [List.length_cons]
            omega
          exact ⟨c :: name, behind, noBracket_cons.mpr ⟨⟨opens, closes⟩, plain⟩, rfl, place ▸ returned⟩
        · rintro ⟨name, behind, plain, same, returned⟩
          cases name with
          | nil => exact absurd (List.cons.inj same).1 opens
          | cons d name =>
            have place : i + (d :: name).length = i + 1 + name.length := by
              rw [List.length_cons]
              omega
            exact ⟨name, behind, (noBracket_cons.mp plain).2, (List.cons.inj same).2, place ▸ returned⟩

/-- A file name that ends in `.hop` is read if and only if its stem is plain or ends in a list of tags. -/
theorem filenameBuildTagsMatch_ok_iff {stem : List UInt8} (named : afterSlash filePath = stem ++ bytesOf ".hop")
    (m : Bool) : filenameBuildTagsMatch loader filePath = .ok m ↔
      (NoBracket stem ∧ m = true) ∨
        ∃ atoms, Tagged stem atoms ∧ m = atoms.all fun atom => decide (atom.Holds loader) := by
  have stemOf : (afterSlash filePath).take ((afterSlash filePath).length - 4) = stem := by
    have four : (bytesOf ".hop").length = 4 := rfl
    rw [named, List.length_append, four, Nat.add_sub_cancel]
    exact List.take_left
  rw [filenameBuildTagsMatch, if_neg (not_not.mpr (named ▸ List.suffix_append stem _)), stemOf]
  dsimp only
  constructor
  · intro returned
    split at returned
    · cases returned
    · rename_i scanned
      rcases (findOpenIndex_closed none).mp scanned with ⟨_, plain⟩ | ⟨name, behind, _, same, opened⟩
      · exact Or.inl ⟨plain, (Except.ok.inj returned).symm⟩
      · have toEnd : 0 + name.length + 1 + behind.length = stem.length := by
          rw [same, List.length_append, List.length_cons]
          omega
        cases ((findOpenIndex_open toEnd none).mp opened).1
    · rename_i openIndex scanned
      rcases (findOpenIndex_closed _).mp scanned with ⟨none_found, _⟩ | ⟨name, behind, plainName, same, opened⟩
      · cases none_found
      · have toEnd : 0 + name.length + 1 + behind.length = stem.length := by
          rw [same, List.length_append, List.length_cons]
          omega
        obtain ⟨found, body, plainBody, rest⟩ := (findOpenIndex_open toEnd _).mp opened
        obtain rfl := Option.some.inj found
        split_ifs at returned with missing empty
        have closed : behind = body ++ [Byte.closeBracket] := by
          rcases rest with rest | rest
          · have last := not_not.mp missing
            rw [same, rest] at last
            rcases List.eq_nil_or_concat' body with rfl | ⟨front, c, rfl⟩
            · rw [List.getLast?_append, List.getLast?_singleton] at last
              cases last
            · rw [← List.cons_append, ← List.append_assoc, List.getLast?_concat] at last
              exact absurd (List.mem_append_right _ (Option.some.inj last ▸ List.mem_singleton_self _)) plainBody.2
          · exact rest
        have tags : (stem.take (stem.length - 1)).drop (0 + name.length + 1) = body := by
          rw [same, closed, ← List.cons_append, ← List.append_assoc, ← List.dropLast_eq_take, List.dropLast_concat,
            Nat.zero_add, ← List.singleton_append, ← List.append_assoc]
          exact List.drop_left' (by rw [List.length_append, List.length_singleton])
        rw [tags] at returned empty
        obtain ⟨atoms, some_atom, text⟩ := tagList_of_matchTags empty returned
        refine Or.inr ⟨atoms, ⟨some_atom, name, plainName, by rw [same, closed, text]⟩, ?_⟩
        rw [text, matchTags_text some_atom, Bool.true_and] at returned
        exact (Except.ok.inj returned).symm
  · rintro (⟨plain, rfl⟩ | ⟨atoms, ⟨some_atom, name, plainName, same⟩, rfl⟩)
    · rw [(findOpenIndex_closed none).mpr (Or.inl ⟨rfl, plain⟩)]
    · have toEnd : 0 + name.length + 1 + (tagListText atoms ++ [Byte.closeBracket]).length = stem.length := by
        rw [same]
        simp only [List.length_append, List.length_cons]
        omega
      have opened := (@findOpenIndex_open filePath _ (0 + name.length) _ _ toEnd _).mpr
        ⟨rfl, tagListText atoms, noBracket_tagListText atoms, Or.inr rfl⟩
      have scanned := (@findOpenIndex_closed filePath stem.length _ 0 _).mpr
        (Or.inr ⟨name, _, plainName, same, opened⟩)
      have last : stem.getLast? = some Byte.closeBracket := by
        rw [same, ← List.cons_append, ← List.append_assoc, List.getLast?_concat]
      have tags : (stem.take (stem.length - 1)).drop (0 + name.length + 1) = tagListText atoms := by
        rw [same, ← List.cons_append, ← List.append_assoc, ← List.dropLast_eq_take, List.dropLast_concat,
          Nat.zero_add, ← List.singleton_append, ← List.append_assoc]
        exact List.drop_left' (by rw [List.length_append, List.length_singleton])
      rw [scanned]
      simp only [last, ne_eq, not_true_eq_false, if_false, tags, tagListText_ne_nil some_atom, matchTags_text some_atom,
        Bool.true_and]

end Grammar

/-! ### The files of a package -/

theorem set_middle {α : Type*} (before behind : List α) (old new : α) :
    (before ++ old :: behind).set before.length new = before ++ new :: behind := by
  rw [List.set_append_right _ _ (Nat.le_refl _), Nat.sub_self, List.set_cons_zero]

/-- The paths that were kept so far, as many empty places as paths were dropped, and the paths that are left. -/
def compacted (kept : List (List UInt8)) (dropped : Nat) (rest : List (List UInt8)) : List (Option (List UInt8)) :=
  kept.map some ++ (List.replicate dropped none ++ rest.map some)

theorem compacted_read (kept : List (List UInt8)) (dropped : Nat) (f : List UInt8) (rest : List (List UInt8)) :
    (compacted kept dropped (f :: rest))[kept.length + dropped]? = some (some f) := by
  have place : kept.length + dropped = (kept.map some ++ List.replicate dropped none).length := by
    rw [List.length_append, List.length_map, List.length_replicate]
  rw [compacted, ← List.append_assoc, place, List.getElem?_append_right (Nat.le_refl _), Nat.sub_self]
  rfl

theorem compacted_drop (kept : List (List UInt8)) (dropped : Nat) (f : List UInt8) (rest : List (List UInt8)) :
    (compacted kept dropped (f :: rest)).set (kept.length + dropped) none = compacted kept (dropped + 1) rest := by
  have place : kept.length + dropped = (kept.map some ++ List.replicate dropped none).length := by
    rw [List.length_append, List.length_map, List.length_replicate]
  rw [compacted, ← List.append_assoc, place, List.map_cons, set_middle, compacted, List.replicate_succ', List.append_assoc,
    List.append_assoc, List.singleton_append]

theorem compacted_keep (kept : List (List UInt8)) (dropped : Nat) (f : List UInt8) (rest : List (List UInt8)) :
    (if kept.length ≠ kept.length + dropped then
        ((compacted kept dropped (f :: rest)).set kept.length (some f)).set (kept.length + dropped) none
      else (compacted kept dropped (f :: rest)).set kept.length (some f)) = compacted (kept ++ [f]) dropped rest := by
  have start : kept.length = (kept.map some).length := (List.length_map some).symm
  cases dropped with
  | zero =>
    rw [if_neg (by simp), compacted, start, List.replicate_zero, List.nil_append, List.map_cons, set_middle, compacted,
      List.map_append, List.append_assoc]
    rfl
  | succ dropped =>
    have place : kept.length + (dropped + 1) = (kept.map some ++ some f :: List.replicate dropped none).length := by
      rw [List.length_append, List.length_map, List.length_cons, List.length_replicate]
    have moved : (compacted kept (dropped + 1) (f :: rest)).set kept.length (some f) =
        kept.map some ++ some f :: (List.replicate dropped none ++ some f :: rest.map some) := by
      rw [compacted, start, List.replicate_succ, List.cons_append, set_middle, List.map_cons]
    rw [if_pos (by omega), moved, place, ← List.cons_append, ← List.append_assoc, set_middle, compacted, List.map_append,
      List.replicate_succ']
    simp only [List.map_cons, List.map_nil, List.append_assoc, List.cons_append, List.nil_append]

section Filter

variable {loader : BuildTarget}

/-- A file that is read and whose tags match. -/
def isKept (loader : BuildTarget) (f : List UInt8) : Bool := filenameBuildTagsMatch loader f matches .ok true

theorem isKept_iff (f : List UInt8) : isKept loader f = true ↔ filenameBuildTagsMatch loader f = .ok true := by
  rw [isKept]
  split
  · rename_i read
    exact ⟨fun _ => read, fun _ => rfl⟩
  · rename_i other
    exact ⟨fun impossible => absurd impossible Bool.false_ne_true, fun read => absurd read other⟩

theorem filterLoop_eq (kept : List (List UInt8)) (dropped : Nat) (rest : List (List UInt8)) :
    ∃ run, filterLoop loader rest.length (kept.length + dropped) kept.length (compacted kept dropped rest) = some run ∧
      ((∃ f ∈ rest, ∃ e, filenameBuildTagsMatch loader f = .error e) → ∃ e, run.fileCount = .error e) ∧
      ((∀ f ∈ rest, ∃ m, filenameBuildTagsMatch loader f = .ok m) →
        run.fileCount = .ok (kept ++ rest.filter (isKept loader)).length ∧
          run.paths = compacted (kept ++ rest.filter (isKept loader))
            (dropped + (rest.length - (rest.filter (isKept loader)).length)) []) := by
  induction rest generalizing kept dropped with
  | nil =>
    refine ⟨⟨compacted kept dropped [], .ok kept.length⟩, rfl, fun ⟨f, member, _⟩ => ?_, fun _ => ⟨?_, ?_⟩⟩
    · cases member
    · rw [List.filter_nil, List.append_nil]
    · rw [List.filter_nil, List.append_nil]
      rfl
  | cons f rest ih =>
    have filtered := List.length_filter_le (isKept loader) rest
    rw [List.length_cons, filterLoop, compacted_read]
    dsimp only
    cases read : filenameBuildTagsMatch loader f with
    | error e =>
      refine ⟨_, rfl, fun _ => ⟨e, rfl⟩, fun all => ?_⟩
      obtain ⟨m, readable⟩ := all f List.mem_cons_self
      rw [read] at readable
      cases readable
    | ok m =>
      have others : (∃ g ∈ f :: rest, ∃ e, filenameBuildTagsMatch loader g = .error e) →
          ∃ g ∈ rest, ∃ e, filenameBuildTagsMatch loader g = .error e := by
        rintro ⟨g, member, e, failed⟩
        rcases List.mem_cons.mp member with rfl | member
        · rw [read] at failed
          cases failed
        · exact ⟨g, member, e, failed⟩
      cases m with
      | true =>
        obtain ⟨run, result, fails, keeps⟩ := ih (kept ++ [f]) dropped
        have place : (kept ++ [f]).length + dropped = kept.length + dropped + 1 := by
          rw [List.length_append, List.length_singleton]
          omega
        rw [place, List.length_append, List.length_singleton] at result
        rw [compacted_keep]
        refine ⟨run, result, fun failed => fails (others failed), fun all => ?_⟩
        have counted := keeps fun g member => all g (List.mem_cons_of_mem f member)
        have gap : dropped + (rest.length - (rest.filter (isKept loader)).length) =
            dropped + (rest.length + 1 - ((rest.filter (isKept loader)).length + 1)) := by omega
        rw [List.filter_cons_of_pos ((isKept_iff f).mpr read), List.length_cons, ← gap]
        rwa [List.append_assoc, List.singleton_append] at counted
      | false =>
        have passed : ¬isKept loader f = true := by
          rw [isKept_iff, read]
          decide
        obtain ⟨run, result, fails, keeps⟩ := ih kept (dropped + 1)
        rw [compacted_drop]
        refine ⟨run, result, fun failed => fails (others failed), fun all => ?_⟩
        have counted := keeps fun g member => all g (List.mem_cons_of_mem f member)
        have gap : dropped + 1 + (rest.length - (rest.filter (isKept loader)).length) =
            dropped + (rest.length + 1 - (rest.filter (isKept loader)).length) := by omega
        rw [List.filter_cons_of_neg passed, ← gap]
        exact counted

/-- The filter never reads a path that is gone. It fails if a file name is malformed or none is left, and otherwise has
moved the files that match to the front, in their order, and left nothing behind them. -/
theorem filterPackageFilesByBuildTags_eq (dirPath : List UInt8) (files : List (List UInt8)) :
    ∃ run, filterPackageFilesByBuildTags loader dirPath (files.map some) = some run ∧
      ((∃ e, run.fileCount = .error e) ↔
        (∃ f ∈ files, ∃ e, filenameBuildTagsMatch loader f = .error e) ∨ files.filter (isKept loader) = []) ∧
      ∀ n, run.fileCount = .ok n → n = (files.filter (isKept loader)).length ∧
        run.paths = (files.filter (isKept loader)).map some ++ List.replicate (files.length - n) none := by
  obtain ⟨⟨paths, fileCount⟩, result, fails, keeps⟩ := @filterLoop_eq loader [] 0 files
  have start : filterLoop loader (files.map some).length 0 0 (files.map some) = some ⟨paths, fileCount⟩ := by
    rw [List.length_map]
    exact result
  rw [filterPackageFilesByBuildTags, start]
  by_cases failed : ∃ f ∈ files, ∃ e, filenameBuildTagsMatch loader f = .error e
  · obtain ⟨e, rfl⟩ := fails failed
    refine ⟨_, rfl, ⟨fun _ => Or.inl failed, fun _ => ⟨e, rfl⟩⟩, fun n counted => ?_⟩
    cases counted
  · have readable : ∀ f ∈ files, ∃ m, filenameBuildTagsMatch loader f = .ok m := by
      intro f member
      cases read : filenameBuildTagsMatch loader f with
      | error e => exact absurd ⟨f, member, e, read⟩ failed
      | ok m => exact ⟨m, rfl⟩
    obtain ⟨rfl, rfl⟩ := keeps readable
    rw [List.nil_append]
    by_cases nothing : files.filter (isKept loader) = []
    · rw [nothing, List.length_nil]
      refine ⟨_, rfl, ⟨fun _ => Or.inr rfl, fun _ => ⟨_, rfl⟩⟩, fun n counted => ?_⟩
      cases counted
    · obtain ⟨size, length⟩ := Nat.exists_eq_succ_of_ne_zero (mt List.length_eq_zero_iff.mp nothing)
      rw [length]
      refine ⟨_, rfl, ⟨fun ⟨e, impossible⟩ => ?_, fun either => ?_⟩, fun n counted => ?_⟩
      · cases impossible
      · exact absurd either (not_or.mpr ⟨failed, nothing⟩)
      · obtain rfl := Except.ok.inj counted
        refine ⟨rfl, ?_⟩
        simp only [compacted, List.map_nil, List.append_nil, Nat.zero_add]

end Filter

end HopHop
