import HopHop.ParserStmtTree

namespace HopHop

open Prog

namespace Parser

section

variable {p : Parser} {enter : Enter} {k₀ k pos₀ pos g : Nat} {N₀ : List AstNode} {s : ParseState} {F : List Chain}
  {E : ParseState → Prop}

theorem parseTypeAliasDecl_spec (mid : Mid p k₀ N₀ pos₀ s pos (k + 1) F) (kind : (p.tokAt pos).kind = .TYPE)
    (good : Good p enter g) (behind : g ≤ pos) :
    wp (p.parseTypeAliasDecl enter) s (Made p k₀ N₀ pos₀ (k + 1) F pos) (Keeps N₀) := by
  have after := mid.after
  refine mid.peek (mid.advance kind (.plain rfl) fun s₁ mid₁ => mid₁.expectDeclName fun s₂ mid₂ _ => ?_)
  refine typeParams_mid mid₂ (by omega) fun n s₃ pos₃ b₃ kids₃ mid₃ later₃ => ?_
  have outer := mid₃.range
  refine mid₃.enter good (by omega) fun type s₄ pos₄ c d kids₄ mid₄ left lt right nested => ?_
  refine mid₄.node ⟨_, List.mem_cons_self .., Chain.has_self⟩ fun _ fits => ?_
  refine mid₄.swap.setEnd (fits.2.mono (show pos ≤ c by omega)) (by omega) fun s₅ mid₅ => ?_
  refine mid₅.swap.addChild (by omega) nested fun s₆ mid₆ => ?_
  refine mid₆.expect .semicolon fun s₇ mid₇ _ => mid₇.endAt (by omega) fun s₈ mid₈ => ?_
  exact mid₈.made (Nat.le_refl pos) mid₈.kids

/-- A tree behind the other children of a node becomes its last child, and the node is made to end with it. -/
theorem addLastChild_spec {n child a b c d : Nat} {kids kids' : Chain}
    (mid : Mid p k₀ N₀ pos₀ s pos k (.cons child c d kids' .nil :: .cons n a b kids .nil :: F)) (left : a ≤ c)
    (nested' : kids'.Nested c d) (nested : kids.Nested a b) (order : b ≤ d) :
    wp (p.addLastChild n child) s
      (fun _ s' => ∃ kids, Mid p k₀ N₀ pos₀ s' pos k (.cons n a d kids .nil :: F) ∧ kids.Nested a d) E := by
  have last := addLast_mid (f := Pure.pure) (E := E)
    (Q := fun _ s' => ∃ kids, Mid p k₀ N₀ pos₀ s' pos k (.cons n a d kids .nil :: F) ∧ kids.Nested a d)
    mid left nested' nested order fun s' kids mid' nested => ⟨kids, mid', nested⟩
  exact wp_bind_pure.mp (wp_assoc.mpr (wp_mono last (fun _ _ done => done) fun _ kept => kept))

theorem parseEmbeddedField_spec {agg a b : Nat} {kids : Chain} {name : Token}
    (mid : Mid p k₀ N₀ pos₀ s pos k (.cons agg a b kids .nil :: F)) (good : Good p enter g) (behind : g ≤ pos) :
    wp (p.parseEmbeddedField enter agg name) s (fun _ => Grown p k₀ N₀ pos₀ k F agg a (pos + 1)) (Keeps N₀) := by
  have here := mid.here
  have outer := mid.range
  have typeName : Closed p 0 (p.parseTypeName enter) s :=
    parseTypeName_closed mid.ends (here ▸ mid.inside) (good.mono (by omega))
  refine wp_made (mid.closed typeName (Nat.zero_le k)) fun type s₁ pos₁ c d kids₁ mid₁ left lt right nested => ?_
  refine wp_seq (parseFieldDefault_spec mid₁ good (by omega)) ?_
  rintro (_ | default) s₂ made
  · have mid₂ : Mid p k₀ N₀ pos₀ s₂ pos₁ k _ := made
    refine mid₂.node ⟨_, List.mem_cons_self .., Chain.has_self⟩ fun _ fits => ?_
    refine mid₂.newNode fits.1 fits.2 (by omega) fun field s₃ mid₃ => ?_
    refine mid₃.touch (fun _ => ⟨⟨rfl, rfl⟩, rfl, rfl⟩) fun s₄ mid₄ => ?_
    refine mid₄.touch (fun _ => ⟨⟨rfl, rfl⟩, rfl, rfl⟩) fun s₅ mid₅ => ?_
    refine mid₅.swap.addChild (Nat.le_refl c) nested fun s₆ mid₆ => ?_
    have whole : (Chain.nil.append (.cons type c d kids₁ .nil)).Nested c d :=
      ⟨⟨Nat.le_refl c, lt, Nat.le_refl d⟩, nested, trivial⟩
    refine wp_bind_pure.mp (mid₆.addChild (by omega) whole fun s₇ mid₇ => ?_)
    exact mid₇.grown (by omega)
  · obtain ⟨pos₂, x, y, kids₂, mid₂, left₂, lt₂, right₂, nested₂⟩ := made
    refine mid₂.node ⟨_, List.mem_cons_of_mem _ (List.mem_cons_self ..), Chain.has_self⟩ fun _ fits => ?_
    refine mid₂.newNode fits.1 fits.2 (by omega) fun field s₃ mid₃ => ?_
    refine mid₃.touch (fun _ => ⟨⟨rfl, rfl⟩, rfl, rfl⟩) fun s₄ mid₄ => ?_
    refine mid₄.touch (fun _ => ⟨⟨rfl, rfl⟩, rfl, rfl⟩) fun s₅ mid₅ => ?_
    refine (mid₅.perm (perm_front [_, _])).addChild (Nat.le_refl c) nested fun s₆ mid₆ => ?_
    refine mid₆.node ⟨_, List.mem_cons_of_mem _ (List.mem_cons_self ..), Chain.has_self⟩ fun _ fits => ?_
    refine mid₆.setEnd (fits.2.mono (show c ≤ x by omega)) (by omega) fun s₇ mid₇ => ?_
    refine mid₇.swap.addChild (by omega) nested₂ fun s₈ mid₈ => ?_
    have whole : ((Chain.nil.append (.cons type c d kids₁ .nil)).append (.cons default x y kids₂ .nil)).Nested c y :=
      ⟨⟨Nat.le_refl c, lt, by omega⟩, nested, ⟨by omega, lt₂, Nat.le_refl y⟩, nested₂, trivial⟩
    refine wp_bind_pure.mp (mid₈.addChild (by omega) whole fun s₉ mid₉ => ?_)
    exact mid₉.grown (by omega)

theorem parseNamedFields_spec {agg a b : Nat} {kids : Chain}
    (mid : Mid p k₀ N₀ pos₀ s pos k (.cons agg a b kids .nil :: F)) (good : Good p enter g) (behind : g ≤ pos) :
    wp (p.parseNamedFields enter agg) s (fun _ => Grown p k₀ N₀ pos₀ k F agg a (pos + 1)) (Keeps N₀) := by
  have outer := mid.range
  refine wp_seq (fieldNames_spec mid) ?_
  rintro names s₁ ⟨pos₁, mid₁, later₁, among, some⟩
  refine mid₁.enter good (by omega) fun type s₂ pos₂ c d kids₂ mid₂ left lt right nested => ?_
  refine wp_seq (parseFieldDefault_spec mid₂ good (by omega)) fun default s₃ made => ?_
  refine wp_mono (group_spec mid₂ made nested among some (by omega) left) ?_ fun _ kept => kept
  rintro _ s₄ ⟨pos₄, b₄, kids₄, mid₄, later₄⟩
  exact mid₄.grown (by omega)

theorem endMember_spec {agg a b : Nat} {kids : Chain}
    (mid : Mid p k₀ N₀ pos₀ s pos (k + 1) (.cons agg a b kids .nil :: F)) :
    wp p.endMember s (fun _ => Grown p k₀ N₀ pos₀ (k + 1) F agg a pos) (Keeps N₀) := by
  refine mid.ifMatch .semicolon (fun s₁ mid₁ _ => mid₁.grown (Nat.le_succ pos)) fun _ => ?_
  refine mid.matchTok turns_comma (fun s₁ mid₁ _ => mid₁.grown (Nat.le_succ pos)) fun _ => ?_
  refine mid.isAt (mid.isAt (wp_ite (fun _ => mid.failWith) fun _ => ?_))
  exact mid.grown (Nat.le_refl pos)

theorem parseAggregateMember_spec {agg a b : Nat} {kids : Chain}
    (mid : Mid p k₀ N₀ pos₀ s pos (k + 1) (.cons agg a b kids .nil :: F)) (good : Good p enter g) (behind : g < pos) :
    wp (p.parseAggregateMember enter agg) s (fun _ => Grown p k₀ N₀ pos₀ (k + 1) F agg a (pos + 1)) (Keeps N₀) := by
  have outer := mid.range
  have finish {s' : ParseState} (grown : Grown p k₀ N₀ pos₀ (k + 1) F agg a (pos + 1) s') :
      wp p.endMember s' (fun _ => Grown p k₀ N₀ pos₀ (k + 1) F agg a (pos + 1)) (Keeps N₀) := by
    obtain ⟨pos', b', kids', mid', later⟩ := grown
    refine wp_mono (endMember_spec mid') ?_ fun _ kept => kept
    rintro _ s'' ⟨pos'', b'', kids'', mid'', later'⟩
    exact mid''.grown (by omega)
  have add {s' : ParseState} {decl pos' c d : Nat} {kids' : Chain}
      (mid' : Mid p k₀ N₀ pos₀ s' pos' (k + 1) (.cons decl c d kids' .nil :: .cons agg a b kids .nil :: F))
      (left : pos ≤ c) (nested : kids'.Nested c d) :
      wp (p.addChild agg decl >>= fun _ => p.endMember) s'
        (fun _ => Grown p k₀ N₀ pos₀ (k + 1) F agg a (pos + 1)) (Keeps N₀) := by
    have range := mid'.range
    exact mid'.addChild (by omega) nested fun s'' mid'' => finish (mid''.grown (by omega))
  refine mid.peek (wp_get_bind (wp_ite (fun kind => ?_) fun _ => wp_ite (fun keyword => ?_) fun _ => ?_))
  · refine wp_made (parseTypeAliasDecl_spec mid kind good (by omega)) ?_
    exact fun n s₁ pos₁ c d kids₁ mid₁ left lt right nested => add mid₁ left nested
  · refine mid.enterAt good behind ?_ (Nat.le_add_left 1 k) keyword
    exact fun n s₁ pos₁ c d kids₁ mid₁ left lt right nested => add mid₁ left nested
  · refine wp_ite (fun _ => mid.failWith) fun _ => ?_
    split
    · refine wp_ite (fun _ => ?_) fun _ => ?_
      · exact wp_seq (parseNamedFields_spec mid good (by omega)) fun _ s₁ grown => finish grown
      · exact wp_seq (parseEmbeddedField_spec mid good (by omega)) fun _ s₁ grown => finish grown
    · exact wp_seq (parseNamedFields_spec mid good (by omega)) fun _ s₁ grown => finish grown

/-- A list of members whose separators are skipped. -/
theorem members_spec {agg a b : Nat} {kids : Chain} {member : Parse Unit} {sep sep' : TokenKind}
    (mid : Mid p k₀ N₀ pos₀ s pos k (.cons agg a b kids .nil :: F)) (turns : Turns sep k k) (turns' : Turns sep' k k)
    (each : ∀ {s' pos' b kids}, Mid p k₀ N₀ pos₀ s' pos' k (.cons agg a b kids .nil :: F) → pos ≤ pos' →
      wp member s' (fun _ => Grown p k₀ N₀ pos₀ k F agg a (pos' + 1)) (Keeps N₀)) :
    wp (.loop (fun _ : Unit => do
      let t ← p.peek
      if t.kind = .RBRACE ∨ t.kind = .EOF then Pure.pure (Sum.inr ())
      else if t.kind = sep ∨ t.kind = sep' then
        p.advance
        Pure.pure (.inl ())
      else
        member
        Pure.pure (.inl ())) p.rounds ()) s (fun _ => Grown p k₀ N₀ pos₀ k F agg a pos) (Keeps N₀) := by
  refine mid.rounds () fun _ s' pos' b' kids' mid' later => ?_
  refine mid'.peek (wp_ite (fun _ => mid'.grown later) fun _ => wp_ite (fun separator => ?_) fun _ => ?_)
  · have flat : Turns (p.tokAt pos').kind k k := by
      rcases separator with same | same
      · exact same ▸ turns
      · exact same ▸ turns'
    exact mid'.advance rfl flat fun s₁ mid₁ => mid₁.grown (Nat.le_refl _)
  · exact wp_grown (each mid' later) fun _ s₁ pos₁ b₁ kids₁ mid₁ later₁ => mid₁.grown later₁

theorem parseEnumItem_spec {n a b : Nat} {kids : Chain}
    (mid : Mid p k₀ N₀ pos₀ s pos (k + 1) (.cons n a b kids .nil :: F)) (good : Good p enter g) (behind : g ≤ pos) :
    wp (p.parseEnumItem enter n) s (fun _ => Grown p k₀ N₀ pos₀ (k + 1) F n a (pos + 1)) (Keeps N₀) := by
  have outer := mid.range
  refine mid.expectDeclName fun s₁ mid₁ _ => mid₁.newSpan (by omega) fun item s₂ mid₂ => ?_
  refine mid₂.touch (fun _ => ⟨⟨rfl, rfl⟩, rfl, rfl⟩) fun s₃ mid₃ => ?_
  let close : Parse Unit := do
    p.addChild n item
    let _ ← if ← p.matchTok .COMMA then Pure.pure true else p.matchTok .SEMICOLON
  have closes {s' : ParseState} {pos' d : Nat} {kids' : Chain}
      (mid' : Mid p k₀ N₀ pos₀ s' pos' (k + 1) (.cons item pos d kids' .nil :: .cons n a b kids .nil :: F))
      (later : pos < pos') (nested : kids'.Nested pos d) :
      wp close s' (fun _ => Grown p k₀ N₀ pos₀ (k + 1) F n a (pos + 1)) (Keeps N₀) := by
    refine mid'.addChild (by omega) nested fun s₄ mid₄ => ?_
    refine mid₄.matchTok turns_comma (fun s₅ mid₅ _ => mid₅.grown (by omega)) fun _ => ?_
    exact mid₄.matchTok .semicolon (fun s₅ mid₅ _ => mid₅.grown (by omega)) fun _ => mid₄.grown (by omega)
  have assigned {s' : ParseState} {pos' d : Nat} {kids' : Chain}
      (mid' : Mid p k₀ N₀ pos₀ s' pos' (k + 1) (.cons item pos d kids' .nil :: .cons n a b kids .nil :: F))
      (later : pos < pos') (nested : kids'.Nested pos d) :
      wp (p.matchTok .ASSIGN >>= fun found =>
        if found = true then enter (.expr 1) >>= fun vexpr => p.addLastChild item vexpr >>= fun _ => close else close) s'
        (fun _ => Grown p k₀ N₀ pos₀ (k + 1) F n a (pos + 1)) (Keeps N₀) := by
    refine mid'.ifMatch (.plain rfl) (fun s₄ mid₄ _ => ?_) fun _ => closes mid' later nested
    have range := mid'.range
    refine mid₄.enter good (by omega) fun vexpr s₅ pos₅ c e kids₅ mid₅ left lt right nested₅ => ?_
    refine wp_seq (addLastChild_spec mid₅ (by omega) nested₅ nested (by omega)) ?_
    rintro _ s₆ ⟨kids₆, mid₆, nested₆⟩
    exact closes mid₆ (by omega) nested₆
  refine mid₃.peek (wp_ite (fun _ => ?_) fun _ => assigned mid₃ (by omega) trivial)
  refine mid₃.enter good (by omega) fun payload s₄ pos₄ c d kids₄ mid₄ left lt right nested => ?_
  refine wp_seq (addLastChild_spec mid₄ (by omega) nested trivial (by omega)) ?_
  rintro _ s₅ ⟨kids₅, mid₅, nested₅⟩
  exact assigned mid₅ (by omega) nested₅

theorem aggregate_turns {kind : TokenKind} (keyword : kind = .STRUCT ∨ kind = .UNION ∨ kind = .ENUM) {k : Nat} :
    Turns kind k k := by
  rcases keyword with same | same | same <;> exact same ▸ .plain rfl

theorem parseAggregateDecl_spec (mid : Mid p k₀ N₀ pos₀ s pos (k + 1) F)
    (turns : Turns (p.tokAt pos).kind (k + 1) (k + 1)) (good : Good p enter g) (behind : g ≤ pos) :
    wp (p.parseAggregateDecl enter) s (Made p k₀ N₀ pos₀ (k + 1) F pos) (Keeps N₀) := by
  have after := mid.after
  refine mid.peek (mid.advance rfl turns fun s₁ mid₁ => mid₁.expectDeclName fun s₂ mid₂ _ => ?_)
  refine typeParams_mid mid₂ (by omega) fun n s₃ pos₃ b₃ kids₃ mid₃ later₃ => ?_
  have body {s' : ParseState} {pos' b : Nat} {kids : Chain}
      (mid' : Mid p k₀ N₀ pos₀ s' pos' (k + 1) (.cons n pos b kids .nil :: F)) (later : pos < pos') :
      wp (p.expect .LBRACE .UNEXPECTED_TOKEN >>= fun _ =>
        if (p.tokAt pos).kind = .ENUM then p.parseEnumItems enter n >>= fun _ =>
          p.expect .RBRACE .UNEXPECTED_TOKEN >>= fun rb => p.setEnd n rb.stop >>= fun _ => Pure.pure n
        else p.parseAggregateMemberList enter n >>= fun _ =>
          p.expect .RBRACE .UNEXPECTED_TOKEN >>= fun rb => p.setEnd n rb.stop >>= fun _ => Pure.pure n) s'
        (Made p k₀ N₀ pos₀ (k + 1) F pos) (Keeps N₀) := by
    refine mid'.expect .lbrace fun s₄ mid₄ _ => ?_
    have close {s'' : ParseState} (grown : Grown p k₀ N₀ pos₀ (k + 1 + 1) F n pos (pos' + 1) s'') :
        wp (p.expect .RBRACE .UNEXPECTED_TOKEN >>= fun rb => p.setEnd n rb.stop >>= fun _ => Pure.pure n) s''
          (Made p k₀ N₀ pos₀ (k + 1) F pos) (Keeps N₀) := by
      obtain ⟨pos₅, b₅, kids₅, mid₅, later₅⟩ := grown
      refine mid₅.expect .rbrace fun s₆ mid₆ _ => mid₆.endAt (by omega) fun s₇ mid₇ => ?_
      exact mid₇.made (Nat.le_refl pos) mid₇.kids
    refine wp_ite (fun _ => ?_) fun _ => ?_
    · refine wp_seq (members_spec mid₄ turns_comma .semicolon ?_) fun _ s₅ grown => close grown
      exact fun mid₅ later₅ => parseEnumItem_spec mid₅ good (by omega)
    · refine wp_seq (members_spec mid₄ .semicolon turns_comma ?_) fun _ s₅ grown => close grown
      exact fun mid₅ later₅ => parseAggregateMember_spec mid₅ good (by omega)
  refine wp_ite (fun _ => ?_) fun _ => body mid₃ (by omega)
  have outer := mid₃.range
  refine mid₃.enter good (by omega) fun under s₄ pos₄ c d kids₄ mid₄ left lt right nested => ?_
  exact mid₄.addChild (by omega) nested fun s₅ mid₅ => body mid₅ (by omega)

theorem production_closed (ends : p.EndsWithEof) (inside : s.pos < p.tokLen) (good : Good p enter s.pos)
    (production : Production) (starts : production.StartsAt (p.tokAt s.pos).kind) :
    Closed p production.level (p.production enter production) s := by
  have start (k : Nat) := Mid.start k ends inside
  cases production with
  | type => exact parseType_closed ends inside good
  | expr minPrec => exact parseExpr_spec (start 0) good (Nat.le_refl _)
  | prefixed => exact parsePrefix_spec (start 0) good (Nat.le_refl _)
  | stmt => exact parseStmt_spec (start 1) good (Nat.le_refl _)
  | ifStmt =>
    have keyword : (p.tokAt s.pos).kind = .IF := starts
    exact parseIfStmt_spec (start 1) (keyword ▸ .plain rfl) good (Nat.le_refl _)
  | aggregateDecl => exact parseAggregateDecl_spec (start 1) (aggregate_turns starts) good (Nat.le_refl _)

/-- With as much room as there are tokens left, every production ends as it should. -/
theorem enterFor_good (ends : p.EndsWithEof) (room : Nat) : ∀ {g : Nat}, p.tokLen ≤ g + room + 1 →
    Good p (p.enterFor room) g := by
  induction room with
  | zero =>
    intro g enough production s after inside
    omega
  | succ room ih =>
    intro g enough production s after inside starts
    exact production_closed ends inside (ih (by omega)) production starts

theorem enterAny_good (ends : p.EndsWithEof) : Good p p.enterAny 0 := enterFor_good ends _ (by omega)

theorem parseImportAlias_spec {n a b : Nat} {kids : Chain}
    (mid : Mid p k₀ N₀ pos₀ s pos k (.cons n a b kids .nil :: F)) (nested : kids.Nested a b) :
    wp (p.parseImportAlias n) s
      (fun r s' => match r with
        | none => Mid p k₀ N₀ pos₀ s' pos k (.cons n a b kids .nil :: F)
        | some t => t = p.tokAt (pos + 1) ∧
          ∃ kids, Mid p k₀ N₀ pos₀ s' (pos + 1 + 1) k (.cons n a b kids .nil :: F) ∧ kids.Nested a (pos + 1 + 1))
      (Keeps N₀) := by
  have outer := mid.range
  refine mid.ifMatch (.plain rfl) (fun s₁ mid₁ _ => ?_) fun _ => mid
  refine mid₁.expect turns_ident fun s₂ mid₂ _ => wp_ite (fun _ => mid₂.keeps) fun _ => ?_
  refine newLeaf_mid mid₂ (by omega) fun leaf s₃ mid₃ => ?_
  refine mid₃.addChild (by omega) trivial fun s₄ mid₄ => ⟨rfl, _, mid₄, ?_⟩
  exact (nested.mono (Nat.le_refl a) (by omega)).append
    ⟨⟨by omega, Nat.lt_succ_self _, Nat.le_refl _⟩, trivial, trivial⟩

/-- Separators are taken and nothing is built. -/
theorem skipSeparators_spec {n a b : Nat} {kids : Chain}
    (mid : Mid p k₀ N₀ pos₀ s pos (k + 1) (.cons n a b kids .nil :: F)) :
    wp p.skipSeparators s (fun _ => Grown p k₀ N₀ pos₀ (k + 1) F n a pos) (Keeps N₀) := by
  refine mid.rounds false fun any s' pos' b' kids' mid' later => ?_
  refine mid'.ifMatch turns_comma (fun s₁ mid₁ _ => mid₁.grown (Nat.le_refl _)) fun _ => ?_
  exact mid'.matchTok .semicolon (fun s₁ mid₁ _ => mid₁.grown (Nat.le_refl _)) fun _ => mid'.grown later

theorem parseImportSymbol_spec {n a b : Nat} {kids : Chain}
    (mid : Mid p k₀ N₀ pos₀ s pos k (.cons n a b kids .nil :: F)) :
    wp (p.parseImportSymbol n) s (fun _ => Grown p k₀ N₀ pos₀ k F n a (pos + 1)) (Keeps N₀) := by
  have outer := mid.range
  refine mid.peek (wp_ite (fun _ => mid.keeps) fun _ => mid.expect turns_ident fun s₁ mid₁ _ => ?_)
  refine mid₁.newSpan (by omega) fun symbol s₂ mid₂ => ?_
  refine mid₂.touch (fun _ => ⟨⟨rfl, rfl⟩, rfl, rfl⟩) fun s₃ mid₃ => ?_
  have add {s' : ParseState} {pos' d : Nat} {kids' : Chain}
      (mid' : Mid p k₀ N₀ pos₀ s' pos' k (.cons symbol pos d kids' .nil :: .cons n a b kids .nil :: F))
      (later : pos < pos') (nested : kids'.Nested pos d) :
      wp (p.addChild n symbol) s' (fun _ => Grown p k₀ N₀ pos₀ k F n a (pos + 1)) (Keeps N₀) := by
    refine wp_bind_pure.mp (mid'.addChild (by omega) nested fun s₄ mid₄ => ?_)
    exact mid₄.grown (by omega)
  refine wp_seq (parseImportAlias_spec mid₃ trivial) ?_
  rintro (_ | name) s₄ result
  · exact add result (Nat.lt_succ_self pos) trivial
  · obtain ⟨rfl, kids₄, mid₄, nested₄⟩ := result
    exact mid₄.endAt (by omega) fun s₅ mid₅ => add mid₅ (by omega) nested₄

theorem parseImportSymbols_spec {n a b : Nat} {kids : Chain}
    (mid : Mid p k₀ N₀ pos₀ s pos k (.cons n a b kids .nil :: F)) :
    wp (p.parseImportSymbols n) s (fun _ => Grown p k₀ N₀ pos₀ k F n a pos) (Keeps N₀) := by
  have outer := mid.range
  have close {s' : ParseState} (grown : Grown p k₀ N₀ pos₀ (k + 1) F n a (pos + 1) s') :
      wp (p.expect .RBRACE .UNEXPECTED_TOKEN >>= fun rb => p.setEnd n rb.stop) s'
        (fun _ => Grown p k₀ N₀ pos₀ k F n a pos) (Keeps N₀) := by
    obtain ⟨pos', b', kids', mid', later⟩ := grown
    refine mid'.expect .rbrace fun s₁ mid₁ _ => wp_bind_pure.mp (mid₁.endAt (by omega) fun s₂ mid₂ => ?_)
    exact mid₂.grown (by omega)
  refine mid.ifMatch .lbrace (fun s₁ mid₁ _ => ?_) fun _ => mid.grown (Nat.le_refl pos)
  refine mid₁.ifNotAt (fun _ => ?_) fun _ => close (mid₁.grown (Nat.le_refl _))
  refine wp_seq (mid₁.rounds () fun _ s' pos' b' kids' mid' later => ?_) fun _ s₂ grown => close grown
  refine wp_grown (parseImportSymbol_spec mid') fun _ s₂ pos₂ b₂ kids₂ mid₂ later₂ => ?_
  refine wp_grown (skipSeparators_spec mid₂) fun any s₃ pos₃ b₃ kids₃ mid₃ later₃ => ?_
  refine wp_ite (fun _ => mid₃.ifAt (fun _ => ?_) fun _ => ?_) fun _ => ?_
  · exact mid₃.grown (by omega)
  · exact mid₃.grown (by omega)
  · exact mid₃.grown (by omega)

theorem noteFeature_mid {path : Token} {β : Type} {f : Unit → Parse β} {Q : β → ParseState → Prop}
    (mid : Mid p k₀ N₀ pos₀ s pos k F)
    (next : ∀ s', Mid p k₀ N₀ pos₀ s' pos k F → wp (f ()) s' Q (Keeps N₀)) :
    wp (p.noteFeature path >>= f) s Q (Keeps N₀) := by
  rw [wp_bind]
  unfold noteFeature
  split
  · exact mid.keeps
  · refine wp_ite (fun _ => ?_) fun _ => next s mid
    exact next _ (mid.congr rfl rfl)

theorem parseImport_spec (mid : Mid p k₀ N₀ pos₀ s pos (k + 1) F) (kind : (p.tokAt pos).kind = .IMPORT) :
    wp p.parseImport s (Made p k₀ N₀ pos₀ (k + 1) F pos) (Keeps N₀) := by
  have after := mid.after
  refine mid.peek (mid.advance kind (.plain rfl) fun s₁ mid₁ => mid₁.expect (.plain rfl) fun s₂ mid₂ _ => ?_)
  refine mid₂.newSpan (by omega) fun n s₃ mid₃ => mid₃.touch (fun _ => ⟨⟨rfl, rfl⟩, rfl, rfl⟩) fun s₄ mid₄ => ?_
  have finish {s' : ParseState} {pos' b : Nat} {kids : Chain}
      (mid' : Mid p k₀ N₀ pos₀ s' pos' (k + 1) (.cons n pos b kids .nil :: F)) (later : pos < pos') :
      wp (p.parseImportSymbols n >>= fun _ => p.noteFeature (p.tokAt (pos + 1)) >>= fun _ =>
        p.expect .SEMICOLON .UNEXPECTED_TOKEN >>= fun semi => p.setEnd n semi.stop >>= fun _ => Pure.pure n) s'
        (Made p k₀ N₀ pos₀ (k + 1) F pos) (Keeps N₀) := by
    refine wp_grown (parseImportSymbols_spec mid') fun _ s₅ pos₅ b₅ kids₅ mid₅ later₅ => ?_
    refine noteFeature_mid mid₅ fun s₆ mid₆ => mid₆.expect .semicolon fun s₇ mid₇ _ => ?_
    exact mid₇.endAt (by omega) fun s₈ mid₈ => mid₈.made (Nat.le_refl pos) mid₈.kids
  refine wp_seq (parseImportAlias_spec mid₄ trivial) ?_
  rintro (_ | name) s₅ result
  · exact finish result (by omega)
  · obtain ⟨_, kids₅, mid₅, _⟩ := result
    exact finish mid₅ (by omega)

theorem parseDirectiveLiteral_spec (mid : Mid p k₀ N₀ pos₀ s pos k F) :
    wp p.parseDirectiveLiteral s (Made p k₀ N₀ pos₀ k F pos) (Keeps N₀) := by
  have after := mid.after
  refine mid.peek ?_
  split
  · next literal =>
    refine mid.advance rfl (literalKind_turns literal) fun s₁ mid₁ => ?_
    exact newLeaf_made mid₁ (by omega) (Nat.le_refl pos)
  · refine wp_ite (fun null => ?_) fun _ => mid.failWith
    refine mid.advance null (.plain rfl) fun s₁ mid₁ => wp_bind_pure.mp (mid₁.newSpan (by omega) fun n s₂ mid₂ => ?_)
    exact mid₂.made (Nat.le_refl pos) trivial

theorem parseDirectiveArgs_spec {n a b : Nat} {kids : Chain}
    (mid : Mid p k₀ N₀ pos₀ s pos (k + 1) (.cons n a b kids .nil :: F)) :
    wp (p.parseDirectiveArgs n) s (fun _ => Around p k₀ N₀ pos₀ k F n a) (Keeps N₀) := by
  have outer := mid.range
  have close {s' : ParseState} (grown : Grown p k₀ N₀ pos₀ (k + 1) F n a pos s') :
      wp (p.expect .RPAREN .UNEXPECTED_TOKEN >>= fun rp => p.setEnd n rp.stop) s'
        (fun _ => Around p k₀ N₀ pos₀ k F n a) (Keeps N₀) := by
    obtain ⟨pos', b', kids', mid', later⟩ := grown
    refine mid'.expect .rparen fun s₁ mid₁ _ => wp_bind_pure.mp (mid₁.endAt (by omega) fun s₂ mid₂ => ?_)
    exact ⟨_, _, _, mid₂, mid₂.kids, by omega⟩
  refine mid.ifNotAt (fun _ => ?_) fun _ => close (mid.grown (Nat.le_refl _))
  refine wp_seq (mid.rounds () fun _ s' pos' b' kids' mid' later => ?_) fun _ s₂ grown => close grown
  refine wp_made (parseDirectiveLiteral_spec mid') fun arg s₂ pos₂ c d kids₂ mid₂ left lt right nested => ?_
  refine mid₂.addChild (by omega) nested fun s₃ mid₃ => ?_
  refine mid₃.ifMatch turns_comma (fun s₄ mid₄ _ => mid₄.ifAt (fun _ => ?_) fun _ => ?_) fun _ => ?_
  · exact mid₄.grown (by omega)
  · exact mid₄.grown (by omega)
  · exact mid₃.grown (by omega)

theorem parseDirective_spec (mid : Mid p k₀ N₀ pos₀ s pos k F) :
    wp p.parseDirective s (Made p k₀ N₀ pos₀ k F pos) (Keeps N₀) := by
  have after := mid.after
  refine mid.expect (.plain rfl) fun s₁ mid₁ _ => mid₁.expect turns_ident fun s₂ mid₂ _ => ?_
  refine mid₂.newSpan (by omega) fun n s₃ mid₃ => mid₃.touch (fun _ => ⟨⟨rfl, rfl⟩, rfl, rfl⟩) fun s₄ mid₄ => ?_
  refine mid₄.ifMatch .lparen (fun s₅ mid₅ _ => ?_) fun _ => mid₄.made (Nat.le_refl pos) trivial
  refine wp_seq (parseDirectiveArgs_spec mid₅) ?_
  rintro _ s₆ ⟨pos₆, b₆, kids₆, mid₆, nested₆, _⟩
  exact mid₆.made (Nat.le_refl pos) nested₆

theorem parseDeclInner_spec {allowBody : Bool} (mid : Mid p k₀ N₀ pos₀ s pos (k + 1) F) (good : Good p enter g)
    (behind : g ≤ pos) :
    wp (p.parseDeclInner enter allowBody) s (Made p k₀ N₀ pos₀ (k + 1) F pos) (Keeps N₀) := by
  have aggregate (turns : Turns (p.tokAt pos).kind (k + 1) (k + 1)) :
      wp (p.parseAggregateDecl enter >>= fun n => p.matchTok .SEMICOLON >>= fun found =>
        if found = true then p.prev >>= fun semi => p.setEnd n semi.stop >>= fun _ => Pure.pure n else Pure.pure n) s
        (Made p k₀ N₀ pos₀ (k + 1) F pos) (Keeps N₀) := by
    refine wp_made (parseAggregateDecl_spec mid turns good behind) fun n s₁ pos₁ a b kids mid₁ left lt right nested => ?_
    refine mid₁.ifMatch .semicolon (fun s₂ mid₂ _ => mid₂.prev ?_) fun _ => mid₁.made left nested
    exact mid₂.endAt (by omega) fun s₃ mid₃ => mid₃.made left mid₃.kids
  refine mid.peek ?_
  split
  · exact parseFunDecl_spec mid ‹_› good behind
  · exact parseTypeAliasDecl_spec mid ‹_› good behind
  · exact aggregate (aggregate_turns (.inl ‹_›))
  · exact aggregate (aggregate_turns (.inr (.inl ‹_›)))
  · exact aggregate (aggregate_turns (.inr (.inr ‹_›)))
  · exact parseVarLikeStmt_spec mid (‹_ = TokenKind.VAR› ▸ .plain rfl) good behind
  · exact parseVarLikeStmt_spec mid (‹_ = TokenKind.CONST› ▸ .plain rfl) good behind
  · exact mid.failWith

theorem parseDecl_spec {allowBody : Bool} (mid : Mid p k₀ N₀ pos₀ s pos (k + 1) F) (good : Good p enter g)
    (behind : g ≤ pos) :
    wp (p.parseDecl enter allowBody) s (Made p k₀ N₀ pos₀ (k + 1) F pos) (Keeps N₀) := by
  have after := mid.after
  refine mid.peek (mid.matchTok (.plain rfl) (fun s₁ mid₁ _ => ?_) fun _ => ?_)
  · refine wp_made (parseDeclInner_spec mid₁ good (by omega)) fun n s₂ pos₂ a b kids mid₂ left lt right nested => ?_
    have published (node : AstNode) (fits : p.Fits a b node) :
        p.Fits pos b { node with start := (p.tokAt pos).start, flags := node.flags ||| AstFlag.PUB } :=
      ⟨rfl, fits.2.mono (by omega)⟩
    refine mid₂.setNode (fun _ => ⟨rfl, rfl⟩) published ⟨after, by omega⟩ (by omega) fun s₃ mid₃ => ?_
    exact mid₃.made (Nat.le_refl pos) (nested.mono (by omega) (Nat.le_refl b))
  · refine wp_made (parseDeclInner_spec mid good behind) fun n s₂ pos₂ a b kids mid₂ left lt right nested => ?_
    exact mid₂.made left nested

end

end Parser

end HopHop
