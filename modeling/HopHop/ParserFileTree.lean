import HopHop.LexerPartition
import HopHop.NodeTree
import HopHop.ParserDeclTree

namespace HopHop

open Prog

section

variable {fits fits' : Nat → Nat → AstNode → Prop} {N₀ N : List AstNode} {F : List Chain} {c : Chain} {room : Nat}

theorem Holds.imp (holds : Holds fits N c) (weaker : ∀ a b n, fits a b n → fits' a b n) : Holds fits' N c := by
  induction c with
  | nil => trivial
  | cons id a b kids rest ihKids ihRest =>
    obtain ⟨⟨n, here, facts, links⟩, inner, later⟩ := holds
    exact ⟨⟨n, here, weaker a b n facts, links⟩, ihKids inner, ihRest later⟩

theorem Owns.imp (owns : Owns fits room N₀ N F) (weaker : ∀ a b n, fits a b n → fits' a b n) :
    Owns fits' room N₀ N F := by
  obtain ⟨dropped, done, split⟩ := owns
  exact ⟨dropped, done, split.kept, fun c member => (split.holds c member).imp weaker, split.distinct, split.fresh,
    split.covers⟩

end

namespace Parser

/-- A node fits its tokens; the root of a file fits the file. -/
def FileFits (p : Parser) (a b : Nat) (n : AstNode) : Prop :=
  p.Fits a b n ∨ ((n.start = 0 ∧ n.stop = p.src.length) ∧ a = 0 ∧ b = p.tokLen)

theorem fileFits_linkBlind (p : Parser) : LinkBlind p.FileFits := by
  intro a b n x y facts
  rcases facts with fits | file
  · exact .inl (p.fits_linkBlind a b n x y fits)
  · exact .inr file

/-- A file before the token `s.pos`: its root is the first node, with what was parsed so far as its children. -/
structure InFile (p : Parser) (s : ParseState) : Prop where
  ends : p.EndsWithEof
  inside : s.pos < p.tokLen
  owns : ∃ kids, Owns p.FileFits (p.tokLen - 1) [] s.nodes [.cons 0 0 p.tokLen kids .nil] ∧
    kids.Nested 0 (p.tokLen - 1)

section

variable {p : Parser} {s : ParseState} {β : Type}

/-- A finished tree becomes the last child of the root. -/
theorem addToFile_spec {n : Nat} {f : Unit → Parse β} {Q : β → ParseState → Prop} {E : ParseState → Prop}
    (file : InFile p s) {s' : ParseState} (made : Made p 1 s.nodes s.pos 1 [] s.pos n s')
    (next : ∀ s'', InFile p s'' → s.pos < s''.pos → wp (f ()) s'' Q E) : wp (p.addChild 0 n >>= f) s' Q E := by
  obtain ⟨ends, inside, kids, owns, nested⟩ := file
  obtain ⟨pos', a, b, below, mid, left, lt, right, nested'⟩ := made
  have here := mid.here
  have bound := mid.inside
  have weaker (a b : Nat) (n : AstNode) (fits : p.Fits a b n) : p.FileFits a b n := .inl fits
  have all := owns.join (mid.owns.imp weaker)
  obtain ⟨N', run, added⟩ := Owns.addChild (x := .nil) p p.fileFits_linkBlind (all.perm (.swap _ _ []))
  rw [wp_bind, wp, run]
  refine next _ ⟨ends, here ▸ bound, _, added, nested.append ⟨⟨Nat.zero_le a, lt, by omega⟩, nested', trivial⟩⟩ ?_
  simp only [here]
  omega

theorem InFile.isAt {kind : TokenKind} {f : Bool → Parse β} {Q : β → ParseState → Prop} {E : ParseState → Prop}
    (file : InFile p s) (next : wp (f ((p.tokAt s.pos).kind == kind)) s Q E) : wp (p.isAt kind >>= f) s Q E :=
  (Mid.start 0 file.ends file.inside).isAt next

/-- A semicolon between declarations. -/
theorem InFile.semicolon (file : InFile p s) (kind : (p.tokAt s.pos).kind = .SEMICOLON) :
    InFile p { s with pos := s.pos + 1 } :=
  ⟨file.ends, file.ends.step_inside file.inside kind (by decide), file.owns⟩

theorem parseImports_spec (file : InFile p s) :
    wp (p.parseImports 0) s (fun _ s' => InFile p s' ∧ s.pos ≤ s'.pos) fun _ => True := by
  refine wp_rounds (I := fun _ s' => InFile p s' ∧ s.pos ≤ s'.pos) ⟨file, Nat.le_refl _⟩ (fun _ s' keeps => keeps.1.inside) ?_
  rintro _ s' ⟨file', later⟩
  have start := Mid.start 1 file'.ends file'.inside
  refine file'.isAt (wp_ite (fun kind => ?_) fun _ => ⟨file', later⟩)
  have spec := parseImport_spec start (by simpa using kind)
  refine wp_seq (wp_mono spec (fun _ _ made => made) fun _ _ => trivial) fun n s₁ made => ?_
  exact addToFile_spec file' made fun s₂ file₂ forward => ⟨⟨file₂, by omega⟩, forward⟩

theorem parseDirectives_spec (file : InFile p s) :
    wp (p.parseDirectives 0) s (fun _ s' => InFile p s' ∧ s.pos ≤ s'.pos) fun _ => True := by
  refine wp_rounds (I := fun _ s' => InFile p s' ∧ s.pos ≤ s'.pos) ⟨file, Nat.le_refl _⟩ (fun _ s' keeps => keeps.1.inside) ?_
  rintro _ s' ⟨file', later⟩
  have start := Mid.start 1 file'.ends file'.inside
  refine file'.isAt (wp_ite (fun kind => ?_) fun _ => file'.isAt (wp_ite (fun _ => ?_) fun _ => ⟨file', later⟩))
  · exact ⟨⟨file'.semicolon (by simpa using kind), Nat.le_succ_of_le later⟩, Nat.lt_succ_self _⟩
  · refine wp_seq (wp_mono (parseDirective_spec start) (fun _ _ made => made) fun _ _ => trivial) fun n s₁ made => ?_
    exact addToFile_spec file' made fun s₂ file₂ forward => ⟨⟨file₂, by omega⟩, forward⟩

theorem parseDecls_spec (file : InFile p s) : wp (p.parseDecls 0) s (fun _ => InFile p) fun _ => True := by
  refine wp_rounds (I := fun _ => InFile p) file (fun _ s' file' => file'.inside) fun _ s' file' => ?_
  refine file'.isAt (wp_ite (fun _ => file') fun _ => file'.isAt (wp_ite (fun kind => ?_) fun _ => ?_))
  · exact ⟨file'.semicolon (by simpa using kind), Nat.lt_succ_self _⟩
  · refine wp_seq (parseDirectives_spec file') ?_
    rintro _ s₁ ⟨file₁, forward₁⟩
    have good := (enterAny_good file₁.ends).mono (Nat.zero_le s₁.pos)
    have spec : wp (p.parseDecl p.enterAny true) s₁ _ _ :=
      parseDecl_spec (Mid.start 1 file₁.ends file₁.inside) good (Nat.le_refl _)
    refine wp_seq (wp_mono spec (fun _ _ made => made) fun _ _ => trivial) fun n s₂ made => ?_
    exact addToFile_spec file₁ made fun s₃ file₃ forward => ⟨file₃, by omega⟩

theorem parseFile_spec (ends : p.EndsWithEof) :
    wp p.parseFile .start (fun root s => root = 0 ∧ InFile p s) fun _ => True := by
  have root : wp (p.newNode .FILE 0 p.src.length) .start (fun root s => root = 0 ∧ InFile p s) fun _ => True := by
    have owns : Owns p.FileFits (p.tokLen - 1) [] [.fresh .FILE 0 p.src.length] [.cons 0 0 p.tokLen .nil .nil] :=
      (Owns.start []).push (.inr ⟨⟨rfl, rfl⟩, rfl, rfl⟩) rfl rfl
    exact wp_get_bind (wp_ite (fun _ => trivial) fun _ => ⟨rfl, ends, ends.nonempty, .nil, owns, trivial⟩)
  refine wp_seq root ?_
  rintro _ s₁ ⟨rfl, file₁⟩
  refine wp_seq (parseImports_spec file₁) fun _ s₂ ⟨file₂, _⟩ => ?_
  exact wp_seq (parseDecls_spec file₂) fun _ s₃ file₃ => ⟨rfl, file₃⟩

end

theorem tokAt_eq {p : Parser} {i : Nat} (inside : i < p.tok.length) : p.tokAt i = p.tok[i] := by
  simp only [tokAt, List.getD_eq_getElem?_getD, List.getElem?_eq_getElem inside, Option.getD_some]

theorem tokAt_mem {p : Parser} {i : Nat} (inside : i < p.tokLen) : p.tokAt i ∈ p.tok := by
  rw [tokAt_eq inside]
  exact List.getElem_mem inside

theorem tokAt_ordered {p : Parser} {comments : List (Nat × Nat)} (faithful : FaithfulPartition p.src p.tok comments)
    {i j : Nat} (le : i ≤ j) (inside : j < p.tokLen) :
    (p.tokAt i).start ≤ (p.tokAt j).start ∧ (p.tokAt i).stop ≤ (p.tokAt j).stop := by
  have bounds := faithful.bounds _ (tokAt_mem inside)
  have bounds' := faithful.bounds _ (tokAt_mem (p := p) (i := i) (by omega))
  rcases Nat.lt_or_ge i j with less | more
  · have small : j < p.tok.length := inside
    have apart := (List.pairwise_iff_getElem.mp faithful.increasing i j (Nat.lt_trans less small) small less).1
    rw [← tokAt_eq, ← tokAt_eq] at apart
    omega
  · have same : i = j := by omega
    exact same ▸ ⟨Nat.le_refl _, Nat.le_refl _⟩

theorem endsWithEof_of_faithful {p : Parser} {comments : List (Nat × Nat)}
    (faithful : FaithfulPartition p.src p.tok comments) : p.EndsWithEof := by
  obtain ⟨before, split, _⟩ := faithful.ends
  have length : p.tokLen = before.length + 1 := by simp [tokLen, split]
  refine ⟨by omega, ?_⟩
  rw [length, Nat.add_sub_cancel, tokAt, split]
  simp [List.getD_eq_getElem?_getD]

end Parser

/-- Every `assert` statement has a semicolon: behind the keyword, what ends the statement is no closing brace. -/
def AssertsEndInSemicolon : List Token → Prop
  | [] => True
  | tok :: behind =>
    (tok.kind = .ASSERT → stmtEnd 0 (behind.map Token.kind) ≠ some .RBRACE) ∧ AssertsEndInSemicolon behind

instance AssertsEndInSemicolon.decidable : (toks : List Token) → Decidable (AssertsEndInSemicolon toks)
  | [] => .isTrue trivial
  | tok :: behind =>
    have := decidable behind
    inferInstanceAs (Decidable ((tok.kind = .ASSERT → stmtEnd 0 (behind.map Token.kind) ≠ some .RBRACE) ∧
      AssertsEndInSemicolon behind))

theorem AssertsEndInSemicolon.behind {before behind : List Token} {tok : Token}
    (terminated : AssertsEndInSemicolon (before ++ tok :: behind)) (keyword : tok.kind = .ASSERT) :
    stmtEnd 0 (behind.map Token.kind) ≠ some .RBRACE := by
  induction before with
  | nil => exact terminated.1 keyword
  | cons _ _ ih => exact ih terminated.2

namespace Parser

variable {p : Parser} {comments : List (Nat × Nat)}

theorem not_unterminated (terminated : AssertsEndInSemicolon p.tok) {i : Nat} (inside : i < p.tokLen) :
    ¬p.Unterminated i := by
  rintro ⟨keyword, brace⟩
  have split : p.tok = p.tok.take i ++ p.tok[i] :: p.tok.drop (i + 1) := by
    rw [← List.drop_eq_getElem_cons inside, List.take_append_drop]
  rw [split] at terminated
  exact terminated.behind (tokAt_eq inside ▸ keyword) brace

/-- The range of a node goes from the start of its first to the end of its last token. -/
theorem fileFits_range (terminated : AssertsEndInSemicolon p.tok) {a b : Nat} {n : AstNode} (le : b ≤ p.tokLen)
    (fits : p.FileFits a b n) :
    n.start = (p.tokAt a).start ∧ n.stop = (p.tokAt (b - 1)).stop ∨
      n.start = 0 ∧ n.stop = p.src.length ∧ a = 0 ∧ b = p.tokLen := by
  rcases fits with ⟨starts, stops⟩ | ⟨⟨starts, stops⟩, file⟩
  · rcases stops with exactly | ⟨i, _, before, unterminated⟩
    · exact .inl ⟨starts, exactly⟩
    · exact absurd unterminated (not_unterminated terminated (by omega))
  · exact .inr ⟨starts, stops, file⟩

theorem InFile.wellFormed {s : ParseState} (file : InFile p s) (faithful : FaithfulPartition p.src p.tok comments)
    (terminated : AssertsEndInSemicolon p.tok) : (Ast.mk s.nodes 0).WellFormed p.src.length := by
  obtain ⟨_, inside, kids, ⟨dropped, done, split⟩, nested⟩ := file
  have bounds {i : Nat} (inside : i < p.tokLen) := faithful.bounds _ (tokAt_mem inside)
  refine Split.wellFormed split rfl nested done (by omega) ?_ ?_
  · intro a b n lt le fits
    rcases fileFits_range terminated (by omega) fits with ⟨starts, stops⟩ | ⟨starts, stops, _⟩
    · have ordered := tokAt_ordered faithful (show a ≤ b - 1 by omega) (by omega)
      have last := bounds (show b - 1 < p.tokLen by omega)
      omega
    · omega
  · intro a b a' b' n n' left lt small right le fits fits'
    rcases fileFits_range terminated (by omega) fits' with ⟨starts', stops'⟩ | ⟨_, _, _, whole⟩
    · rcases fileFits_range terminated (by omega) fits with ⟨starts, stops⟩ | ⟨starts, stops, _⟩
      · have first := tokAt_ordered faithful left (by omega)
        have last := tokAt_ordered faithful (show b' - 1 ≤ b - 1 by omega) (by omega)
        omega
      · have last := bounds (show b' - 1 < p.tokLen by omega)
        omega
    · omega

end Parser

/-- What an accepted source has as its tree. -/
theorem parse_ok {src : List UInt8} {toks : List Token} {ast : Ast} {features : UInt32} (lexed : lex src = .ok toks)
    (run : parse src = .ok (ast, features)) :
    ∃ root s, (Parser.mk src toks (nodeCapFor toks)).parseFile .start = .ok root s ∧ ast = ⟨s.nodes, root⟩ := by
  simp only [parse, lexed, Bind.bind, Except.bind] at run
  split at run
  · next root s result =>
    cases run
    exact ⟨root, s, result, rfl⟩
  · cases run
  · cases run

/-- A source that the parser accepts gets a well formed tree, when its `assert` statements end in semicolons. -/
theorem parse_wellFormed {src : List UInt8} {toks : List Token} {ast : Ast} {features : UInt32}
    (lexed : lex src = .ok toks) (terminated : AssertsEndInSemicolon toks) (run : parse src = .ok (ast, features)) :
    ast.WellFormed src.length := by
  obtain ⟨root, s, result, rfl⟩ := parse_ok lexed run
  obtain ⟨scanned, scan, rfl⟩ := map_ok lexed
  have faithful := lexRun_faithful scan
  have ends : (Parser.mk src scanned.tokens (nodeCapFor scanned.tokens)).EndsWithEof :=
    Parser.endsWithEof_of_faithful faithful
  obtain ⟨rfl, file⟩ := wp_ok (Parser.parseFile_spec ends) result
  exact file.wellFormed faithful terminated

theorem parse_accepts {src : List UInt8} (accepted : (parse src).toOption.isSome = true) :
    ∃ ast features, parse src = .ok (ast, features) := by
  cases run : parse src with
  | error diag => simp [run, Except.toOption] at accepted
  | ok result => exact ⟨result.1, result.2, rfl⟩

theorem parse_wellFormed_semicolon : ∃ ast features, parse (bytesOf "fn f() { assert a; }") = .ok (ast, features) ∧
    ast.WellFormed (bytesOf "fn f() { assert a; }").length := by
  obtain ⟨ast, features, run⟩ := parse_accepts (show (parse (bytesOf "fn f() { assert a; }")).toOption.isSome = true by
    decide +kernel)
  have lexed : lex (bytesOf "fn f() { assert a; }") = .ok [⟨.FN, 0, 2⟩, ⟨.IDENT, 3, 4⟩, ⟨.LPAREN, 4, 5⟩, ⟨.RPAREN, 5, 6⟩,
      ⟨.LBRACE, 7, 8⟩, ⟨.ASSERT, 9, 15⟩, ⟨.IDENT, 16, 17⟩, ⟨.SEMICOLON, 17, 18⟩, ⟨.RBRACE, 19, 20⟩, ⟨.SEMICOLON, 20, 20⟩,
      ⟨.EOF, 20, 20⟩] := by decide +kernel
  exact ⟨ast, features, run, parse_wellFormed lexed (by decide) run⟩

/-- Without the semicolon the node of the statement ends with its keyword, and its operand stands behind it. -/
theorem parse_assert_brace : ∃ ast features, parse (bytesOf "fn f() { assert a }") = .ok (ast, features) ∧
    ¬ast.WellFormed (bytesOf "fn f() { assert a }").length := by
  have found : (parse (bytesOf "fn f() { assert a }")).toOption.all (fun r =>
      r.1.inTable 3 ∧ (r.1.node 3).firstChild = 4 ∧ (r.1.node 3).stop < (r.1.node 4).stop) = true := by decide +kernel
  obtain ⟨ast, features, run⟩ := parse_accepts (show (parse (bytesOf "fn f() { assert a }")).toOption.isSome = true by
    decide +kernel)
  simp only [run, Except.toOption, Option.all_some, decide_eq_true_eq] at found
  obtain ⟨inside, first, beyond⟩ := found
  refine ⟨ast, features, run, fun wellFormed => ?_⟩
  have child : ast.IsChild 3 4 := ⟨inside, by omega, first ▸ .refl⟩
  have contained := (wellFormed.contained 3 4 child).2
  omega

end HopHop
