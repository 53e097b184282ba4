import HopHop.ParserQuiet

namespace HopHop

set_option synthInstance.maxSize 4000

open Prog

/-! Expressions, statements, declarations and files leave the diagnostic as it is when they are parsed. -/

namespace Parser

section
variable {p : Parser} {enter : Enter} [∀ production, p.Quiet noDiag (enter production)]

/-! ### Expressions -/

instance (field : Nat) : p.Quiet noDiag (p.parseFieldPath field) := by dsimp only [parseFieldPath]; infer_instance

instance (close : TokenKind) : p.Quiet noDiag (p.moreItems close) := by dsimp only [moreItems]; infer_instance

instance (lit : Nat) : p.Quiet noDiag (p.parseCompoundField enter lit) := by
  dsimp only [parseCompoundField]; infer_instance

instance (typeNode : Option Nat) : p.Quiet noDiag (p.parseCompoundLiteralTail enter typeNode) := by
  dsimp only [parseCompoundLiteralTail]
  refine .bind inferInstance fun lb => ?_
  cases typeNode <;> (dsimp only; infer_instance)

instance : p.Quiet noDiag (p.parseArrayLiteral enter) := by dsimp only [parseArrayLiteral]; infer_instance

instance : p.Quiet noDiag (p.parseAllocCount enter) := by dsimp only [parseAllocCount]; infer_instance

instance (n : Nat) : p.Quiet noDiag (p.parseAllocTarget enter n) := by
  dsimp only [parseAllocTarget]
  refine .of_get fun start _ => .bind inferInstance fun counted => .ite ?_ inferInstance
  refine .of_get fun saved quiet => .speculate .attempt (fun counted => inferInstance) ?_
  dsimp only
  rw [quiet]
  exact .bind rewind_secures fun _ => Preserving.keeps

instance : p.Quiet noDiag (p.parseAllocExpr enter) := by
  dsimp only [parseAllocExpr]
  refine .bind inferInstance fun kw => .bind inferInstance fun n => .bind inferInstance fun target => ?_
  obtain ⟨typeNode, countNode, initNode⟩ := target
  dsimp only
  infer_instance

instance (fnNode : Nat) : p.Quiet noDiag (fnHasVariadicParam fnNode) := by
  constructor
  intro s s' _ _ quiet run
  unfold fnHasVariadicParam at run
  split at run
  · cases run
  · cases run
    exact quiet

instance (isConstGroup : Bool) : p.Quiet noDiag (p.parseParamNames isConstGroup) := by
  dsimp only [parseParamNames]
  refine .loop (fun params => ?_) _ _
  refine .bind inferInstance fun name => .bind inferInstance fun param => .bind inferInstance fun _ => ?_
  cases params.getLast? <;> (dsimp only; infer_instance)

instance (single hasExistingVariadic : Bool) : p.Quiet noDiag (p.parseVariadicMark single hasExistingVariadic) := by
  dsimp only [parseVariadicMark]; infer_instance

instance (type : Nat) (isVariadic isConstGroup : Bool) (i param : Nat) :
    p.Quiet noDiag (p.setParamType type isVariadic isConstGroup i param) := by
  dsimp only [setParamType]; infer_instance

instance (fnNode : Nat) (allowMissingType : Bool) :
    p.Quiet noDiag (p.parseParamGroup enter fnNode allowMissingType) := by
  dsimp only [parseParamGroup]; infer_instance

instance (fnNode : Nat) (allowMissingType : Bool) : p.Quiet noDiag (p.parseParams enter fnNode allowMissingType) := by
  dsimp only [parseParams]; infer_instance

instance (fnNode : Nat) : p.Quiet noDiag (p.parseFnResult enter fnNode) := by
  dsimp only [parseFnResult]; infer_instance

instance : p.Quiet noDiag (p.parseBlock enter) := by dsimp only [parseBlock]; infer_instance

instance (fn : Nat) : p.Quiet noDiag (p.parseFnBody enter fn) := by dsimp only [parseFnBody]; infer_instance

instance : p.Quiet noDiag (p.parseAnonFnExpr enter) := by dsimp only [parseAnonFnExpr]; infer_instance

instance : p.Quiet noDiag (p.parseTypedLiteral enter) := by
  dsimp only [parseTypedLiteral]
  refine .of_get fun saved quiet => .speculate .attempt (fun typeNode => ?_) (giveUp_secures quiet)
  have back := restore_quiet (p := p) quiet
  dsimp only
  infer_instance

instance : p.Quiet noDiag (p.parseParen enter) := by dsimp only [parseParen]; infer_instance

/-- A type in the place of the operand of `sizeof` leaves no diagnostic where it is one. -/
theorem parseSizeofType_secures :
    Secures p.Clean (fun s => s.diag = noDiag) (p.parseSizeofType enter) fun r s => r ≠ none → s.diag = noDiag := by
  unfold parseSizeofType
  refine .bind .attempt fun r => ?_
  cases r with
  | none => exact .pure fun _ _ none => absurd rfl none
  | some inner =>
    have closed : p.Quiet noDiag (do
        if ← p.isAt .RPAREN then Pure.pure (some inner) else Pure.pure none) := inferInstance
    exact closed.keeps.mono (fun _ quiet => quiet nofun) fun _ _ quiet _ => quiet

/-- Going back to the operand of `sizeof` clears the diagnostic. -/
instance : p.Quiet noDiag (p.parseSizeof enter) := by
  dsimp only [parseSizeof]
  refine .bind inferInstance fun kw => .bind inferInstance fun lp => .bind inferInstance fun n => ?_
  refine .of_get fun saved _ => .speculate parseSizeofType_secures (fun inner => inferInstance) ?_
  have rest : p.Quiet noDiag (do
      let inner ← enter (.expr 1)
      p.setFlags n 0
      p.addChild n inner
      let rp ← p.expect .RPAREN .EXPECTED_EXPR
      p.setEnd n rp.stop
      Pure.pure n) := inferInstance
  exact .bind rewind_secures fun _ => rest.keeps

instance : p.Quiet noDiag (p.parseTypeValue enter) := by dsimp only [parseTypeValue]; infer_instance

instance : p.Quiet noDiag (p.parseStructLiteral enter) := by dsimp only [parseStructLiteral]; infer_instance

instance : p.Quiet noDiag (p.parsePrimaryToken enter) := by
  dsimp only [parsePrimaryToken]
  refine .bind inferInstance fun t => .bind inferInstance fun s => .ite inferInstance ?_
  refine .bind inferInstance fun _ => .ite inferInstance (.ite inferInstance (.ite inferInstance ?_))
  cases literalKind t.kind <;> (dsimp only; infer_instance)

instance : p.Quiet noDiag (p.parsePrimary enter) := by
  dsimp only [parsePrimary]
  refine .bind inferInstance fun named => .ite (.bind inferInstance fun literal => ?_) inferInstance
  cases literal <;> (dsimp only; infer_instance)

instance (n : Nat) : p.Quiet noDiag (p.parseCallArg enter n) := by dsimp only [parseCallArg]; infer_instance

instance (kind : AstKind) (expr : Nat) : p.Quiet noDiag (p.newPostfix kind expr) := by
  dsimp only [newPostfix]; infer_instance

instance (n : Nat) (close : TokenKind) : p.Quiet noDiag (p.closePostfix n close) := by
  dsimp only [closePostfix]; infer_instance

instance (expr : Nat) : p.Quiet noDiag (p.parseCall enter expr) := by dsimp only [parseCall]; infer_instance

instance (n : Nat) : p.Quiet noDiag (p.parseSliceEnd enter n) := by dsimp only [parseSliceEnd]; infer_instance

instance (expr : Nat) : p.Quiet noDiag (p.parseIndex enter expr) := by dsimp only [parseIndex]; infer_instance

instance (expr : Nat) : p.Quiet noDiag (p.parseFieldAccess expr) := by dsimp only [parseFieldAccess]; infer_instance

instance (expr : Nat) : p.Quiet noDiag (p.parseCast enter expr) := by dsimp only [parseCast]; infer_instance

instance (expr : Nat) : p.Quiet noDiag (p.parsePostfixStep enter expr) := by
  dsimp only [parsePostfixStep]; infer_instance

instance (expr : Nat) : p.Quiet noDiag (p.parsePostfix enter expr) := by dsimp only [parsePostfix]; infer_instance

instance : p.Quiet noDiag (p.parsePrefix enter) := by dsimp only [parsePrefix]; infer_instance

instance (minPrec lhs : Nat) : p.Quiet noDiag (p.parseBinaryStep enter minPrec lhs) := by
  dsimp only [parseBinaryStep]; infer_instance

instance (minPrec : Nat) : p.Quiet noDiag (p.parseExpr enter minPrec) := by dsimp only [parseExpr]; infer_instance

/-! ### Statements -/

instance (kind : AstKind) (items : List Nat) : p.Quiet noDiag (p.buildListNode kind items) := by
  dsimp only [buildListNode]
  split <;> infer_instance

instance : p.Quiet noDiag (p.parseExprList enter) := by dsimp only [parseExprList]; infer_instance

instance (allowHole : Bool) : p.Quiet noDiag (p.parseDeclNameList allowHole) := by
  dsimp only [parseDeclNameList]; infer_instance

instance (names : List Token) : p.Quiet noDiag (p.newNameNodes names) := by
  induction names with
  | nil => dsimp only [newNameNodes]; infer_instance
  | cons name names ih => dsimp only [newNameNodes]; infer_instance

instance (names : List Token) : p.Quiet noDiag (p.buildNameListNode names) := by
  dsimp only [buildNameListNode]; infer_instance

instance : p.Quiet noDiag p.consumeStmtTerminator := by dsimp only [consumeStmtTerminator]; infer_instance

instance (n : Nat) : p.Quiet noDiag (p.finishStmt n) := by
  dsimp only [finishStmt]
  refine .bind inferInstance fun semi => ?_
  cases semi <;> (dsimp only; infer_instance)

instance (nameCount : Nat) : p.Quiet noDiag (p.parseInit enter nameCount) := by
  dsimp only [parseInit]; infer_instance

instance (stmtStart : Nat) (hole : Token) (requireSemi : Bool) :
    p.Quiet noDiag (p.parseDiscard enter stmtStart hole requireSemi) := by
  dsimp only [parseDiscard]; infer_instance

instance (names : List Token) : p.Quiet noDiag (p.parseTypeAndInit enter names) := by
  dsimp only [parseTypeAndInit]
  refine .bind inferInstance fun init => .ite inferInstance ?_
  cases p.firstHole names <;> (dsimp only; infer_instance)

instance (kind : AstKind) (requireSemi allowHole : Bool) :
    p.Quiet noDiag (p.parseVarLikeStmt enter kind requireSemi allowHole) := by
  dsimp only [parseVarLikeStmt]; infer_instance

instance : p.Quiet noDiag p.isShortAssignStart := by dsimp only [isShortAssignStart]; infer_instance

instance (requireSemi : Bool) : p.Quiet noDiag (p.parseShortAssignStmt enter requireSemi) := by
  dsimp only [parseShortAssignStmt]; infer_instance

instance : p.Quiet noDiag p.matchElse := by
  have back (saved : ParseState) : p.Quiet noDiag (Prog.modify fun s => { s with pos := saved.pos }) :=
    quiet_modify fun _ => rfl
  dsimp only [matchElse]
  infer_instance

instance : p.Quiet noDiag (p.parseIfStmt enter) := by
  dsimp only [parseIfStmt]
  refine .bind inferInstance fun kw => .bind inferInstance fun _ => .bind inferInstance fun cond => ?_
  refine .bind inferInstance fun thenBlock => .bind inferInstance fun thenNode => .bind inferInstance fun n => ?_
  refine .bind inferInstance fun _ => .bind inferInstance fun _ => .bind inferInstance fun elseHere => ?_
  exact .ite (.bind inferInstance fun ifHere => inferInstance) inferInstance

instance : p.Quiet noDiag p.parseForInKeyBinding := by dsimp only [parseForInKeyBinding]; infer_instance

instance : p.Quiet noDiag p.parseForInValueBinding := by dsimp only [parseForInValueBinding]; infer_instance

instance : p.Quiet noDiag (p.parseForInTail enter) := by dsimp only [parseForInTail]; infer_instance

instance : p.Quiet noDiag p.parseForInKey := by dsimp only [parseForInKey]; infer_instance

instance : p.Quiet noDiag (p.parseForInClause enter) := by
  dsimp only [parseForInClause]
  refine .of_get fun saved quiet => .speculate .attempt (fun key => inferInstance) ?_
  exact .bind (quiet ▸ rewind_secures) fun _ => Preserving.keeps

instance : p.Quiet noDiag (p.parseForInit enter) := by dsimp only [parseForInit]; infer_instance

instance (stop : TokenKind) : p.Quiet noDiag (p.parseOptionalExpr enter stop) := by
  dsimp only [parseOptionalExpr]; infer_instance

instance : p.Quiet noDiag (p.parseForClauses enter) := by dsimp only [parseForClauses]; infer_instance

instance : p.Quiet noDiag (p.parseForStmt enter) := by dsimp only [parseForStmt]; infer_instance

/-- A dotted name leaves no diagnostic where there is a name behind every dot. -/
theorem parseVariantPath_secures :
    Secures p.Clean (fun s => s.diag = noDiag) p.parseVariantPath fun r s => r ≠ none → s.diag = noDiag := by
  unfold parseVariantPath
  refine .bind Preserving.keeps fun firstSeg => .bind Preserving.keeps fun first => ?_
  refine .loop (fun _ (s : ParseState) => s.diag = noDiag) (fun path => ?_) _ _
  refine .bind Preserving.keeps fun dotted => .ite (fun _ => .bind .attempt fun r => ?_) fun _ => ?_
  · cases r with
    | none => exact .pure fun _ _ none => absurd rfl none
    | some seg =>
      have longer : p.Quiet noDiag (do
          let base ← p.node path.1
          let fieldExpr ← p.newNode .FIELD_EXPR base.start seg.stop
          p.addChild fieldExpr path.1
          p.setData fieldExpr seg
          Pure.pure (.inl (fieldExpr, true)) : Parse ((Nat × Bool) ⊕ Option (Nat × Bool))) := inferInstance
      refine longer.keeps.mono (fun _ quiet => quiet nofun) fun r _ quiet => ?_
      cases r with
      | inl path => exact quiet
      | inr found => exact fun _ => quiet
  · exact .pure fun _ quiet _ => quiet

theorem parseCaseAlias_secures :
    Secures p.Clean (fun s => s.diag = noDiag) p.parseCaseAlias fun r s => r ≠ none → s.diag = noDiag := by
  unfold parseCaseAlias
  refine .bind Preserving.keeps fun renamed => .ite (fun _ => .bind .attempt fun r => ?_) fun _ => ?_
  · cases r with
    | none => exact .pure fun _ _ none => absurd rfl none
    | some aliasTok =>
      have named : p.Quiet noDiag (do
          let aliasNode ← p.newLeaf .IDENT aliasTok
          Pure.pure (some (some aliasNode))) := inferInstance
      exact named.keeps.mono (fun _ quiet => quiet nofun) fun _ _ quiet _ => quiet
  · exact .pure fun _ quiet _ => quiet

instance (patternExpr : Nat) (aliasNode : Option Nat) : p.Quiet noDiag (p.newCasePattern patternExpr aliasNode) := by
  dsimp only [newCasePattern]; infer_instance

/-- A label leaves no diagnostic where it is a variant. -/
theorem parseVariantPattern_secures :
    Secures p.Clean (fun s => s.diag = noDiag) p.parseVariantPattern fun r s => r ≠ none → s.diag = noDiag := by
  have given (pre : ParseState → Prop) :
      Secures p.Clean pre (Pure.pure none) fun (r : Option Nat) s => r ≠ none → s.diag = noDiag :=
    .pure fun _ _ none => absurd rfl none
  unfold parseVariantPattern
  refine .bind Preserving.keeps fun named => ?_
  refine .ite (fun _ => .bind parseVariantPath_secures fun path => ?_) fun _ => given _
  match path with
  | none => exact given _
  | some (patternExpr, false) => exact given _
  | some (patternExpr, true) =>
    refine .bind (parseCaseAlias_secures.mono (fun _ quiet => quiet nofun) fun _ _ quiet => quiet) fun r => ?_
    cases r with
    | none => exact given _
    | some aliasNode =>
      have ended : p.Quiet noDiag (do
          let t ← p.peek
          if t.kind = .COMMA ∨ t.kind = .LBRACE then
            let patternNode ← p.newCasePattern patternExpr aliasNode
            Pure.pure (some patternNode)
          else Pure.pure none) := inferInstance
      exact ended.keeps.mono (fun _ quiet => quiet nofun) fun _ _ quiet _ => quiet

instance (caseNode : Nat) : p.Quiet noDiag (p.parseCaseLabel enter caseNode) := by
  dsimp only [parseCaseLabel]
  refine .of_get fun saved quiet => .speculate parseVariantPattern_secures (fun patternNode => inferInstance) ?_
  have rest : p.Quiet noDiag (do
      let patternExpr ← enter (.expr 1)
      let patternNode ← p.newCasePattern patternExpr none
      p.addChild caseNode patternNode) := inferInstance
  exact .bind (quiet ▸ rewind_secures) fun _ => rest.keeps

instance (sw clause : Nat) : p.Quiet noDiag (p.parseClauseBody enter sw clause) := by
  dsimp only [parseClauseBody]; infer_instance

instance (sw : Nat) (sawDefault : Bool) : p.Quiet noDiag (p.parseSwitchClause enter sw sawDefault) := by
  dsimp only [parseSwitchClause]; infer_instance

instance : p.Quiet noDiag (p.parseSwitchStmt enter) := by
  dsimp only [parseSwitchStmt]
  refine .bind inferInstance fun kw => .bind inferInstance fun _ => .bind inferInstance fun sw => ?_
  refine .bind inferInstance fun bare => .ite (.bind inferInstance fun subject => ?_) inferInstance
  infer_instance

instance (allowBody : Bool) : p.Quiet noDiag (p.parseFunDecl enter allowBody) := by
  dsimp only [parseFunDecl]
  refine .bind inferInstance fun kw => .bind inferInstance fun _ => .bind inferInstance fun name => ?_
  refine .bind inferInstance fun fn => .bind inferInstance fun _ => .bind inferInstance fun _ => ?_
  refine .bind inferInstance fun _ => .bind inferInstance fun _ => .bind inferInstance fun rp => ?_
  refine .bind inferInstance fun _ => .bind inferInstance fun body => .bind inferInstance fun ended => ?_
  exact .ite (.bind inferInstance fun _ => inferInstance) inferInstance

instance (fnNode : Nat) : p.Quiet noDiag (fnHasBody fnNode) := by
  constructor
  intro s s' _ _ quiet run
  unfold fnHasBody at run
  split at run
  · cases run
  · cases run
    exact quiet

instance : p.Quiet noDiag (p.parseLocalFn enter) := by dsimp only [parseLocalFn]; infer_instance

instance : p.Quiet noDiag (p.parseConstStmt enter) := by dsimp only [parseConstStmt]; infer_instance

instance : p.Quiet noDiag (p.parseReturnStmt enter) := by dsimp only [parseReturnStmt]; infer_instance

instance (kind : AstKind) : p.Quiet noDiag (p.parseJumpStmt kind) := by dsimp only [parseJumpStmt]; infer_instance

instance : p.Quiet noDiag (p.parseDeferStmt enter) := by dsimp only [parseDeferStmt]; infer_instance

instance : p.Quiet noDiag (p.parseAssertStmt enter) := by dsimp only [parseAssertStmt]; infer_instance

instance : p.Quiet noDiag (p.parseDeallocStmt enter) := by dsimp only [parseDeallocStmt]; infer_instance

instance (first : Nat) : p.Quiet noDiag (p.parseMultiAssign enter first) := by
  dsimp only [parseMultiAssign]; infer_instance

instance : p.Quiet noDiag (p.parseExprStmt enter) := by dsimp only [parseExprStmt]; infer_instance

instance : p.Quiet noDiag (p.parseStmt enter) := by
  dsimp only [parseStmt]
  refine .bind inferInstance fun t => ?_
  split <;> infer_instance

/-! ### Declarations -/

instance : p.Quiet noDiag (p.parseTypeAliasDecl enter) := by dsimp only [parseTypeAliasDecl]; infer_instance

instance (agg : Nat) (embeddedTypeName : Token) :
    p.Quiet noDiag (p.parseEmbeddedField enter agg embeddedTypeName) := by
  dsimp only [parseEmbeddedField]
  refine .bind inferInstance fun type => .bind inferInstance fun defaultExpr => ?_
  refine .bind inferInstance fun fieldType => .bind inferInstance fun field => ?_
  refine .bind inferInstance fun _ => .bind inferInstance fun _ => .bind inferInstance fun _ => ?_
  cases defaultExpr <;> (dsimp only; infer_instance)

instance (agg : Nat) : p.Quiet noDiag (p.parseNamedFields enter agg) := by
  dsimp only [parseNamedFields]; infer_instance

instance : p.Quiet noDiag p.endMember := by dsimp only [endMember]; infer_instance

instance (agg : Nat) : p.Quiet noDiag (p.parseAggregateMember enter agg) := by
  dsimp only [parseAggregateMember]
  refine .bind inferInstance fun t => .bind inferInstance fun s => .ite inferInstance (.ite inferInstance ?_)
  refine .ite inferInstance ?_
  cases p.anonymousFieldLookahead s.pos <;> (dsimp only; infer_instance)

instance (agg : Nat) : p.Quiet noDiag (p.parseAggregateMemberList enter agg) := by
  dsimp only [parseAggregateMemberList]; infer_instance

instance (n child : Nat) : p.Quiet noDiag (p.addLastChild n child) := by dsimp only [addLastChild]; infer_instance

instance (n : Nat) : p.Quiet noDiag (p.parseEnumItem enter n) := by dsimp only [parseEnumItem]; infer_instance

instance (n : Nat) : p.Quiet noDiag (p.parseEnumItems enter n) := by dsimp only [parseEnumItems]; infer_instance

instance : p.Quiet noDiag (p.parseAggregateDecl enter) := by dsimp only [parseAggregateDecl]; infer_instance

instance (n : Nat) : p.Quiet noDiag (p.parseImportAlias n) := by dsimp only [parseImportAlias]; infer_instance

instance : p.Quiet noDiag p.skipSeparators := by dsimp only [skipSeparators]; infer_instance

instance (n : Nat) : p.Quiet noDiag (p.parseImportSymbol n) := by
  dsimp only [parseImportSymbol]
  refine .bind inferInstance fun t => .ite inferInstance (.bind inferInstance fun symName => ?_)
  refine .bind inferInstance fun symNode => .bind inferInstance fun _ => .bind inferInstance fun renamed => ?_
  cases renamed <;> (dsimp only; infer_instance)

instance (n : Nat) : p.Quiet noDiag (p.parseImportSymbols n) := by dsimp only [parseImportSymbols]; infer_instance

instance (path : Token) : p.Quiet noDiag (p.noteFeature path) := by
  have noted : p.Quiet noDiag (Prog.modify fun s => { s with features := s.features ||| featureOptional }) :=
    quiet_modify fun _ => rfl
  dsimp only [noteFeature]
  split <;> infer_instance

instance : p.Quiet noDiag p.parseImport := by dsimp only [parseImport]; infer_instance

instance : p.Quiet noDiag p.parseDirectiveLiteral := by
  dsimp only [parseDirectiveLiteral]
  refine .bind inferInstance fun t => ?_
  cases literalKind t.kind <;> (dsimp only; infer_instance)

instance (directive : Nat) : p.Quiet noDiag (p.parseDirectiveArgs directive) := by
  dsimp only [parseDirectiveArgs]; infer_instance

instance : p.Quiet noDiag p.parseDirective := by dsimp only [parseDirective]; infer_instance

instance (allowBody : Bool) : p.Quiet noDiag (p.parseDeclInner enter allowBody) := by
  dsimp only [parseDeclInner]
  refine .bind inferInstance fun t => ?_
  split <;> infer_instance

instance (allowBody : Bool) : p.Quiet noDiag (p.parseDecl enter allowBody) := by
  dsimp only [parseDecl]; infer_instance

instance (production : Production) : p.Quiet noDiag (p.production enter production) := by
  cases production <;> (dsimp only [Parser.production]; infer_instance)

end

variable {p : Parser}

/-- However deep they nest, productions leave no diagnostic. -/
instance (room : Nat) (production : Production) : p.Quiet noDiag (p.enterFor room production) := by
  induction room generalizing production with
  | zero => exact ⟨fun _ _ _ _ _ => nofun⟩
  | succ room ih => dsimp only [enterFor]; infer_instance

instance (production : Production) : p.Quiet noDiag (p.enterAny production) := by
  dsimp only [enterAny]; infer_instance

instance (root : Nat) : p.Quiet noDiag (p.parseImports root) := by dsimp only [parseImports]; infer_instance

instance (root : Nat) : p.Quiet noDiag (p.parseDirectives root) := by dsimp only [parseDirectives]; infer_instance

instance (root : Nat) : p.Quiet noDiag (p.parseDecls root) := by dsimp only [parseDecls]; infer_instance

instance : p.Quiet noDiag p.parseFile := by dsimp only [parseFile]; infer_instance

end Parser

end HopHop
