import HopHop.MirExprShape

namespace HopHop

/-! The builder appends the postfix code of the expression as long as it supports it. -/

/-- Where the expression is still supported after the building, it was before, and the building has appended a
piece of code that fits the answer, inside the capacity. -/
def Emits {α : Type} (cap : Nat) (x : Build α) (fits : α → List MirInst → Prop) : Prop :=
  ∀ b a b', x b = .ok a b' → b'.supported = true →
    b.supported = true ∧ (b.v.length ≤ cap → b'.v.length ≤ cap) ∧ ∃ c, fits a c ∧ b'.v = b.v ++ c

section Rules

variable {α β : Type} {cap : Nat}

theorem Emits.mono {x : Build α} {fits fits' : α → List MirInst → Prop} (emits : Emits cap x fits)
    (weaker : ∀ a c, fits a c → fits' a c) : Emits cap x fits' := by
  intro b a b' done supported
  obtain ⟨before, room, c, fit, code⟩ := emits b a b' done supported
  exact ⟨before, room, c, weaker a c fit, code⟩

theorem Emits.pure (a : α) : Emits cap (pure a) fun a' c => a' = a ∧ c = [] := by
  intro b a' b' done supported
  cases done
  exact ⟨supported, id, [], ⟨rfl, rfl⟩, (List.append_nil _).symm⟩

/-- The rest of the work is asked for what the whole has to fit, behind each piece the first part may append. -/
theorem Emits.bind {x : Build α} {f : α → Build β} {fits : α → List MirInst → Prop} {goal : β → List MirInst → Prop}
    (first : Emits cap x fits) (rest : ∀ a, Emits cap (f a) fun d c' => ∀ c, fits a c → goal d (c ++ c')) :
    Emits cap (x >>= f) goal := by
  intro b d b' done supported
  change EStateM.bind x f b = _ at done
  unfold EStateM.bind at done
  cases run : x b with
  | error stop mid => rw [run] at done; cases done
  | ok a mid =>
    rw [run] at done
    obtain ⟨midSupported, midRoom, c₂, fit₂, code₂⟩ := rest a mid d b' done supported
    obtain ⟨before, room, c₁, fit₁, code₁⟩ := first b a mid run midSupported
    refine ⟨before, fun start => midRoom (room start), c₁ ++ c₂, fit₂ c₁ fit₁, ?_⟩
    rw [code₂, code₁, List.append_assoc]

theorem Emits.ite {c : Prop} [Decidable c] {x y : Build α} {fits : α → List MirInst → Prop}
    (yes : c → Emits cap x fits) (no : ¬c → Emits cap y fits) : Emits cap (if c then x else y) fits := by
  by_cases holds : c
  · rw [if_pos holds]; exact yes holds
  · rw [if_neg holds]; exact no holds

theorem emits_error {stop : BuildStop} {fits : α → List MirInst → Prop} :
    Emits cap (throw stop) fits := nofun

theorem emits_unsupported {fits : Unit → List MirInst → Prop} : Emits cap setUnsupported fits := by
  intro b a b' done supported
  cases done
  cases supported

theorem emits_unsupported_pure {a : α} {fits : α → List MirInst → Prop} :
    Emits cap (do setUnsupported; pure a) fits := by
  intro b a' b' done supported
  cases done
  cases supported

theorem emitInstEx_emits (op : MirOp) (tok : UInt16) (aux : UInt32) (start stop : Nat) :
    Emits cap (emitInstEx cap op tok aux start stop) fun _ c =>
      c = [⟨op, tok, aux, UInt32.ofNat start, UInt32.ofNat stop⟩] := by
  intro b a b' done supported
  unfold emitInstEx at done
  split at done
  · rename_i refused
    cases done
    rw [supported] at refused
    cases refused
  · rename_i accepted
    split at done
    · cases done
    · rename_i room
      cases done
      refine ⟨supported, fun _ => ?_, _, rfl, rfl⟩
      rw [List.length_append]
      exact Nat.not_le.mp room

end Rules

section

variable (ast : Ast) (src : List UInt8) (cap : Nat) {rec : Int → Build Unit} {codeOf : Int → Option (List MirInst)}

/-- The code of a node's operands and the instruction that combines them. -/
def NodeCode (codeOf : Int → Option (List MirInst)) (shape : Option (Combine × List Int)) (c : List MirInst) : Prop :=
  ∃ k ns cs, shape = some (k, ns) ∧ PostfixCode.codeAll codeOf ns = some cs ∧ c = cs ++ [k.inst ns.length]

variable (operand : ∀ n, Emits cap (rec n) fun _ c => codeOf n = some c)

include operand

theorem buildElems_emits (room : Nat) (child : Int) :
    Emits cap (buildElems ast rec room child) fun left c =>
      ∃ ns r, left = some r ∧ siblings ast room child = some ns ∧ r + ns.length = room ∧
        PostfixCode.codeAll codeOf ns = some c := by
  induction room generalizing child with
  | zero =>
    unfold buildElems siblings
    refine .ite (fun last => ?_) fun more => ?_
    · refine (Emits.pure _).mono fun left c parts => ?_
      obtain ⟨rfl, rfl⟩ := parts
      exact ⟨[], 0, rfl, if_pos last, rfl, rfl⟩
    · exact (operand child).bind fun _ => emits_unsupported_pure
  | succ room ih =>
    unfold buildElems siblings
    refine .ite (fun last => ?_) fun more => ?_
    · refine (Emits.pure _).mono fun left c parts => ?_
      obtain ⟨rfl, rfl⟩ := parts
      exact ⟨[], room + 1, rfl, if_pos last, rfl, rfl⟩
    · refine (operand child).bind fun _ => (ih (ast.node child).nextSibling).mono ?_
      intro left c₂ parts c₁ head
      obtain ⟨ns, r, rfl, chain, count, tail⟩ := parts
      refine ⟨child :: ns, r, rfl, ?_, ?_, ?_⟩
      · rw [if_neg more]
        exact congrArg (Option.map (child :: ·)) chain
      · rw [List.length_cons]
        omega
      · rw [PostfixCode.codeAll, head, tail]
        rfl

theorem buildCallArgs_emits (room : Nat) (arg : Int) (spread : Bool) :
    Emits cap (buildCallArgs ast rec room arg spread) fun answer c =>
      ∃ ns r last, answer = some (r, last) ∧ callOperands ast room arg spread = some (ns, last) ∧
        r + ns.length = room ∧ PostfixCode.codeAll codeOf ns = some c := by
  induction room generalizing arg spread with
  | zero =>
    unfold buildCallArgs callOperands
    refine .ite (fun none => ?_) fun more => ?_
    · refine (Emits.pure _).mono fun answer c parts => ?_
      obtain ⟨rfl, rfl⟩ := parts
      exact ⟨[], 0, spread, rfl, if_pos none, rfl, rfl⟩
    · cases callArg ast arg with
      | none => exact emits_unsupported_pure
      | some parts =>
        refine .ite (fun _ => emits_unsupported_pure) fun _ => ?_
        exact (operand parts.1).bind fun _ => emits_unsupported_pure
  | succ room ih =>
    unfold buildCallArgs callOperands
    refine .ite (fun none => ?_) fun more => ?_
    · refine (Emits.pure _).mono fun answer c parts => ?_
      obtain ⟨rfl, rfl⟩ := parts
      exact ⟨[], room + 1, spread, rfl, if_pos none, rfl, rfl⟩
    · cases callArg ast arg with
      | none => exact emits_unsupported_pure
      | some parts =>
        obtain ⟨exprNode, isSpread⟩ := parts
        refine .ite (fun _ => emits_unsupported_pure) fun notLast => ?_
        refine (operand exprNode).bind fun _ => (ih (ast.node arg).nextSibling (spread || isSpread)).mono ?_
        intro answer c₂ parts c₁ head
        obtain ⟨ns, r, last, rfl, chain, count, tail⟩ := parts
        refine ⟨exprNode :: ns, r, last, rfl, ?_, ?_, ?_⟩
        · rw [if_neg more]
          simp only [if_neg notLast, chain, Option.map_some]
        · rw [List.length_cons]
          omega
        · rw [PostfixCode.codeAll, head, tail]
          rfl

omit operand in
theorem leaf_emits (k : Combine) {op : MirOp} {tok : UInt16} {aux : UInt32} {start stop : Nat}
    (same : k.inst 0 = ⟨op, tok, aux, UInt32.ofNat start, UInt32.ofNat stop⟩) :
    Emits cap (emitInstEx cap op tok aux start stop) fun _ => NodeCode codeOf (some (k, [])) := by
  refine (emitInstEx_emits op tok aux start stop).mono fun _ c code => ?_
  exact ⟨k, [], [], rfl, rfl, by rw [code, ← same]; rfl⟩

theorem single_emits (k : Combine) (n : Int) {op : MirOp} {tok : UInt16} {aux : UInt32} {start stop : Nat}
    (same : k.inst 1 = ⟨op, tok, aux, UInt32.ofNat start, UInt32.ofNat stop⟩) :
    Emits cap (do rec n; emitInstEx cap op tok aux start stop) fun _ => NodeCode codeOf (some (k, [n])) := by
  refine (operand n).bind fun _ => (emitInstEx_emits op tok aux start stop).mono ?_
  intro _ c₂ last c₁ head
  subst last
  refine ⟨k, [n], c₁, rfl, ?_, by rw [← same]; rfl⟩
  rw [PostfixCode.codeAll, head]
  exact congrArg some (List.append_nil c₁)

theorem pair_emits (k : Combine) (left right : Int) {op : MirOp} {tok : UInt16} {aux : UInt32} {start stop : Nat}
    (same : k.inst 2 = ⟨op, tok, aux, UInt32.ofNat start, UInt32.ofNat stop⟩) :
    Emits cap (do rec left; rec right; emitInstEx cap op tok aux start stop) fun _ =>
      NodeCode codeOf (some (k, [left, right])) := by
  refine (operand left).bind fun _ => (operand right).bind fun _ => (emitInstEx_emits op tok aux start stop).mono ?_
  intro _ c₃ last c₂ second c₁ head
  subst last
  refine ⟨k, [left, right], c₁ ++ c₂, rfl, ?_, by rw [← same, List.append_assoc]; rfl⟩
  rw [PostfixCode.codeAll, PostfixCode.codeAll, head, second]
  exact congrArg (fun c => some (c₁ ++ c)) (List.append_nil c₂)

variable {nodeId : Int} (inTable : ast.inTable nodeId)

include inTable

omit operand in
theorem buildSizeof_emits (kind : (ast.node nodeId).kind = .SIZEOF) :
    Emits cap (buildSizeof ast src cap (ast.node nodeId)) fun _ => NodeCode codeOf (exprShape ast src nodeId) := by
  unfold buildSizeof exprShape
  refine .ite (fun _ => emits_error) fun child => ?_
  simp only [kind, inTable, not_true_eq_false, if_false, child]
  cases if (ast.node nodeId).flags = 1 then builtinTypeSize ast src (ast.node nodeId).firstChild
    else inferExprSize ast src (ast.node nodeId).firstChild with
  | none => exact emits_unsupported
  | some bytes => exact leaf_emits cap _ rfl

theorem buildTuple_emits (kind : (ast.node nodeId).kind = .TUPLE_EXPR ∨ (ast.node nodeId).kind = .ARRAY_LIT) :
    Emits cap (buildTuple ast cap rec nodeId (ast.node nodeId)) fun _ =>
      NodeCode codeOf (exprShape ast src nodeId) := by
  unfold buildTuple
  refine (buildElems_emits ast cap operand uint16Max _).bind fun left => ?_
  cases left with
  | none =>
    refine (Emits.pure ()).mono fun _ _ _ c elems => ?_
    obtain ⟨_, _, impossible, _⟩ := elems
    cases impossible
  | some r =>
    refine .ite (fun _ => emits_unsupported) fun nonempty => (emitInstEx_emits _ _ _ _ _).mono ?_
    intro _ c₂ last c elems
    subst last
    obtain ⟨ns, _, same, chain, count, operands⟩ := elems
    cases same
    have length : uint16Max - r = ns.length := by omega
    refine ⟨⟨.tuple, nodeOperand nodeId, _, _⟩, ns, c, ?_, operands, by rw [length]; rfl⟩
    unfold exprShape
    rcases kind with tuple | array
    · have some : ns ≠ [] := fun none => nonempty ⟨tuple, by rw [length, none]; rfl⟩
      simp only [tuple, inTable, not_true_eq_false, if_false, chain, Option.bind_some, if_neg some]
      rfl
    · simp only [array, inTable, not_true_eq_false, if_false, chain, Option.map_some]
      rfl

theorem buildUnary_emits (kind : (ast.node nodeId).kind = .UNARY) :
    Emits cap (buildUnary cap rec (ast.node nodeId)) fun _ => NodeCode codeOf (exprShape ast src nodeId) := by
  unfold buildUnary exprShape
  refine .ite (fun _ => emits_unsupported) fun allowed => .ite (fun _ => emits_error) fun child => ?_
  simp only [kind, inTable, not_true_eq_false, if_false, if_neg (not_or.mpr ⟨allowed, child⟩)]
  exact single_emits cap operand _ _ rfl

theorem buildBinary_emits (kind : (ast.node nodeId).kind = .BINARY) :
    Emits cap (buildBinary ast cap rec (ast.node nodeId)) fun _ => NodeCode codeOf (exprShape ast src nodeId) := by
  unfold buildBinary exprShape
  refine .ite (fun _ => emits_unsupported) fun allowed => .ite (fun _ => emits_error) fun children => ?_
  have left : 0 ≤ (ast.node nodeId).firstChild := Int.not_lt.mp fun none => children (.inl none)
  rw [if_pos left] at children
  simp only [kind, inTable, not_true_eq_false, if_false, if_neg (not_or.mpr ⟨allowed, children⟩), if_pos left]
  exact pair_emits cap operand _ _ _ rfl

theorem buildField_emits (kind : (ast.node nodeId).kind = .FIELD_EXPR) :
    Emits cap (buildField cap rec (ast.node nodeId)) fun _ => NodeCode codeOf (exprShape ast src nodeId) := by
  unfold buildField exprShape
  refine .ite (fun _ => emits_error) fun child => ?_
  simp only [kind, inTable, not_true_eq_false, if_false, if_neg child]
  exact single_emits cap operand _ _ rfl

omit operand inTable in
/-- The check of two children is that of the builder. -/
theorem twoChildren_of_check {n : AstNode} {second : Int}
    (second_eq : second = if 0 ≤ n.firstChild then (ast.node n.firstChild).nextSibling else -1)
    (check : ¬(n.firstChild < 0 ∨ second < 0 ∨ 0 ≤ (ast.node second).nextSibling)) :
    twoChildren ast n = some (n.firstChild, second) := by
  have left : 0 ≤ n.firstChild := Int.not_lt.mp fun none => check (.inl none)
  rw [if_pos left] at second_eq
  subst second_eq
  unfold twoChildren
  exact if_neg check

theorem buildCast_emits (kind : (ast.node nodeId).kind = .CAST) :
    Emits cap (buildCast ast src cap rec (ast.node nodeId)) fun _ => NodeCode codeOf (exprShape ast src nodeId) := by
  unfold buildCast exprShape
  refine .ite (fun _ => emits_error) fun check => .ite (fun _ => emits_unsupported) fun target => ?_
  simp only [kind, inTable, not_true_eq_false, if_false, twoChildren_of_check ast rfl check, Option.bind_some,
    if_neg target]
  exact single_emits cap operand _ _ rfl

omit inTable in
theorem buildBound_emits (n : AstNode) (has : Bool) (idxNode : Int) :
    Emits cap (buildBound ast rec n has idxNode) fun next c =>
      ∃ ns, sliceBound ast has idxNode = some (ns, next) ∧ PostfixCode.codeAll codeOf ns = some c := by
  unfold buildBound sliceBound
  refine .ite (fun absent => ?_) fun present => .ite (fun _ => emits_error) fun given => ?_
  · refine (Emits.pure idxNode).mono fun next c parts => ?_
    obtain ⟨rfl, rfl⟩ := parts
    exact ⟨[], if_pos absent, rfl⟩
  · refine (operand idxNode).bind fun _ => (Emits.pure _).mono fun next c parts c₁ head => ?_
    obtain ⟨rfl, rfl⟩ := parts
    refine ⟨[idxNode], by rw [if_neg present, if_neg given], ?_⟩
    rw [PostfixCode.codeAll, head]
    rfl

theorem buildSlice_emits (kind : (ast.node nodeId).kind = .INDEX)
    (slice : (ast.node nodeId).has AstFlag.INDEX_SLICE) :
    Emits cap (buildSlice ast cap rec (ast.node nodeId)) fun _ => NodeCode codeOf (exprShape ast src nodeId) := by
  unfold buildSlice
  refine .ite (fun _ => emits_error) fun base => (operand _).bind fun _ => ?_
  refine (buildBound_emits ast cap operand _ _ _).bind fun next => ?_
  refine (buildBound_emits ast cap operand _ _ next).bind fun last => ?_
  refine .ite (fun _ => emits_error) fun done => (emitInstEx_emits _ _ _ _ _).mono ?_
  intro _ c code c₃ stop c₂ start c₁ head
  subst code
  obtain ⟨starts, atStart, startCode⟩ := start
  obtain ⟨stops, atStop, stopCode⟩ := stop
  have operands : sliceOperands ast (ast.node nodeId) = some ((ast.node nodeId).firstChild :: (starts ++ stops)) := by
    unfold sliceOperands
    rw [atStart]
    simp only [Option.bind_eq_bind, Option.bind_some, atStop, if_neg (not_or.mpr ⟨base, done⟩)]
  unfold exprShape
  simp only [kind, inTable, not_true_eq_false, if_false, if_pos slice, operands, Option.map_some]
  refine ⟨_, _, c₁ ++ (c₂ ++ c₃), rfl, ?_, by simp only [List.append_assoc]; rfl⟩
  rw [PostfixCode.codeAll, head, PostfixCode.codeAll_append startCode stopCode]
  rfl

theorem buildIndex_emits (kind : (ast.node nodeId).kind = .INDEX) :
    Emits cap (buildIndex ast cap rec (ast.node nodeId)) fun _ => NodeCode codeOf (exprShape ast src nodeId) := by
  unfold buildIndex
  refine .ite (fun slice => buildSlice_emits ast src cap operand inTable kind slice) fun plain => ?_
  refine .ite (fun _ => emits_error) fun check => ?_
  unfold exprShape
  simp only [kind, inTable, not_true_eq_false, if_false, if_neg plain, twoChildren_of_check ast rfl check,
    Option.map_some]
  exact pair_emits cap operand _ _ _ rfl

omit operand inTable in
/-- The instruction chosen for a call is the one of its action. -/
theorem emitCall_eq (nodeId : Int) (callee : AstNode) (receiver : Bool) (argc : Nat) (spread : Bool) :
    let k : Combine := ⟨callAction src callee receiver argc spread, nodeOperand nodeId, UInt32.ofNat callee.dataStart,
      UInt32.ofNat callee.dataEnd⟩
    Emits cap (emitCall src cap nodeId callee receiver argc spread) fun _ c => c = [k.inst argc] := by
  intro k
  unfold emitCall
  refine .ite (fun len => ?_) fun notLen => .ite (fun cstr => ?_) fun notCStr => ?_
  · have action : callAction src callee receiver argc spread = .seqLen := if_pos len
    refine (emitInstEx_emits _ _ _ _ _).mono fun _ c code => ?_
    simp only [code, k, action]
    rfl
  · have action : callAction src callee receiver argc spread = .cstr := by
      unfold callAction
      rw [if_neg notLen, if_pos cstr]
    refine (emitInstEx_emits _ _ _ _ _).mono fun _ c code => ?_
    simp only [code, k, action]
    rfl
  · have action : callAction src callee receiver argc spread = .call receiver spread := by
      unfold callAction
      rw [if_neg notLen, if_neg notCStr]
    refine (emitInstEx_emits _ _ _ _ _).mono fun _ c code => ?_
    simp only [code, k, action]
    rfl

omit inTable in
theorem buildReceiver_emits (receiver : Bool) (callee : AstNode) :
    Emits cap (buildReceiver rec receiver callee) fun _ c =>
      PostfixCode.codeAll codeOf (receiverOperand receiver callee) = some c := by
  unfold buildReceiver receiverOperand
  cases receiver with
  | false => exact (Emits.pure ()).mono fun _ c parts => congrArg some parts.2.symm
  | true =>
    refine (operand callee.firstChild).mono fun _ c head => ?_
    rw [if_pos rfl, PostfixCode.codeAll, head]
    exact congrArg some (List.append_nil c)

omit operand inTable in
/-- The receiver takes the place of one argument. -/
theorem receiver_room (receiver : Bool) (callee : AstNode) :
    (if receiver then uint16Max - 1 else uint16Max) + (receiverOperand receiver callee).length = uint16Max := by
  cases receiver <;> rfl

theorem buildCall_emits (kind : (ast.node nodeId).kind = .CALL) :
    Emits cap (buildCall ast src cap rec nodeId (ast.node nodeId)) fun _ =>
      NodeCode codeOf (exprShape ast src nodeId) := by
  have shape : exprShape ast src nodeId = callShape ast src nodeId (ast.node nodeId) := by
    unfold exprShape
    simp only [kind, inTable, not_true_eq_false, if_false]
  rw [shape]
  unfold buildCall callShape
  refine .ite (fun _ => emits_unsupported) fun callee => ?_
  simp only [if_neg callee]
  refine .ite (fun lazy => ?_) fun eager => ?_
  · simp only [if_pos lazy]
    refine (emitCall_eq src cap nodeId _ false 0 false).mono fun _ c code => ?_
    exact ⟨_, [], [], rfl, rfl, code⟩
  · simp only [if_neg eager]
    refine (buildReceiver_emits cap operand _ _).bind fun _ => ?_
    refine (buildCallArgs_emits ast cap operand _ _ _).bind fun answer => ?_
    cases answer with
    | none =>
      refine (Emits.pure ()).mono fun _ _ _ c args => ?_
      obtain ⟨_, _, _, impossible, _⟩ := args
      cases impossible
    | some parts =>
      obtain ⟨r, spread⟩ := parts
      refine (emitCall_eq src cap nodeId _ _ _ spread).mono ?_
      intro _ c code c₂ args c₁ receiver
      subst code
      obtain ⟨ns, _, _, same, chain, count, operands⟩ := args
      cases same
      have argc : uint16Max - r = (receiverOperand (decide ((ast.node (ast.node nodeId).firstChild).kind = .FIELD_EXPR))
          (ast.node (ast.node nodeId).firstChild) ++ ns).length := by
        have room := receiver_room (decide ((ast.node (ast.node nodeId).firstChild).kind = .FIELD_EXPR))
          (ast.node (ast.node nodeId).firstChild)
        rw [List.length_append]
        omega
      rw [argc]
      simp only [chain, Option.map_some]
      exact ⟨_, _, c₁ ++ c₂, rfl, PostfixCode.codeAll_append receiver operands, (List.append_assoc _ _ _).symm⟩

theorem buildShape_emits :
    Emits cap (buildShape ast src cap rec nodeId (ast.node nodeId)) fun _ =>
      NodeCode codeOf (exprShape ast src nodeId) := by
  unfold buildShape
  split
  case h_8 kind => exact buildSizeof_emits ast src cap inTable kind
  case h_9 kind => exact buildTuple_emits ast src cap operand inTable (.inl kind)
  case h_10 kind => exact buildTuple_emits ast src cap operand inTable (.inr kind)
  case h_11 kind => exact buildCall_emits ast src cap operand inTable kind
  case h_12 kind => exact buildUnary_emits ast src cap operand inTable kind
  case h_13 kind => exact buildBinary_emits ast src cap operand inTable kind
  case h_14 kind => exact buildIndex_emits ast src cap operand inTable kind
  case h_15 kind => exact buildField_emits ast src cap operand inTable kind
  case h_16 kind => exact buildCast_emits ast src cap operand inTable kind
  case h_17 => exact emits_unsupported
  all_goals
    rename_i kind
    unfold exprShape
    simp only [kind, inTable, not_true_eq_false, if_false]
    exact leaf_emits cap _ rfl

end

section

variable (ast : Ast) (src : List UInt8) (cap : Nat)

/-- The code of an expression node, by its shape. -/
def exprCode (treeDepth : Nat) (nodeId : Int) : Option (List MirInst) :=
  PostfixCode.code (exprShape ast src) Combine.inst treeDepth nodeId

/-- Where the builder still supports the expression, it has appended the code of the node. -/
theorem buildExprNode_emits (treeDepth : Nat) (nodeId : Int) :
    Emits cap (buildExprNode ast src cap treeDepth nodeId) fun _ c => exprCode ast src treeDepth nodeId = some c := by
  induction treeDepth generalizing nodeId with
  | zero => exact emits_error
  | succ treeDepth ih =>
    intro b a b' done supported
    change (if (!b.supported) = true then (pure () : Build Unit)
      else if ¬ast.inTable nodeId then buildError .EXPECTED_EXPR 0 0
      else buildShape ast src cap (buildExprNode ast src cap treeDepth) nodeId (ast.node nodeId)) b = .ok a b' at done
    split at done
    · rename_i unsupported
      cases done
      rw [supported] at unsupported
      cases unsupported
    · split at done
      · cases done
      · rename_i inTable
        have inTable := Decidable.not_not.mp inTable
        obtain ⟨before, room, c, ⟨k, ns, cs, shape, operands, rfl⟩, code⟩ :=
          buildShape_emits ast src cap ih inTable b a b' done supported
        refine ⟨before, room, _, ?_, code⟩
        unfold exprCode PostfixCode.code
        rw [shape]
        exact congrArg (Option.map (· ++ [k.inst ns.length])) operands

/-- A supported expression has a code, and its chunk is that code and a return; the chunk leaves room below 2^32
for one more instruction. -/
theorem buildExpr_some {arenaHasRoom : Bool} {treeDepth : Nat} {nodeId : Int} {chunk : List MirInst}
    (built : buildExpr ast src arenaHasRoom treeDepth nodeId = .ok (some chunk)) :
    ∃ c, exprCode ast src treeDepth nodeId = some c ∧ chunk.length + 1 < UInt32.size ∧
      chunk = c ++ [⟨.RETURN, TokenKind.EOF.code, 0, UInt32.ofNat (ast.node nodeId).start,
        UInt32.ofNat (ast.node nodeId).stop⟩] := by
  unfold buildExpr at built
  have capLt : (UInt32.ofNat ast.len * 4 + 8).toNat + 1 < UInt32.size := by
    have size : UInt32.size = 2 ^ 32 := rfl
    rw [UInt32.toNat_add, UInt32.toNat_mul]
    change (_ * 4 % 2 ^ 32 + 8) % 2 ^ 32 + 1 < _
    omega
  generalize (UInt32.ofNat ast.len * 4 + 8).toNat = cap at built capLt
  split at built
  · cases built
  · cases run : buildExprNode ast src cap treeDepth nodeId ⟨[], true⟩ with
    | error stop b =>
      simp only [run] at built
      cases built
    | ok a b =>
      simp only [run] at built
      split at built
      · cases built
      · rename_i support
        have supported : b.supported = true := by simpa using support
        obtain ⟨_, room, c, coded, code⟩ := buildExprNode_emits ast src cap treeDepth nodeId _ _ _ run supported
        cases last : emitInst cap .RETURN .EOF (ast.node nodeId).start (ast.node nodeId).stop b with
        | error stop b' =>
          simp only [last] at built
          cases built
        | ok a b' =>
          simp only [last, Except.ok.injEq, Option.some.injEq] at built
          subst built
          unfold emitInst emitInstEx at last
          rw [if_neg (by rw [supported]; exact Bool.false_ne_true)] at last
          split at last
          · cases last
          · rename_i below
            cases last
            refine ⟨c, coded, ?_, ?_⟩
            · rw [List.length_append, List.length_singleton]
              omega
            · rw [code]
              rfl

end

end HopHop
