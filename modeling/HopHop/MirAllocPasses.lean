import HopHop.Bytes
import HopHop.CTFELiteral
import HopHop.FmtShortVar
import HopHop.MirAllocKeeps

namespace HopHop

/-! The four passes over the allocations of a program, and the code of a count. -/

/-- A parsed file, as the passes see it. -/
structure MirFile where
  source : List UInt8
  ast : Ast

def sliceOf (source : List UInt8) (start stop : Nat) : List UInt8 := (source.drop start).take (stop - start)

def astFirstChild (ast : Ast) (nodeId : Int) : Int :=
  if ast.inTable nodeId then (ast.node nodeId).firstChild else -1

def astNextSibling (ast : Ast) (nodeId : Int) : Int :=
  if ast.inTable nodeId then (ast.node nodeId).nextSibling else -1

structure AllocExprNodes where
  typeNode : Int
  countNode : Int
  initNode : Int
  allocNode : Int
  deriving DecidableEq, Repr

/-- The child a flag says is there, and the one after it. -/
def takeAllocChild (ast : Ast) (present : Bool) (nextNode : Int) : Option (Int × Int) :=
  if present then
    if nextNode < 0 then none else some (nextNode, astNextSibling ast nextNode)
  else some (-1, nextNode)

/-- The children of an allocation: its type, then those its flags say are there, and no others. -/
def decodeAllocExprNodes (ast : Ast) (nodeId : Int) : Option AllocExprNodes :=
  let n := ast.node nodeId
  let typeNode := astFirstChild ast nodeId
  if ¬ ast.inTable nodeId ∨ n.kind ≠ .ALLOC ∨ typeNode < 0 then none
  else do
    let (countNode, nextNode) ← takeAllocChild ast (n.has AstFlag.ALLOC_HAS_COUNT) (astNextSibling ast typeNode)
    let (initNode, nextNode) ← takeAllocChild ast (n.has AstFlag.ALLOC_HAS_INIT) nextNode
    let (allocNode, nextNode) ← takeAllocChild ast (n.has AstFlag.ALLOC_HAS_EXPLICIT_ALLOCATOR) nextNode
    if nextNode < 0 then some ⟨typeNode, countNode, initNode, allocNode⟩ else none

/-- The node an allocation instruction names. -/
def MirInst.allocNode (ins : MirInst) : Int := ins.aux.toInt32.toInt

def MirInst.hasTok (ins : MirInst) (flag : UInt32) : Bool := ins.tok &&& flag.toUInt16 ≠ 0

/-- The first local of the function with the name that the source has there. -/
def findMirFunctionLocalBySlice (locals : List MirLocal) (source : List UInt8) (nameStart nameEnd : Nat) : Option Nat :=
  if nameEnd < nameStart then none
  else locals.findIdx? fun l =>
    l.nameStart ≤ l.nameEnd ∧ l.nameEnd.toNat - l.nameStart.toNat = nameEnd - nameStart ∧
      sliceOf source l.nameStart.toNat l.nameEnd.toNat = sliceOf source nameStart nameEnd

/-- The same reading of a numeral as `parseIntLiteral`. -/
def parseMirIntLiteral (source : List UInt8) (start stop : Nat) : Option Int64 := parseIntLiteral source start stop

/-- The index of the first constant that passes the test, of an added one where there is none. -/
def ensureMirConst (test : MirConst → Bool) (added : MirConst) (t : MirTables) : UInt32 × MirTables :=
  match t.consts.findIdx? test with
  | some i => (UInt32.ofNat i, t)
  | none => (UInt32.ofNat t.consts.length, { t with consts := t.consts ++ [added] })

def ensureMirIntConst (value : Int64) : MirTables → UInt32 × MirTables :=
  ensureMirConst (fun c => c.kind = .INT ∧ c.bits.toInt64 = value) ⟨.INT, 0, value.toUInt64, ⟨0, 0⟩⟩

def ensureMirNullConst : MirTables → UInt32 × MirTables :=
  ensureMirConst (fun c => c.kind = .NULL) ⟨.NULL, 0, 0, ⟨0, 0⟩⟩

/-- An instruction for a node of the tree. -/
def AstNode.inst (n : AstNode) (op : MirOp) (tok : UInt16) (aux : UInt32) : MirInst :=
  ⟨op, tok, aux, UInt32.ofNat n.start, UInt32.ofNat n.stop⟩

section

variable (file : MirFile) (locals : List MirLocal)

/-- How many instructions a count calls for, down to a depth. -/
def countMirAllocNewCountExprInsts : Nat → Int → Option Nat
  | 0, _ => none
  | depth + 1, exprNode =>
    let n := file.ast.node exprNode
    if ¬ file.ast.inTable exprNode then none
    else
      match n.kind with
      | .INT | .IDENT => some 1
      | .UNARY => (countMirAllocNewCountExprInsts depth n.firstChild).map (· + 1)
      | .BINARY => do
        let rhsNode := astNextSibling file.ast n.firstChild
        let leftCount ← countMirAllocNewCountExprInsts depth n.firstChild
        if rhsNode < 0 then none
        else
          let rightCount ← countMirAllocNewCountExprInsts depth rhsNode
          return leftCount + rightCount + 1
      | _ => none

def lowerMirAllocNewCountExpr : Nat → Int → MirTables → Option (List MirInst × MirTables)
  | 0, _, _ => none
  | depth + 1, exprNode, t =>
    let n := file.ast.node exprNode
    if ¬ file.ast.inTable exprNode then none
    else
      match n.kind with
      | .INT => do
        let value ← parseMirIntLiteral file.source n.dataStart n.dataEnd
        let (constIndex, t) := ensureMirIntConst value t
        return ([n.inst .PUSH_CONST 0 constIndex], t)
      | .IDENT => do
        let localIndex ← findMirFunctionLocalBySlice locals file.source n.dataStart n.dataEnd
        return ([n.inst .LOCAL_LOAD 0 (UInt32.ofNat localIndex)], t)
      | .UNARY => do
        let (inner, t) ← lowerMirAllocNewCountExpr depth n.firstChild t
        return (inner ++ [n.inst .UNARY n.op.code 0], t)
      | .BINARY => do
        let rhsNode := astNextSibling file.ast n.firstChild
        if rhsNode < 0 then none
        else
          let (left, t) ← lowerMirAllocNewCountExpr depth n.firstChild t
          let (right, t) ← lowerMirAllocNewCountExpr depth rhsNode t
          return (left ++ right ++ [n.inst .BINARY n.op.code 0], t)
      | _ => none

def isContextField (n : AstNode) (name : String) : Bool := sliceOf file.source n.dataStart n.dataEnd = bytesOf name

/-- Whether a node reads a field of the context: its first child is the name `context`. -/
def readsContext (n : AstNode) : Bool :=
  file.ast.inTable n.firstChild ∧ (file.ast.node n.firstChild).kind = .IDENT ∧
    isContextField file (file.ast.node n.firstChild) "context"

def countMirAllocNewAllocExprInsts : Nat → Int → Option Nat
  | 0, _ => none
  | depth + 1, exprNode =>
    let n := file.ast.node exprNode
    if ¬ file.ast.inTable exprNode then none
    else
      match n.kind with
      | .IDENT | .NULL => some 1
      | .CAST => countMirAllocNewAllocExprInsts depth n.firstChild
      | .FIELD_EXPR =>
        if readsContext file n ∧ (isContextField file n "allocator" ∨ isContextField file n "temp_allocator") then some 1
        else none
      | _ => none

def contextFieldAllocator : UInt32 := 1
def contextFieldTempAllocator : UInt32 := 2

def lowerMirAllocNewAllocExpr : Nat → Int → MirTables → Option (List MirInst × MirTables)
  | 0, _, _ => none
  | depth + 1, exprNode, t =>
    let n := file.ast.node exprNode
    if ¬ file.ast.inTable exprNode then none
    else
      match n.kind with
      | .IDENT => do
        let localIndex ← findMirFunctionLocalBySlice locals file.source n.dataStart n.dataEnd
        return ([n.inst .LOCAL_LOAD 0 (UInt32.ofNat localIndex)], t)
      | .NULL =>
        let (constIndex, t) := ensureMirNullConst t
        some ([n.inst .PUSH_CONST 0 constIndex], t)
      | .CAST => lowerMirAllocNewAllocExpr depth n.firstChild t
      | .FIELD_EXPR =>
        if ¬ readsContext file n then none
        else if isContextField file n "allocator" then some ([n.inst .CTX_GET 0 contextFieldAllocator], t)
        else if isContextField file n "temp_allocator" then some ([n.inst .CTX_GET 0 contextFieldTempAllocator], t)
        else none
      | _ => none

end

section

variable {test : MirConst → Bool} {added : MirConst}

theorem ensureMirConst_extends (t : MirTables) : t.Extends (ensureMirConst test added t).2 := by
  unfold ensureMirConst
  split
  · exact .refl t
  · exact ⟨List.prefix_append _ _, List.prefix_rfl, List.prefix_rfl, List.prefix_rfl, List.prefix_rfl, List.prefix_rfl⟩

theorem ensureMirConst_inside (t : MirTables) :
    (ensureMirConst test added t).1.toNat < (ensureMirConst test added t).2.consts.length := by
  unfold ensureMirConst
  split
  · rename_i i found
    rw [UInt32.toNat_ofNat']
    exact Nat.lt_of_le_of_lt (Nat.mod_le _ _) (List.findIdx?_eq_some_iff_getElem.mp found).1
  · rw [UInt32.toNat_ofNat', List.length_append, List.length_singleton]
    exact Nat.lt_succ_of_le (Nat.mod_le _ _)

/-- The constant that is found passes the test when an added one does. -/
theorem ensureMirConst_passes (passes : test added = true) {t : MirTables}
    (small : (ensureMirConst test added t).2.consts.length ≤ UInt32.size) :
    ∃ c, (ensureMirConst test added t).2.consts[(ensureMirConst test added t).1.toNat]? = some c ∧ test c = true := by
  unfold ensureMirConst at small ⊢
  cases found : t.consts.findIdx? test with
  | some i =>
    rw [found] at small
    obtain ⟨inside, good, _⟩ := List.findIdx?_eq_some_iff_getElem.mp found
    have index : (UInt32.ofNat i).toNat = i := by
      rw [UInt32.toNat_ofNat', Nat.mod_eq_of_lt (Nat.lt_of_lt_of_le inside small)]
    exact ⟨t.consts[i], by simp only [index, List.getElem?_eq_getElem inside], good⟩
  | none =>
    rw [found] at small
    simp only [List.length_append, List.length_singleton] at small
    have index : (UInt32.ofNat t.consts.length).toNat = t.consts.length := by
      rw [UInt32.toNat_ofNat', Nat.mod_eq_of_lt small]
    exact ⟨added, by simp only [index, List.getElem?_concat_length], passes⟩

end

theorem localIndex_inside {program : MirProgram} {fn : MirFunction} {source : List UInt8} {nameStart nameEnd i : Nat}
    (found : findMirFunctionLocalBySlice (fn.localMeta program) source nameStart nameEnd = some i) :
    UInt32.ofNat i < fn.localCount := by
  unfold findMirFunctionLocalBySlice at found
  split at found
  · cases found
  · have inside := (List.findIdx?_eq_some_iff_getElem.mp found).1
    rw [MirFunction.localMeta, List.length_take] at inside
    rw [UInt32.lt_iff_toNat_lt, UInt32.toNat_ofNat']
    exact Nat.lt_of_le_of_lt (Nat.mod_le _ _) (Nat.lt_of_lt_of_le inside (Nat.min_le_left _ _))

/-- Code that only adds entries to the tables and refers to them. -/
def Lowered (fn : MirFunction) (t : MirTables) (out : List MirInst × MirTables) : Prop :=
  t.Extends out.2 ∧ ∀ i ∈ out.1, i.Refers out.2 fn

theorem Lowered.one {fn : MirFunction} {t t' : MirTables} {ins : MirInst} (grown : t.Extends t')
    (refers : ins.Refers t' fn) : Lowered fn t ([ins], t') :=
  ⟨grown, fun i member => by rw [List.mem_singleton.mp member]; exact refers⟩

theorem Lowered.append {fn : MirFunction} {t t' t'' : MirTables} {left right : List MirInst}
    (first : Lowered fn t (left, t')) (second : Lowered fn t' (right, t'')) : Lowered fn t (left ++ right, t'') := by
  refine ⟨first.1.trans second.1, fun i member => ?_⟩
  rcases List.mem_append.mp member with member | member
  · exact (first.2 i member).extend second.1
  · exact second.2 i member

theorem Option.of_bind {α β : Type} {x : Option α} {f : α → Option β} {b : β} (done : x >>= f = some b) :
    ∃ a, x = some a ∧ f a = some b := by
  cases x with
  | none => cases done
  | some a => exact ⟨a, rfl, done⟩

section

variable {file : MirFile} {program : MirProgram} {fn : MirFunction}

theorem lowerMirAllocNewCountExpr_lowered {depth : Nat} {exprNode : Int} {t : MirTables}
    {out : List MirInst × MirTables}
    (done : lowerMirAllocNewCountExpr file (fn.localMeta program) depth exprNode t = some out) : Lowered fn t out := by
  induction depth generalizing exprNode t out with
  | zero => cases done
  | succ depth ih =>
    rw [lowerMirAllocNewCountExpr] at done
    by_cases inTable : file.ast.inTable exprNode
    case neg =>
      simp only [inTable, not_false_eq_true, if_true] at done
      cases done
    case pos =>
      simp only [inTable, not_true_eq_false, if_false] at done
      cases kind : (file.ast.node exprNode).kind <;> simp only [kind] at done
      case INT =>
        obtain ⟨value, _, done⟩ := Option.of_bind done
        cases done
        exact .one (ensureMirConst_extends t) (ensureMirConst_inside t)
      case IDENT =>
        obtain ⟨i, found, done⟩ := Option.of_bind done
        cases done
        exact .one (.refl t) (localIndex_inside found)
      case UNARY =>
        obtain ⟨inner, innerDone, done⟩ := Option.of_bind done
        cases done
        exact (ih innerDone).append (.one (.refl _) trivial)
      case BINARY =>
        split at done
        · cases done
        · obtain ⟨left, leftDone, done⟩ := Option.of_bind done
          obtain ⟨right, rightDone, done⟩ := Option.of_bind done
          cases done
          exact ((ih leftDone).append (ih rightDone)).append (.one (.refl _) trivial)
      all_goals cases done

theorem lowerMirAllocNewAllocExpr_lowered {depth : Nat} {exprNode : Int} {t : MirTables}
    {out : List MirInst × MirTables}
    (done : lowerMirAllocNewAllocExpr file (fn.localMeta program) depth exprNode t = some out) : Lowered fn t out := by
  induction depth generalizing exprNode t out with
  | zero => cases done
  | succ depth ih =>
    rw [lowerMirAllocNewAllocExpr] at done
    by_cases inTable : file.ast.inTable exprNode
    case neg =>
      simp only [inTable, not_false_eq_true, if_true] at done
      cases done
    case pos =>
      simp only [inTable, not_true_eq_false, if_false] at done
      cases kind : (file.ast.node exprNode).kind <;> simp only [kind] at done
      case IDENT =>
        obtain ⟨i, found, done⟩ := Option.of_bind done
        cases done
        exact .one (.refl t) (localIndex_inside found)
      case NULL =>
        cases done
        exact .one (ensureMirConst_extends t) (ensureMirConst_inside t)
      case CAST => exact ih done
      case FIELD_EXPR =>
        split at done
        · cases done
        · split at done
          · cases done
            exact .one (.refl t) trivial
          · split at done
            · cases done
              exact .one (.refl t) trivial
            · cases done
      all_goals cases done

end

def sliceViewFlag : UInt32 := 0x00040000
def aggSliceViewFlag : UInt32 := 0x02000000
def aggregateFlag : UInt32 := 0x00080000
def opaquePtrFlag : UInt32 := 0x00100000

def MirTypeRef.has (ty : MirTypeRef) (flag : UInt32) : Bool := ty.flags &&& flag ≠ 0

/-- `MirInitOwnerTypeRefForType`: the type whose fields an allocation fills. -/
def mirInitOwnerTypeRefForType (types : List MirTypeRef) (typeRef : UInt32) : UInt32 :=
  match types[typeRef.toNat]? with
  | none => noTypeRef
  | some ty => if ty.has aggregateFlag then typeRef else if ty.has opaquePtrFlag then ty.aux else noTypeRef

/-- An allocation and the instruction after it, which stores it into a local. -/
def storedAlloc (fn : MirFunction) (code : List MirInst) (pc : Nat) : Option (MirInst × MirInst) := do
  let allocInst ← code[pc]?
  let storeInst ← code[pc + 1]?
  if allocInst.op = .ALLOC_NEW ∧ storeInst.op = .LOCAL_STORE ∧ storeInst.aux < fn.localCount then
    some (allocInst, storeInst)
  else none

section

variable (files : UInt32 → Option MirFile) (program : MirProgram)

def localTypeRefAt (fn : MirFunction) (storeInst : MirInst) : Option UInt32 :=
  ((fn.localMeta program)[storeInst.aux.toNat]?).map MirLocal.typeRef

/-- The count of a slice that is allocated here, and the file it stands in. -/
def sliceCountNode (fn : MirFunction) (code : List MirInst) (pc : Nat) : Option (MirFile × Int) := do
  let file ← files fn.sourceRef
  let (allocInst, storeInst) ← storedAlloc fn code pc
  let typeRef ← localTypeRefAt program fn storeInst
  let ty ← program.types[typeRef.toNat]?
  let nodes ← decodeAllocExprNodes file.ast allocInst.allocNode
  if allocInst.hasTok AstFlag.ALLOC_HAS_COUNT ∧ (ty.has sliceViewFlag ∨ ty.has aggSliceViewFlag) ∧
      0 ≤ nodes.countNode then some (file, nodes.countNode)
  else none

/-- The allocator of an allocation, and the file it stands in. -/
def allocatorNode (fn : MirFunction) (code : List MirInst) (pc : Nat) : Option (MirFile × Int) := do
  let file ← files fn.sourceRef
  let allocInst ← code[pc]?
  let nodes ← decodeAllocExprNodes file.ast allocInst.allocNode
  if allocInst.op = .ALLOC_NEW ∧ allocInst.hasTok AstFlag.ALLOC_HAS_EXPLICIT_ALLOCATOR ∧ 0 ≤ nodes.allocNode then
    some (file, nodes.allocNode)
  else none

/-- A pass that counts and lowers one expression for each place. -/
def exprPass (nodeAt : MirFunction → List MirInst → Nat → Option (MirFile × Int))
    (count : MirFile → Nat → Int → Option Nat)
    (lower : MirFile → List MirLocal → Nat → Int → MirTables → Option (List MirInst × MirTables))
    (lowered : ∀ {file fn depth exprNode t out},
      lower file (MirFunction.localMeta program fn) depth exprNode t = some out → Lowered fn t out) : AllocPass where
  measure := fun fn code pc t =>
    ((nodeAt fn code pc).bind fun found => (count found.1 found.1.ast.len found.2).map (⟨·, false⟩), t)
  emit := fun fn code pc t =>
    (nodeAt fn code pc).bind fun found => lower found.1 (fn.localMeta program) found.1.ast.len found.2 t
  mark := id
  after := false
  inside := fun after => by cases after
  measured := fun _ _ _ t => .refl t
  grows := fun emitted => by
    obtain ⟨found, _, emitted⟩ := Option.bind_eq_some_iff.mp emitted
    exact (lowered emitted).1
  refers := fun emitted => by
    obtain ⟨found, _, emitted⟩ := Option.bind_eq_some_iff.mp emitted
    exact (lowered emitted).2

def rewriteMirDynamicSliceAllocCounts : AllocPass :=
  exprPass program (sliceCountNode files program) countMirAllocNewCountExprInsts lowerMirAllocNewCountExpr
    lowerMirAllocNewCountExpr_lowered

def rewriteMirAllocNewAllocExprs : AllocPass :=
  exprPass program (allocatorNode files) countMirAllocNewAllocExprInsts lowerMirAllocNewAllocExpr
    lowerMirAllocNewAllocExpr_lowered

/-- How the other two passes find the type that is allocated and the code that goes with it: the code, and whether the
token of the allocation changes. Both may add entries even where they find nothing. -/
structure AllocLowering where
  resolve : MirFile → MirInst → MirTables → Option UInt32 × MirTables
  lower : MirFunction → MirFile → MirInst → MirInst → UInt32 → MirTables → Option (List MirInst × Bool) × MirTables
  resolved : ∀ file allocInst t, MirTables.Extends t (resolve file allocInst t).2
  grows : ∀ fn file allocInst storeInst typeRef t, MirTables.Extends t (lower fn file allocInst storeInst typeRef t).2
  refers : ∀ {fn file allocInst storeInst typeRef t code marked},
    (lower fn file allocInst storeInst typeRef t).1 = some (code, marked) →
      ∀ i ∈ code, i.Refers (lower fn file allocInst storeInst typeRef t).2 fn

variable (lowering : AllocLowering)

/-- The type that is allocated: the one of the local, of the node where that does not name one. -/
def AllocLowering.pointee (file : MirFile) (allocInst : MirInst) (typeRef : UInt32) (t : MirTables) :
    Option UInt32 × MirTables :=
  let pointeeTypeRef := mirInitOwnerTypeRefForType t.types typeRef
  if pointeeTypeRef = noTypeRef ∨ t.types.length ≤ pointeeTypeRef.toNat then lowering.resolve file allocInst t
  else (some pointeeTypeRef, t)

/-- The code for an allocation that is stored into a local, where the pass applies. -/
def AllocLowering.attempt (applies : MirInst → Bool) (needsFile : Bool) (fn : MirFunction) (code : List MirInst)
    (pc : Nat) (t : MirTables) : Option (List MirInst × Bool) × MirTables :=
  match files fn.sourceRef, storedAlloc fn code pc with
  | some file, some (allocInst, storeInst) =>
    match localTypeRefAt program fn storeInst with
    | none => (none, t)
    | some typeRef =>
      if applies allocInst then
        let pointee := lowering.pointee file allocInst typeRef t
        match pointee.1 with
        | none => (none, pointee.2)
        | some pointeeTypeRef =>
          if needsFile ∧ ((pointee.2.types[pointeeTypeRef.toNat]?).bind fun ty => files ty.sourceRef).isNone then
            (none, pointee.2)
          else lowering.lower fn file allocInst storeInst pointeeTypeRef pointee.2
      else (none, t)
  | _, _ => (none, t)

end

section

variable {files : UInt32 → Option MirFile} {program : MirProgram} {lowering : AllocLowering} {applies : MirInst → Bool}
  {needsFile : Bool} {fn : MirFunction} {code : List MirInst} {pc : Nat} {t : MirTables}

variable (lowering) in
theorem pointee_extends (file : MirFile) (allocInst : MirInst) (typeRef : UInt32) (t : MirTables) :
    t.Extends (lowering.pointee file allocInst typeRef t).2 := by
  rw [AllocLowering.pointee]
  split
  · exact lowering.resolved file allocInst t
  · exact .refl t

/-- What an attempt comes to: nothing, or what the lowering makes of an allocation that is stored. -/
theorem attempt_cases (lowering : AllocLowering) (files : UInt32 → Option MirFile) (program : MirProgram)
    (applies : MirInst → Bool) (needsFile : Bool) (fn : MirFunction) (code : List MirInst) (pc : Nat) (t : MirTables) :
    (lowering.attempt files program applies needsFile fn code pc t).1 = none ∧
      t.Extends (lowering.attempt files program applies needsFile fn code pc t).2 ∨
    ∃ file allocInst storeInst typeRef t', storedAlloc fn code pc = some (allocInst, storeInst) ∧ t.Extends t' ∧
      lowering.attempt files program applies needsFile fn code pc t =
        lowering.lower fn file allocInst storeInst typeRef t' := by
  unfold AllocLowering.attempt
  split
  · rename_i file allocInst storeInst _ stored
    split
    · exact .inl ⟨rfl, .refl t⟩
    · rename_i typeRef _
      have grown := pointee_extends lowering file allocInst typeRef t
      by_cases applying : applies allocInst = true
      · simp only [applying, if_true]
        cases found : (lowering.pointee file allocInst typeRef t).1 with
        | none => exact .inl ⟨rfl, grown⟩
        | some pointeeTypeRef =>
          simp only
          split
          · exact .inl ⟨rfl, grown⟩
          · exact .inr ⟨file, allocInst, storeInst, pointeeTypeRef, _, stored, grown, rfl⟩
      · simp only [applying]
        exact .inl ⟨rfl, .refl t⟩
  · exact .inl ⟨rfl, .refl t⟩

theorem attempt_extends : t.Extends (lowering.attempt files program applies needsFile fn code pc t).2 := by
  rcases attempt_cases lowering files program applies needsFile fn code pc t with
    ⟨_, grown⟩ | ⟨_, _, _, _, _, _, grown, same⟩
  · exact grown
  · rw [same]
    exact grown.trans (lowering.grows ..)

theorem attempt_stored
    (found : (lowering.attempt files program applies needsFile fn code pc t).1.isSome = true) :
    pc + 1 < code.length := by
  rcases attempt_cases lowering files program applies needsFile fn code pc t with ⟨none, _⟩ | ⟨_, _, _, _, _, stored, _⟩
  · rw [none] at found
    cases found
  · obtain ⟨_, _, stored⟩ := Option.of_bind stored
    obtain ⟨_, next, _⟩ := Option.of_bind stored
    exact (List.getElem?_eq_some_iff.mp next).1

theorem attempt_refers {block : List MirInst} {marked : Bool}
    (found : (lowering.attempt files program applies needsFile fn code pc t).1 = some (block, marked)) :
    ∀ i ∈ block, i.Refers (lowering.attempt files program applies needsFile fn code pc t).2 fn := by
  rcases attempt_cases lowering files program applies needsFile fn code pc t with ⟨none, _⟩ | ⟨_, _, _, _, _, _, _, same⟩
  · rw [none] at found
    cases found
  · rw [same] at found ⊢
    exact lowering.refers found

end

section

variable (files : UInt32 → Option MirFile) (program : MirProgram) (lowering : AllocLowering)

/-- A pass that lowers what belongs to an allocation, once to count and once to write. -/
def loweringPass (applies : MirInst → Bool) (needsFile always : Bool) (mark : UInt16 → UInt16) (after : Bool) :
    AllocPass where
  measure := fun fn code pc t =>
    let found := lowering.attempt files program applies needsFile fn code pc t
    (found.1.map fun lowered => ⟨lowered.1.length, always || lowered.2⟩, found.2)
  emit := fun fn code pc t =>
    let found := lowering.attempt files program applies needsFile fn code pc t
    found.1.map fun lowered => (lowered.1, found.2)
  mark := mark
  after := after
  inside := fun _ found => attempt_stored (by rw [Option.isSome_map] at found; exact found)
  measured := fun _ _ _ _ => attempt_extends
  grows := fun emitted => by
    obtain ⟨lowered, _, same⟩ := Option.map_eq_some_iff.mp emitted
    cases same
    exact attempt_extends
  refers := fun emitted => by
    obtain ⟨lowered, found, same⟩ := Option.map_eq_some_iff.mp emitted
    cases same
    exact attempt_refers found

def rewriteMirVarSizeAllocCounts : AllocPass :=
  loweringPass files program lowering (fun allocInst => !allocInst.hasTok AstFlag.ALLOC_HAS_COUNT) false true
    (fun tok => tok ||| AstFlag.ALLOC_HAS_COUNT.toUInt16) false

def rewriteMirAllocNewInitExprs : AllocPass :=
  loweringPass files program lowering (fun _ => true) true false
    (fun tok => tok &&& ~~~AstFlag.ALLOC_HAS_INIT.toUInt16) true

end

/-- The passes over the allocations, in the order in which `BuildPackageMirProgram` runs them. -/
def rewriteMirAllocs (files : UInt32 → Option MirFile) (varSize init : AllocLowering) :
    MirProgram → Except AllocStop MirProgram :=
  rewritePasses [fun program => rewriteMirVarSizeAllocCounts files program varSize,
    fun program => rewriteMirDynamicSliceAllocCounts files program,
    fun program => rewriteMirAllocNewAllocExprs files program,
    fun program => rewriteMirAllocNewInitExprs files program init]

/-- A lowering that finds nothing. -/
def AllocLowering.idle : AllocLowering where
  resolve := fun _ _ t => (none, t)
  lower := fun _ _ _ _ _ t => (none, t)
  resolved := fun _ _ t => .refl t
  grows := fun _ _ _ _ _ t => .refl t
  refers := fun found => by cases found

/-- A file whose text is the count `3` of an allocation. -/
def countFile : MirFile where
  source := bytesOf "3"
  ast := ⟨[⟨0, 1, 1, -1, 0, 0, .INVALID, .ALLOC, AstFlag.ALLOC_HAS_COUNT⟩, .mk 0 1 (-1) 2 0 0 .INVALID .TYPE_NAME 0,
    ⟨0, 1, -1, -1, 0, 1, .INVALID, .INT, 0⟩], 0⟩

def sliceFunction : MirFunction := ⟨0, 4, 0, 0, 1, 0, noTypeRef, 0, 0, 0, 0⟩

/-- A function that allocates a slice, stores it, and jumps to its end. -/
def sliceProgram : MirProgram where
  insts := [⟨.ALLOC_NEW, 0x40, 0, 0, 1⟩, ⟨.LOCAL_STORE, 0, 0, 0, 1⟩, ⟨.JUMP, 0, 3, 0, 1⟩, ⟨.RETURN_VOID, 0, 0, 0, 1⟩]
  consts := []
  sources := [bytesOf "3"]
  funcs := [sliceFunction]
  locals := [⟨0, 0, 0, 0⟩]
  fields := []
  types := [⟨0, 0, sliceViewFlag, 0⟩]
  hosts := []
  symbols := []
  lengths := by decide

/-- The same function with its count lowered. -/
def countedProgram : MirProgram where
  insts := [⟨.PUSH_CONST, 0, 0, 0, 1⟩, ⟨.ALLOC_NEW, 0x40, 0, 0, 1⟩, ⟨.LOCAL_STORE, 0, 0, 0, 1⟩, ⟨.JUMP, 0, 4, 0, 1⟩,
    ⟨.RETURN_VOID, 0, 0, 0, 1⟩]
  consts := [⟨.INT, 0, 3, ⟨0, 0⟩⟩]
  sources := [bytesOf "3"]
  funcs := [{ sliceFunction with instLen := 5 }]
  locals := [⟨0, 0, 0, 0⟩]
  fields := []
  types := [⟨0, 0, sliceViewFlag, 0⟩]
  hosts := []
  symbols := []
  lengths := by decide

/-- What a pass makes of a function means what the function meant: run from its beginning, the new code ends exactly
where the old code does when each instruction runs together with the code that was inserted for its place. This holds
of every meaning of the instructions in which a jump goes to its operand. -/
theorem rewrite_ends_iff {pass : AllocPass} {program : MirProgram} {out : Rewritten}
    (done : pass.rewrite program = .ok out) {k : Nat} {fn : MirFunction} (atPlace : program.funcs[k]? = some fn)
    (jumps : JumpsInside (fn.code program)) : ∃ fn', out.funcs[k]? = some fn' ∧
      (fn' = fn ∧ fn'.codeIn out.insts = fn.code program ∨
        ∃ t cells, pass.IsFunction fn (fn.code program) (pass.sites fn (fn.code program) t).1 out.tables cells ∧
          ∀ {σ ρ : Type} (meaning : CodeSplice.Meaning mirJumpForm σ ρ) (s : σ) (r : ρ),
            Steps.Ends (CodeSplice.step meaning (fn'.codeIn out.insts)) (0, s) r ↔
              Steps.Ends (CodeSplice.fusedStep meaning cells) (0, s) r) := by
  obtain ⟨_, ⟨insts, funcs⟩ | ⟨_, _, rewrites⟩⟩ := rewrite_ok done
  · exact ⟨fn, by rw [funcs]; exact atPlace, .inl ⟨rfl, by rw [insts]; rfl⟩⟩
  · obtain ⟨fn', cells, atNew, rewritten⟩ := rewrites k fn atPlace
    obtain ⟨t, isFunction⟩ := rewritten.spliced
    exact ⟨fn', atNew, .inr ⟨t, cells, isFunction, fun meaning s r => rewritten.ends_iff jumps meaning s r⟩⟩

theorem sliceProgram_ends_iff : ∃ fn', countedProgram.funcs[0]? = some fn' ∧
    (fn' = sliceFunction ∧ fn'.codeIn countedProgram.insts = sliceFunction.code sliceProgram ∨
      ∃ t cells, (rewriteMirDynamicSliceAllocCounts (fun _ => some countFile) sliceProgram).IsFunction sliceFunction
          (sliceFunction.code sliceProgram) ((rewriteMirDynamicSliceAllocCounts (fun _ => some countFile)
            sliceProgram).sites sliceFunction (sliceFunction.code sliceProgram) t).1 countedProgram.tables cells ∧
        ∀ {σ ρ : Type} (meaning : CodeSplice.Meaning mirJumpForm σ ρ) (s : σ) (r : ρ),
          Steps.Ends (CodeSplice.step meaning (fn'.codeIn countedProgram.insts)) (0, s) r ↔
            Steps.Ends (CodeSplice.fusedStep meaning cells) (0, s) r) :=
  rewrite_ends_iff
    (show (rewriteMirDynamicSliceAllocCounts (fun _ => some countFile) sliceProgram).rewrite sliceProgram =
      .ok ⟨countedProgram.insts, countedProgram.funcs, countedProgram.tables⟩ from rfl)
    (show sliceProgram.funcs[0]? = some sliceFunction from rfl) (show ∀ ins ∈ _, _ → _ from by decide)

end HopHop
