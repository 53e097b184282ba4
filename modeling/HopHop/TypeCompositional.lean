import HopHop.TypeCanonical
import HopHop.TypeValueRead

namespace HopHop

open TypeTable TypeReader

section

variable {scope : TypeScope} {values : TypeValues} {start : TypeTable} {working : List Nat}

/-- What `H2TCReadFunctionSig` leaves is what is written of each part of the declaration. -/
structure SignatureDenotes (scope : TypeScope) (values : TypeValues) (src : List UInt8) (c : TypeTable)
    (kids : NodeList) (sig : FnSignature) : Prop where
  params : ParamsDenote scope values src c (WrittenPart.sigParams (kids.parts src values)) sig.params
  variadic : sig.isVariadic = WrittenPart.anyVariadic (WrittenPart.sigParams (kids.parts src values))
  result : ResultDenotes scope values c (WrittenPart.sigResults (kids.parts src values)) c.typeVoid sig.returnType
  context : ContextDenotes scope values src c (WrittenPart.sigContexts (kids.parts src values)) none sig.contextType

/-- What `H2TCRegisterFunctionValueNode` leaves is what is written of each part of the function, or what the function
type expected says of a part that is not written. -/
structure ValueDenotes (scope : TypeScope) (values : TypeValues) (src : List UInt8) (c : TypeTable)
    (expected : Option TCType) (expectedParams : List FuncParam) (kids : NodeList) (sig : FnSignature) : Prop where
  params : ∃ ids, sig.params =
      List.zipWith FuncParam.mk ids (WrittenPart.consts (WrittenPart.sigParams (kids.parts src values))) ∧
    ValueParams scope values src c expectedParams 0 (WrittenPart.sigParams (kids.parts src values)) ids
  variadic : sig.isVariadic = ((expected.map (·.flags.functionVariadic)).getD false ||
    WrittenPart.anyVariadic (WrittenPart.sigParams (kids.parts src values)))
  result : ResultDenotes scope values c (WrittenPart.sigResults (kids.parts src values))
    ((expected.map TCType.baseType).getD c.typeVoid) sig.returnType

theorem params_zero (r : TypeReader) : r.params 0 = [] := by simp [TypeReader.params]

theorem readFunctionSig_denotes (lawful : scope.Lawful values start) {depth : Nat} {kids : NodeList}
    {r r' : TypeReader} {sig : FnSignature} (ready : Ready scope start working r)
    (plain : kids.Forall (PlainNode scope r.table))
    (later : kids.EachLater (QuietSig scope r.table) (·.kind = .PARAM) false)
    (result : readFunctionSig (resolveTypeNode scope depth) scope kids r = .ok (sig, r')) :
    SignatureDenotes scope values r.table.src r'.table kids sig := by
  obtain ⟨⟨parts, r₁⟩, read, made⟩ := ok_of_bind result
  cases made
  have spec := readSigParts_spec lawful (resolvers_spec lawful depth).1 kids ready read
  obtain ⟨⟨params, isParams, denotes⟩, variadic, results, context⟩ := spec.denotes plain later
  rw [params_zero, List.nil_append] at isParams
  refine ⟨?_, ?_, ?_, context⟩
  · simp only [isParams]
    exact denotes
  · simp only [variadic, Bool.false_or]
  · rw [spec.reads.grows.typeVoid]
    exact results

/-- The parameters of a function type name types of the table. -/
theorem Ready.componentsOf_holds {r : TypeReader} (ready : Ready scope start working r) {id : TypeId} {fn : TCType}
    (atId : r.table.entry id = some fn) (isFn : fn.kind = .FUNCTION) :
    ∀ p ∈ r.table.componentsOf fn, r.table.Holds p.typeId := by
  intro p member
  obtain ⟨i, -, atI⟩ := Option.bind_eq_some_iff.mp atId
  have closed := ready.good.types.closed fn (List.mem_of_getElem? atI)
  have shape : r.table.shapeOf fn = some (.function fn.baseType
      ((r.table.componentsOf fn).map fun p => (p.typeId, p.isConst)) fn.flags.functionVariadic) := by
    simp only [TypeTable.shapeOf, isFn]
  refine closed.parts _ shape _ ?_
  simp only [TypeShape.parts, List.map_map, List.mem_cons, List.mem_map, Function.comp_apply]
  exact .inr ⟨p, member, rfl⟩

theorem readFunctionValue_denotes (lawful : scope.Lawful values start) {depth : Nat} {n : AstNode}
    {expected : Option TCType} {kids : NodeList} {r r' : TypeReader} {sig : FnSignature}
    (ready : Ready scope start working r)
    (isFn : ∀ fn ∈ expected, fn.kind = .FUNCTION ∧ ∃ id, r.table.entry id = some fn)
    (plain : kids.Forall (PlainNode scope r.table))
    (later : kids.EachLater (QuietValue scope r.table) (·.kind = .PARAM) false)
    (result : readFunctionValue (resolveTypeNode scope depth) n expected kids r = .ok (sig, r')) :
    ValueDenotes scope values r.table.src r'.table expected ((expected.map r.table.componentsOf).getD []) kids sig := by
  obtain ⟨⟨parts, r₁⟩, read, made⟩ := ok_of_bind result
  simp only at made
  split at made
  · cases made
  cases made
  have holds : ∀ p ∈ (expected.map r.table.componentsOf).getD [], r.table.Holds p.typeId := by
    cases expected with
    | none => simp
    | some fn =>
      obtain ⟨kind, id, atId⟩ := isFn fn rfl
      exact ready.componentsOf_holds atId kind
  have spec := readValueParts_spec lawful (resolvers_spec lawful depth).1 kids ready holds read
  have void := spec.reads.grows.typeVoid
  cases expected with
  | none =>
    obtain ⟨⟨ids, isParams, denotes⟩, variadic, results⟩ := spec.denotes plain later
    rw [params_zero, List.nil_append] at isParams
    refine ⟨⟨ids, isParams, denotes⟩, ?_, ?_⟩
    · simp only [variadic, Bool.false_or, Option.map_none, Option.getD_none]
    · simp only [Option.map_none, Option.getD_none, void]
      exact results
  | some fn =>
    obtain ⟨⟨ids, isParams, denotes⟩, variadic, results⟩ := spec.denotes plain later
    rw [params_zero, List.nil_append] at isParams
    exact ⟨⟨ids, isParams, denotes⟩, variadic, results⟩

end

/-- Two type names of the language itself, which stand at the front of every table, and nothing else. -/
def builtinScope : TypeScope where
  findBuiltinType := fun _ name =>
    if name = bytesOf "u8" then some 3 else if name = bytesOf "u16" then some 4 else none
  resolveTypeNamePath := fun _ _ => none
  resolveActiveTypeParamType := fun _ _ => none
  findBuiltinQualifiedNamedType := fun _ _ => none
  constantType := fun n _ => fail .UNKNOWN_TYPE n.dataStart n.dataEnd
  arrayLenExpr := fun _ n _ _ => failAt n .ARRAY_LEN_CONST_REQUIRED
  containsVarSizeByValue := fun _ _ => false
  declChildren := fun _ => .nil

/-- A reader over the initial table, with room for four parameters. -/
def readerOf (src : String) : TypeReader where
  table := TypeTable.initial (bytesOf src) ⟨[], -1⟩ 32
  scratchParamTypes := [none, none, none, none]
  scratchParamFlags := [false, false, false, false]
  allowAnytypeParamType := false
  allowConstNumericTypeName := false

/-- A type node over a range of the source. -/
def typeNode (kind : AstKind) (start stop dataStart dataEnd : Nat) : AstNode :=
  { AstNode.fresh kind start stop with dataStart, dataEnd }

/-- No array lengths but literals, and no constants. -/
def noValues : TypeValues := ⟨fun _ _ => 0, fun _ => none⟩

/-- The parameters of `fn(fn(u8),u16)`. -/
def nestedFirst : NodeList :=
  .cons 1 (typeNode .TYPE_FN 3 9 0 0) (.cons 2 (typeNode .TYPE_NAME 6 8 6 8) .nil .nil)
    (.cons 3 (typeNode .TYPE_NAME 10 13 10 13) .nil .nil)

theorem builtinScope_lawful (src : String) : builtinScope.Lawful noValues (readerOf src).table where
  good := ⟨[], good_initial _ _ _⟩
  stable := fun _ => ⟨rfl, rfl, rfl, rfl⟩
  holds := by
    intro name id found
    rcases found with builtin | path | param | qualified
    · simp only [builtinScope] at builtin
      split at builtin
      · cases builtin
        exact ⟨3, show 3 < (TypeTable.initial [] ⟨[], -1⟩ 32).types.length by decide, rfl⟩
      · split at builtin
        · cases builtin
          exact ⟨4, show 4 < (TypeTable.initial [] ⟨[], -1⟩ 32).types.length by decide, rfl⟩
        · cases builtin
    · cases path
    · cases param
    · cases qualified
  constantType := fun _ failed => by cases failed
  arrayLen := fun _ failed => by cases failed

theorem readerOf_ready (src : String) : Ready builtinScope (readerOf src).table [] (readerOf src) where
  good := good_initial _ _ _
  grows := .refl _
  lengths := rfl
  void := ⟨0, show 0 < (TypeTable.initial [] ⟨[], -1⟩ 32).types.length by decide, rfl⟩
  anytype := ⟨18, show 18 < (TypeTable.initial [] ⟨[], -1⟩ 32).types.length by decide, rfl⟩
  index := fun i nt atI => by cases atI
  generic := fun nt member => by cases member
  stuck := fun id member => by cases member
  idle := fun nt member => by cases member

/-- The parameters of `fn(u8,fn(u16))`. -/
def nestedLater : NodeList :=
  .cons 1 (typeNode .TYPE_NAME 3 5 3 5) .nil
    (.cons 2 (typeNode .TYPE_FN 6 13 0 0) (.cons 3 (typeNode .TYPE_NAME 9 12 9 12) .nil .nil) .nil)

/-- What `fn(u8,fn(u16))` says. -/
def nestedLaterTerm : TypeTerm :=
  .node (.made (.function () [((), false), ((), false)] false))
    [.node .noResult [], .node (.name (bytesOf "u8")) [],
      .node (.made (.function () [((), false)] false)) [.node .noResult [], .node (.name (bytesOf "u16")) []]]

end HopHop
