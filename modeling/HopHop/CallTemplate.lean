import HopHop.CallArgs

namespace HopHop

structure FnParam (Ty : Type) where
  name : NameRange
  type : Ty
  isConst : Bool
  deriving DecidableEq, Repr

/-- `H2TCFunction`. The generic arguments of a template are its type parameters, those of an instance the types that
stand for them. -/
structure TCFunction (Ty : Type) where
  name : NameRange
  returnType : Option Ty
  contextType : Option Ty
  params : List (FnParam Ty)
  declNode : Nat
  templateArgs : List Ty
  templateRootFuncIndex : Option Nat
  variadic : Bool
  template : Bool
  templateInstance : Bool
  deriving DecidableEq, Repr

/-- What a check of a call comes to: it passes, it ends the whole check, or the candidate is out for a reason. -/
inductive CallCheck
  | passed | stopped | failed (e : CallMapError)
  deriving DecidableEq, Repr

/-- What the rest of the checker says about the expressions of a call: their types, with or without an expected type
and under the type that is expected of the call around them, and their constant values. -/
structure CallScope (Ty : Type) where
  src : List UInt8
  types : CallTypes Ty
  activeExpectedCallType : Option Ty
  exprNeedsExpectedType : Nat → Bool
  exprIsCompoundTemporary : Nat → Bool
  exprIsAssignable : Nat → Bool
  typeExpr : Option Ty → Nat → Option Ty
  typeExprExpected : Option Ty → Nat → Ty → Option Ty
  evalConstExprNode : Nat → Option Bool
  findForwardedConstParamCallSpan : Nat → Option (Nat × Nat)
  checkConstBlocksForCall : TCFunction Ty → List CallArgInfo → CallBinding Ty → CallCheck

/-- A call as its arguments were collected. -/
structure CollectedCall where
  args : List CallArgInfo
  firstPositionalArgIndex : Nat
  autoRefFirstArg : Bool
  deriving DecidableEq, Repr

section

variable {Ty : Type} [DecidableEq Ty] (scope : CallScope Ty)

def TCFunction.binding (fn : TCFunction Ty) (call : CollectedCall) : Except CallMapError (CallBinding Ty) :=
  prepareCallBinding scope.types scope.src call.args (fn.params.map FnParam.name) (fn.params.map FnParam.type)
    fn.variadic true call.firstPositionalArgIndex

/-- What is known of an instance while the arguments are gone through. -/
structure Inference (Ty : Type) where
  templateArgTypes : List (Option Ty)
  paramTypes : List Ty
  packElems : List Ty

/-- A template has no instance for a call: the check ends, or the candidate is out, with the cleared error where there
is nothing to say. -/
inductive NoInstance
  | stopped | unmatched (e : CallMapError)
  deriving DecidableEq, Repr

/-- The type of an argument while a template is instantiated. The expected type of the call is set aside. -/
def templateArgExprType (autoRefFirstArgType : Option Ty) (p : Nat) (a : CallArgInfo) (expectedType : Ty) :
    Except NoInstance Ty :=
  match autoRefFirstArgType, p with
  | some argType, 0 => .ok argType
  | _, _ =>
    if scope.exprNeedsExpectedType a.exprNode then
      match scope.typeExprExpected none a.exprNode expectedType with
      | none => .error (.unmatched .clear)
      | some argType => .ok argType
    else
      match scope.typeExpr none a.exprNode with
      | none => .error .stopped
      | some argType => .ok argType

/-- The type of an argument comes to stand for a parameter of any type. -/
def Inference.resolveAnytype (inference : Inference Ty) (fn : TCFunction Ty) (spreadArgIndex : Option Nat)
    (p paramIndex : Nat) (a : CallArgInfo) (argType : Ty) : Except NoInstance (Inference Ty) :=
  if fn.variadic ∧ paramIndex + 1 = fn.params.length then
    if spreadArgIndex = some p then
      match scope.types.spreadPack argType with
      | none => .error (.unmatched (.atArg .ANYTYPE_SPREAD_REQUIRES_PACK a))
      | some spreadType => .ok { inference with paramTypes := inference.paramTypes.set paramIndex spreadType }
    else .ok { inference with packElems := inference.packElems ++ [argType] }
  else .ok { inference with paramTypes := inference.paramTypes.set paramIndex argType }

def inferArg (fn : TCFunction Ty) (spreadArgIndex : Option Nat) (autoRefFirstArgType : Option Ty) (p : Nat)
    (a : CallArgInfo) (paramIndex : Nat) (expectedType : Ty) (inference : Inference Ty) :
    Except NoInstance (Inference Ty) :=
  match fn.params[paramIndex]? with
  | none => .error (.unmatched .clear)
  | some param =>
    match templateArgExprType scope autoRefFirstArgType p a expectedType with
    | .error e => .error e
    | .ok argType =>
      let bound :=
        if fn.templateArgs = [] then some inference.templateArgTypes
        else scope.types.inferTemplateArgsFromTypes fn.templateArgs param.type argType inference.templateArgTypes
      match bound, scope.types.concretizeInferredType argType with
      | none, _ => .error (.unmatched .clear)
      | some _, none => .error .stopped
      | some templateArgTypes, some argType =>
        let inference := { inference with templateArgTypes }
        if expectedType = scope.types.anytype then
          inference.resolveAnytype scope fn spreadArgIndex p paramIndex a argType
        else .ok inference

def inferArgs (fn : TCFunction Ty) (spreadArgIndex : Option Nat) (autoRefFirstArgType : Option Ty) :
    Nat → List CallArgInfo → List (Nat × Ty) → Inference Ty → Except NoInstance (Inference Ty)
  | p, a :: args, (paramIndex, expectedType) :: bound, inference =>
    match inferArg scope fn spreadArgIndex autoRefFirstArgType p a paramIndex expectedType inference with
    | .error e => .error e
    | .ok inference => inferArgs fn spreadArgIndex autoRefFirstArgType (p + 1) args bound inference
  | _, _, _, inference => .ok inference

/-- The type that is expected of the call binds type parameters of the return type. -/
def inferFromReturn (fn : TCFunction Ty) (templateArgTypes : List (Option Ty)) : Option (List (Option Ty)) :=
  match fn.templateArgs, scope.activeExpectedCallType, fn.returnType with
  | _ :: _, some expectedReturnType, some returnType =>
    scope.types.inferTemplateArgsFromTypes fn.templateArgs returnType expectedReturnType templateArgTypes
  | _, _, _ => some templateArgTypes

def isAnytypeParam (param : FnParam Ty) : Bool := param.type = scope.types.anytype

/-- The last parameter of a function that takes a pack of any types. -/
def hasAnyPack (fn : TCFunction Ty) : Bool := fn.variadic && fn.params.getLast?.any (isAnytypeParam scope)

/-- The pack that the arguments behind the fixed parameters make up, or the spread one. -/
def resolvePack (fn : TCFunction Ty) (spreadArgIndex : Option Nat) (inference : Inference Ty) :
    Except NoInstance (List Ty) :=
  if hasAnyPack scope fn then
    match spreadArgIndex with
    | none =>
      match scope.types.internPackType inference.packElems with
      | none => .error .stopped
      | some packType => .ok (inference.paramTypes.set (fn.params.length - 1) packType)
    | some _ =>
      match inference.paramTypes.getLast?.bind scope.types.packElems with
      | none => .error (.unmatched .clear)
      | some _ => .ok inference.paramTypes
  else .ok inference.paramTypes

def concretizeAll : List (Option Ty) → Except NoInstance (List Ty)
  | [] => .ok []
  | none :: _ => .error (.unmatched .clear)
  | some argType :: rest =>
    match scope.types.concretizeInferredType argType with
    | none => .error .stopped
    | some argType => (concretizeAll rest).map (argType :: ·)

/-- The types of the parameters of an instance. A generic function starts over from its declared types. -/
def instanceParamTypes (fn : TCFunction Ty) (templateArgs paramTypes : List Ty) : Except NoInstance (List Ty) :=
  if fn.templateArgs = [] then .ok paramTypes
  else
    match fn.params.mapM fun param => scope.types.substituteType fn.templateArgs templateArgs param.type with
    | none => .error .stopped
    | some paramTypes => .ok paramTypes

/-- What an instance is looked up by. -/
structure InstanceKey (Ty : Type) where
  templateArgs : List Ty
  paramTypes : List Ty
  deriving DecidableEq, Repr

/-- The part of `H2TCInstantiateAnytypeFunctionForCall` before the table is searched. -/
def instanceKey (call : CollectedCall) (autoRefFirstArgType : Option Ty) (fn : TCFunction Ty) :
    Except NoInstance (InstanceKey Ty) :=
  match fn.binding scope call with
  | .error e => .error (.unmatched e)
  | .ok binding =>
    let start : Inference Ty := ⟨fn.templateArgs.map fun _ => none, fn.params.map FnParam.type, []⟩
    match inferArgs scope fn binding.spreadArgIndex autoRefFirstArgType 0 call.args
        (binding.argParamIndices.zip binding.argExpectedTypes) start with
    | .error e => .error e
    | .ok inference =>
      match inferFromReturn scope fn inference.templateArgTypes with
      | none => .error (.unmatched .clear)
      | some templateArgTypes =>
        match resolvePack scope fn binding.spreadArgIndex inference with
        | .error e => .error e
        | .ok paramTypes =>
          match concretizeAll scope templateArgTypes with
          | .error e => .error e
          | .ok templateArgs =>
            match instanceParamTypes scope fn templateArgs paramTypes with
            | .error e => .error e
            | .ok paramTypes => .ok { templateArgs, paramTypes }

/-- The entry is the instance of the template that the key describes. -/
def TCFunction.isInstanceOf (fn : TCFunction Ty) (key : InstanceKey Ty) (cur : TCFunction Ty) : Bool :=
  cur.declNode = fn.declNode ∧ cur.templateInstance ∧ cur.params.length = fn.params.length
    ∧ cur.contextType = fn.contextType ∧ cur.variadic = fn.variadic
    ∧ cur.templateArgs.length = fn.templateArgs.length ∧ cur.templateArgs = key.templateArgs
    ∧ cur.params.map FnParam.type = key.paramTypes
    ∧ cur.params.map FnParam.isConst = fn.params.map FnParam.isConst

/-- The types of a signature with the arguments in place of the type parameters. -/
def TCFunction.substituted (types : CallTypes Ty) (fn : TCFunction Ty) (key : InstanceKey Ty) (type : Option Ty) :
    Option Ty :=
  if fn.templateArgs = [] then type
  else type.bind (types.substituteType fn.templateArgs key.templateArgs)

def TCFunction.newInstance (types : CallTypes Ty) (fn : TCFunction Ty) (fnIndex : Nat) (key : InstanceKey Ty) :
    TCFunction Ty where
  name := fn.name
  returnType := fn.substituted types key fn.returnType
  contextType := fn.substituted types key fn.contextType
  params := List.zipWith (fun param type => { param with type }) fn.params key.paramTypes
  declNode := fn.declNode
  templateArgs := key.templateArgs
  templateRootFuncIndex := some fnIndex
  variadic := fn.variadic
  template := true
  templateInstance := true

/-- A template that has neither a parameter of any type nor type parameters stands for itself. -/
def TCFunction.needsInstance (fn : TCFunction Ty) : Bool :=
  fn.template && !fn.templateInstance && (fn.params.any (isAnytypeParam scope) || !fn.templateArgs.isEmpty)

/-- The length of the table of type arguments on the stack. -/
def MAX_TEMPLATE_ARGS : Nat := 64

/-- `H2TCInstantiateAnytypeFunctionForCall`: the index of the function that stands for a candidate, and the table,
which may have grown. -/
def instantiateAnytypeFunctionForCall (call : CollectedCall) (autoRefFirstArgType : Option Ty)
    (funcs : List (TCFunction Ty)) (fnIndex : Nat) (fn : TCFunction Ty) :
    Except NoInstance Nat × List (TCFunction Ty) :=
  if fn.template = false ∨ fn.templateInstance then (.ok fnIndex, funcs)
  else if MAX_CALL_ARGS < fn.params.length ∨ MAX_TEMPLATE_ARGS < fn.templateArgs.length then (.error .stopped, funcs)
  else if fn.needsInstance scope = false then (.ok fnIndex, funcs)
  else
    match instanceKey scope call autoRefFirstArgType fn with
    | .error e => (.error e, funcs)
    | .ok key =>
      match funcs.findIdx? (fn.isInstanceOf key) with
      | some j => (.ok j, funcs)
      | none => (.ok funcs.length, funcs ++ [fn.newInstance scope.types fnIndex key])

end

end HopHop
