import HopHop.Token

namespace HopHop

/-- The range of a name in the source. An absent name is an empty range. -/
structure NameRange where
  start : Nat
  stop : Nat
  deriving DecidableEq, Repr

namespace NameRange

def absent : NameRange := ⟨0, 0⟩

def isPresent (name : NameRange) : Bool := name.start < name.stop

def bytes (src : List UInt8) (name : NameRange) : List UInt8 := (src.drop name.start).take (name.stop - name.start)

/-- `H2NameEqSlice`. -/
def eqSlice (src : List UInt8) (a b : NameRange) : Bool :=
  a.start ≤ a.stop ∧ b.start ≤ b.stop ∧ a.bytes src = b.bytes src

end NameRange

def MAX_CALL_ARGS : Nat := 128

def MAX_CALL_CANDIDATES : Nat := 256

/-- `H2TCCallArgInfo`: an argument of a call, and the name the call gives it or the name of the variable it is. -/
structure CallArgInfo where
  exprNode : Nat
  start : Nat
  stop : Nat
  explicitName : NameRange
  implicitName : NameRange
  spread : Bool
  deriving DecidableEq, Repr

structure CallMapError where
  code : DiagCode
  start : Nat
  stop : Nat
  argStart : Nat
  argStop : Nat
  deriving DecidableEq, Repr

namespace CallMapError

/-- `H2TCCallMapErrorClear`. -/
def clear : CallMapError := ⟨.NONE, 0, 0, 0, 0⟩

/-- An error at an argument that says nothing else. -/
def atArg (code : DiagCode) (a : CallArgInfo) : CallMapError := ⟨code, a.start, a.stop, 0, 0⟩

/-- An error at an argument that names a parameter or another argument. -/
def naming (code : DiagCode) (a : CallArgInfo) (name : NameRange) : CallMapError :=
  ⟨code, a.start, a.stop, name.start, name.stop⟩

end CallMapError

section

variable (src : List UInt8) (names : List NameRange) (firstPositionalArgIndex : Nat)

def paramName (p : Nat) : NameRange := (names[p]?).getD .absent

def paramNameStartsWithUnderscore (p : Nat) : Bool :=
  (paramName names p).isPresent ∧ src[(paramName names p).start]? = some Byte.underscore

/-- The loop of `H2TCPositionalCallPrefixEnd`, with the number of parameters that are left. -/
def positionalPrefixFrom : Nat → Nat → Nat
  | 0, p => p
  | left + 1, p => if paramNameStartsWithUnderscore src names p then positionalPrefixFrom left (p + 1) else p

def positionalCallPrefixEnd : Nat :=
  if names.length ≤ firstPositionalArgIndex then names.length
  else positionalPrefixFrom src names (names.length - (firstPositionalArgIndex + 1)) (firstPositionalArgIndex + 1)

/-- The parameters as they are filled: the expression each is bound to. -/
abbrev MappedArgs := List (Option Nat)

/-- The argument goes to the parameter of that name. -/
def mapNamedArg (a : CallArgInfo) (name : NameRange) (mapped : MappedArgs) : Except CallMapError MappedArgs :=
  match (List.range names.length).find? fun p =>
      firstPositionalArgIndex < p ∧ name.eqSlice src (paramName names p) with
  | none => .error (.naming .CALL_ARG_UNKNOWN_NAME a name)
  | some p =>
    if (mapped[p]?.join).isSome then .error (.naming .CALL_ARG_DUPLICATE a name)
    else .ok (mapped.set p (some a.exprNode))

def argNameRequired (a : CallArgInfo) : CallMapError :=
  let positionalPrefixEnd := positionalCallPrefixEnd src names firstPositionalArgIndex
  if positionalPrefixEnd = firstPositionalArgIndex + 1 then .atArg .CALL_ARG_NAME_REQUIRED a
  else if positionalPrefixEnd < names.length then
    .naming .CALL_ARG_NAME_REQUIRED_AFTER_PARAM a (paramName names positionalPrefixEnd)
  else .atArg .CALL_ARG_NAME_REQUIRED_AFTER_PARAM a

def mapArg (i : Nat) (a : CallArgInfo) (mapped : MappedArgs) : Except CallMapError MappedArgs :=
  if i < firstPositionalArgIndex then .ok (mapped.set i (some a.exprNode))
  else if i = firstPositionalArgIndex then .ok mapped
  else if a.explicitName.isPresent then mapNamedArg src names firstPositionalArgIndex a a.explicitName mapped
  else if i < positionalCallPrefixEnd src names firstPositionalArgIndex then .ok (mapped.set i (some a.exprNode))
  else if a.implicitName.isPresent then mapNamedArg src names firstPositionalArgIndex a a.implicitName mapped
  else .error (argNameRequired src names firstPositionalArgIndex a)

def mapArgsFrom : Nat → List CallArgInfo → MappedArgs → Except CallMapError MappedArgs
  | _, [], mapped => .ok mapped
  | i, a :: rest, mapped =>
    match mapArg src names firstPositionalArgIndex i a mapped with
    | .error e => .error e
    | .ok mapped => mapArgsFrom (i + 1) rest mapped

/-- The first positional argument goes to its own place, and may only be named after it. -/
def mapFirstArg (args : List CallArgInfo) (mapped : MappedArgs) : Except CallMapError MappedArgs :=
  match args[firstPositionalArgIndex]? with
  | none => .ok mapped
  | some a =>
    let name := paramName names firstPositionalArgIndex
    if a.explicitName.isPresent ∧ ¬ a.explicitName.eqSlice src name then
      .error (.naming .CALL_FIRST_ARG_NAME_MISMATCH a name)
    else .ok (mapped.set firstPositionalArgIndex (some a.exprNode))

def argMissing (args : List CallArgInfo) (name : NameRange) : CallMapError :=
  match args.head?, args.getLast? with
  | some first, some last => ⟨.CALL_ARG_MISSING, first.start, last.stop, name.start, name.stop⟩
  | _, _ => ⟨.CALL_ARG_MISSING, name.start, name.stop, name.start, name.stop⟩

/-- `H2TCMapCallArgsToParams`. The cleared error stands for a failure that is not explained. -/
def mapCallArgsToParams (args : List CallArgInfo) : Except CallMapError MappedArgs :=
  if MAX_CALL_ARGS < names.length ∨ names.length < args.length then .error .clear
  else
    match mapFirstArg src names firstPositionalArgIndex args (names.map fun _ => none) with
    | .error e => .error e
    | .ok mapped =>
      match mapArgsFrom src names firstPositionalArgIndex 0 args mapped with
      | .error e => .error e
      | .ok mapped =>
        match mapped.findIdx? (·.isNone) with
        | some p => .error (argMissing args (paramName names p))
        | none => .ok mapped

end

/-- What the resolution of a call asks of the types it meets. Types are interned, so that they are compared as values;
`none` is the failure of an operation. -/
structure CallTypes (Ty : Type) where
  anytype : Ty
  /-- The element type of a slice entry. -/
  sliceElem : Ty → Option Ty
  /-- The component types of a pack entry. -/
  packElems : Ty → Option (List Ty)
  /-- The pack that a type is an alias of. -/
  spreadPack : Ty → Option Ty
  isMutableRefType : Ty → Bool
  canAssign : Ty → Ty → Bool
  conversionCost : Ty → Ty → Option UInt8
  concretizeInferredType : Ty → Option Ty
  /-- Binds the type parameters that stand in a parameter's type, given the type of the argument. -/
  inferTemplateArgsFromTypes : List Ty → Ty → Ty → List (Option Ty) → Option (List (Option Ty))
  substituteType : List Ty → List Ty → Ty → Option Ty
  internPackType : List Ty → Option Ty
  internPtrType : Ty → Option Ty

/-- `H2TCCallBinding`. The lists hold one entry for each argument, the mapped expressions one for each fixed
parameter. -/
structure CallBinding (Ty : Type) where
  isVariadic : Bool
  fixedCount : Nat
  fixedInputCount : Nat
  spreadArgIndex : Option Nat
  variadicParamType : Option Ty
  variadicElemType : Option Ty
  fixedMappedArgExprNodes : MappedArgs
  argParamIndices : List Nat
  argExpectedTypes : List Ty
  deriving DecidableEq, Repr

section

variable {Ty : Type} [DecidableEq Ty] (types : CallTypes Ty)

/-- The index of the spread argument, which can only be the last one. -/
def spreadArgIndex (args : List CallArgInfo) : Except CallMapError (Option Nat) :=
  match args.dropLast.find? CallArgInfo.spread with
  | some a => .error (.atArg .VARIADIC_SPREAD_NOT_LAST a)
  | none => .ok (if args.getLast?.any CallArgInfo.spread then some (args.length - 1) else none)

/-- What stands behind the fixed parameters of a variadic function: one element type, or the types of a pack. -/
inductive VariadicTail (Ty : Type)
  | each (elem : Ty) | pack (elems : List Ty)
  deriving DecidableEq, Repr

def variadicTail (variadicParamType : Ty) : Option (VariadicTail Ty) :=
  match types.sliceElem variadicParamType, types.packElems variadicParamType with
  | some elem, _ => some (.each elem)
  | none, some elems => some (.pack elems)
  | none, none => if variadicParamType = types.anytype then some (.each types.anytype) else none

def VariadicTail.elemType : VariadicTail Ty → Option Ty
  | .each elem => some elem
  | .pack _ => none

/-- The checks of the shape of a call, for a function that is variadic and one that is not. -/
def checkCallShape (args : List CallArgInfo) (paramTypes : List Ty) (isVariadic : Bool) (spread : Option Nat) :
    Except CallMapError (Option (Ty × VariadicTail Ty)) :=
  let spreadArg := spread.bind (args[·]?)
  if isVariadic = false then
    match spreadArg with
    | some a => .error (.atArg .VARIADIC_CALL_SHAPE_MISMATCH a)
    | none => if args.length ≠ paramTypes.length then .error .clear else .ok none
  else
    match paramTypes.getLast? with
    | none => .error .clear
    | some variadicParamType =>
      let fixedCount := paramTypes.length - 1
      match variadicTail types variadicParamType, spreadArg with
      | none, _ => .error .clear
      | some tail, some a =>
        if args.length ≠ fixedCount + 1 ∨ a.explicitName.isPresent then
          .error (.atArg .VARIADIC_CALL_SHAPE_MISMATCH a)
        else .ok (some (variadicParamType, tail))
      | some tail, none =>
        if args.length < fixedCount then .error .clear
        else
          match tail with
          | .pack elems =>
            if args.length - fixedCount ≠ elems.length then .error .clear else .ok (some (variadicParamType, tail))
          | .each _ => .ok (some (variadicParamType, tail))

/-- The parameter an argument of the fixed part was mapped to. -/
def boundParam (allowNamedMapping : Bool) (firstPositionalArgIndex fixedCount : Nat) (mapped : MappedArgs) (i : Nat)
    (a : CallArgInfo) : Option Nat :=
  if allowNamedMapping = false ∧ i < fixedCount then some i
  else if i < firstPositionalArgIndex ∧ i < fixedCount then some i
  else if i = firstPositionalArgIndex ∧ i < fixedCount ∧ mapped[i]?.join = some a.exprNode then some i
  else mapped.findIdx? (· = some a.exprNode)

/-- The parameters and the types of the arguments of the fixed part. -/
def boundParams (allowNamedMapping : Bool) (firstPositionalArgIndex fixedCount : Nat) (mapped : MappedArgs)
    (paramTypes : List Ty) : Nat → List CallArgInfo → Option (List (Nat × Ty))
  | _, [] => some []
  | i, a :: rest =>
    match boundParam allowNamedMapping firstPositionalArgIndex fixedCount mapped i a with
    | none => none
    | some p =>
      match paramTypes[p]?, boundParams allowNamedMapping firstPositionalArgIndex fixedCount mapped paramTypes (i + 1) rest with
      | some ty, some bound => some ((p, ty) :: bound)
      | _, _ => none

/-- The parameters and the types of the arguments behind the fixed part. -/
def boundTail (fixedCount : Nat) (variadicParamType : Ty) (tail : VariadicTail Ty) (spread : Option Nat) :
    Nat → List CallArgInfo → Except CallMapError (List (Nat × Ty))
  | _, [] => .ok []
  | k, a :: rest =>
    if spread.isSome then .ok [(fixedCount, variadicParamType)]
    else if a.explicitName.isPresent then .error (.atArg .VARIADIC_CALL_SHAPE_MISMATCH a)
    else
      let elem := match tail with
        | .each elem => some elem
        | .pack elems => elems[k]?
      match elem with
      | none => .error .clear
      | some ty =>
        match boundTail fixedCount variadicParamType tail spread (k + 1) rest with
        | .error e => .error e
        | .ok bound => .ok ((fixedCount, ty) :: bound)

/-- The expressions the fixed parameters are bound to. -/
def mapFixedArgs (src : List UInt8) (names : List NameRange) (firstPositionalArgIndex : Nat) (allowNamedMapping : Bool)
    (fixedArgs : List CallArgInfo) (fixedCount : Nat) : Except CallMapError MappedArgs :=
  if fixedCount = 0 then .ok []
  else if allowNamedMapping = false then
    if fixedCount < fixedArgs.length then .error .clear else .ok (fixedArgs.map fun a => some a.exprNode)
  else mapCallArgsToParams src (names.take fixedCount) firstPositionalArgIndex fixedArgs

/-- `H2TCPrepareCallBinding`. The cleared error stands for the status 1, any other for the status 2. -/
def prepareCallBinding (src : List UInt8) (args : List CallArgInfo) (names : List NameRange) (paramTypes : List Ty)
    (isVariadic allowNamedMapping : Bool) (firstPositionalArgIndex : Nat) : Except CallMapError (CallBinding Ty) :=
  if MAX_CALL_ARGS < paramTypes.length ∨ MAX_CALL_ARGS < args.length then .error .clear
  else
    match spreadArgIndex args with
    | .error e => .error e
    | .ok spread =>
      match checkCallShape types args paramTypes isVariadic spread with
      | .error e => .error e
      | .ok variadic =>
        let fixedCount := if isVariadic then paramTypes.length - 1 else paramTypes.length
        let fixedInputCount := if isVariadic then fixedCount else args.length
        let fixedArgs := args.take fixedInputCount
        match mapFixedArgs src names firstPositionalArgIndex allowNamedMapping fixedArgs fixedCount with
        | .error e => .error e
        | .ok mapped =>
          match boundParams allowNamedMapping firstPositionalArgIndex fixedCount mapped paramTypes 0 fixedArgs with
          | none => .error .clear
          | some fixedBound =>
            let tailBound : Except CallMapError (List (Nat × Ty)) := match variadic with
              | none => .ok []
              | some (variadicParamType, tail) =>
                boundTail fixedCount variadicParamType tail spread 0 (args.drop fixedInputCount)
            match tailBound with
            | .error e => .error e
            | .ok tailBound =>
              .ok
                { isVariadic, fixedCount, fixedInputCount
                  spreadArgIndex := spread
                  variadicParamType := variadic.map Prod.fst
                  variadicElemType := variadic.bind fun v => v.2.elemType
                  fixedMappedArgExprNodes := mapped
                  argParamIndices := (fixedBound ++ tailBound).map Prod.fst
                  argExpectedTypes := (fixedBound ++ tailBound).map Prod.snd }

end

end HopHop
