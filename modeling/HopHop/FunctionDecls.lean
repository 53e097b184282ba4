import HopHop.CallTemplate
import HopHop.TypeResolve

namespace HopHop.Decls

/-- The codes of the errors: those of the reader of types, and the ones that only functions have. -/
inductive CollectCode
  | common (code : DiagCode)
  | INVALID_COMPARISON_HOOK_SIGNATURE | GENERIC_FN_ZERO_ARG_RETURN_FORBIDDEN | CONTEXT_CLAUSE_MISMATCH
  | DUPLICATE_DEFINITION
  deriving DecidableEq, Repr

structure CollectDiag where
  code : CollectCode
  start : Nat
  stop : Nat
  deriving DecidableEq, Repr

def refuse {α : Type} (code : CollectCode) (start stop : Nat) : Except CollectDiag α := .error ⟨code, start, stop⟩

def refuseAt {α : Type} (n : AstNode) (code : DiagCode) : Except CollectDiag α := refuse (.common code) n.start n.stop

/-- What collecting takes from the rest of the checker. A type node is read in a declaration, whose type parameters are
types of its own, with or without `anytype` and the types of constants. -/
structure SignatureScope (Ty : Type) where
  src : List UInt8
  scratchParamCap : Nat
  typeVoid : Ty
  typeBool : Ty
  typeIsize : Ty
  typeAnytype : Ty
  typeUntypedInt : Ty
  typeUntypedFloat : Ty
  typeParam : Nat → AstNode → Ty
  resolveTypeNode : Nat → Bool → Bool → AstNode → NodeList → Except Diag Ty
  containsVarSizeByValue : Ty → Bool
  containsAnyParam : Ty → List Ty → Bool
  sliceType : Ty → Ty
  canAssign : Ty → Ty → Bool

/-- What `H2TCReadFunctionSig` has read of a signature. -/
structure FunctionSig (Ty : Type) where
  returnType : Ty
  params : List (FnParam Ty)
  isVariadic : Bool
  contextType : Option Ty
  hasBody : Bool
  hasNamedSuffix : Bool
  deriving DecidableEq, Repr

/-- `H2TCFunction` while functions are collected: with the node that has its body. -/
structure DeclaredFunction (Ty : Type) extends TCFunction Ty where
  defNode : Option Nat
  deriving DecidableEq, Repr

/-- A node of a function, and what is below it. -/
structure FnDecl where
  id : Nat
  node : AstNode
  kids : NodeList

def FnDecl.name (d : FnDecl) : NameRange := ⟨d.node.dataStart, d.node.dataEnd⟩

section

variable {Ty : Type} [DecidableEq Ty] (scope : SignatureScope Ty)

def resolve (declNode : Nat) (anytype constNumeric : Bool) (n : AstNode) (kids : NodeList) : Except CollectDiag Ty :=
  match scope.resolveTypeNode declNode anytype constNumeric n kids with
  | .ok type => .ok type
  | .error diag => refuse (.common diag.code) diag.start diag.stop

/-- The name of a parameter starts with an underscore. -/
def isAnonName (n : AstNode) : Bool :=
  n.dataStart < n.dataEnd ∧ scope.src[n.dataStart]? = some '_'.toNat.toUInt8

/-- The type of a parameter, with its checks. -/
def readParamType (declNode : Nat) (n : AstNode) (kids : NodeList) : Except CollectDiag Ty :=
  match kids with
  | .nil => refuse (.common .EXPECTED_TYPE) 0 0
  | .cons _ typeNode typeKids _ => do
    let type ← resolve scope declNode true true typeNode typeKids
    if (type = scope.typeUntypedInt ∨ type = scope.typeUntypedFloat) ∧ ¬n.has AstFlag.PARAM_CONST then
      refuse (.common .CONST_NUMERIC_PARAM_REQUIRES_CONST) n.dataStart n.dataEnd
    else if scope.containsVarSizeByValue type then refuseAt typeNode .VAR_SIZE_BYVALUE_FORBIDDEN
    else if n.has AstFlag.PARAM_VARIADIC ∧ type ≠ scope.typeAnytype then return scope.sliceType type
    else return type

/-- The loop of `H2TCReadFunctionSig` over the children of a function node. -/
def readSigParts (declNode : Nat) : NodeList → FunctionSig Ty → Except CollectDiag (FunctionSig Ty)
  | .nil, sig => .ok sig
  | .cons _ n kids rest, sig =>
    if n.kind = .PARAM then
      if sig.params ≠ [] ∧ isAnonName scope n ∧ sig.hasNamedSuffix then
        refuse (.common .PARAM_ANON_AFTER_NAMED) n.dataStart n.dataEnd
      else if scope.scratchParamCap ≤ sig.params.length then refuseAt n .ARENA_OOM
      else do
        let type ← readParamType scope declNode n kids
        readSigParts declNode rest
          { sig with
            params := sig.params ++ [⟨⟨n.dataStart, n.dataEnd⟩, type, n.has AstFlag.PARAM_CONST⟩]
            isVariadic := sig.isVariadic || n.has AstFlag.PARAM_VARIADIC
            hasNamedSuffix := sig.hasNamedSuffix || (sig.params ≠ [] && !isAnonName scope n) }
    else if TypeReader.isTypeNodeKind n.kind ∧ n.flags = 1 then
      if TypeReader.maxCallArgs < sig.params.length then refuseAt n .ARENA_OOM
      else do
        let returnType ← resolve scope declNode false true n kids
        if scope.containsVarSizeByValue returnType then refuseAt n .VAR_SIZE_BYVALUE_FORBIDDEN
        else readSigParts declNode rest { sig with returnType }
    else if n.kind = .CONTEXT_CLAUSE then
      if sig.contextType ≠ none then refuseAt n .UNEXPECTED_TOKEN
      else
        match kids with
        | .nil => refuseAt n .EXPECTED_TYPE
        | .cons _ typeNode typeKids _ => do
          let contextType ← resolve scope declNode false false typeNode typeKids
          readSigParts declNode rest { sig with contextType := some contextType }
    else if n.kind = .BLOCK then readSigParts declNode rest { sig with hasBody := true }
    else readSigParts declNode rest sig

def readFunctionSig (d : FnDecl) : Except CollectDiag (FunctionSig Ty) :=
  readSigParts scope d.id d.kids ⟨scope.typeVoid, [], false, none, false, false⟩

/-- `H2TCAppendDeclTypeParamPlaceholders` -/
def typeParams (declNode : Nat) : NodeList → List Ty
  | .nil => []
  | .cons _ n _ rest =>
    if n.kind = .TYPE_PARAM then scope.typeParam declNode n :: typeParams declNode rest else typeParams declNode rest

/-- Whether a signature is one of a comparison hook: two parameters, the second assignable to the first, no context. -/
def isHookSignature (sig : FunctionSig Ty) (isEqualHook : Bool) : Bool :=
  match sig.params with
  | [first, second] =>
    sig.contextType.isNone && decide (sig.returnType = if isEqualHook then scope.typeBool else scope.typeIsize)
      && scope.canAssign first.type second.type
  | _ => false

/-- The checks of `H2TCCollectFunctionFromNode` on a function alone. -/
def checkFunction (d : FnDecl) (sig : FunctionSig Ty) : Except CollectDiag Unit :=
  let name := d.name.bytes scope.src
  let genericArgs := typeParams scope d.id d.kids
  if sig.contextType ≠ none ∧ name = bytesOf "main" then refuseAt d.node .UNEXPECTED_TOKEN
  else if (name = bytesOf "__equal" ∨ name = bytesOf "__order")
      ∧ isHookSignature scope sig (name = bytesOf "__equal") = false then
    refuse .INVALID_COMPARISON_HOOK_SIGNATURE d.node.start d.node.stop
  else if genericArgs ≠ [] ∧ sig.params = [] ∧ scope.containsAnyParam sig.returnType genericArgs then
    refuse .GENERIC_FN_ZERO_ARG_RETURN_FORBIDDEN d.node.start d.node.stop
  else .ok ()

/-- The entry of a function that is declared for the first time. -/
def newFunction (d : FnDecl) (sig : FunctionSig Ty) : DeclaredFunction Ty where
  name := d.name
  returnType := some sig.returnType
  contextType := sig.contextType
  params := sig.params
  declNode := d.id
  templateArgs := typeParams scope d.id d.kids
  templateRootFuncIndex := none
  variadic := sig.isVariadic
  template := (sig.params.any fun p => p.type = scope.typeAnytype) || typeParams scope d.id d.kids ≠ []
  templateInstance := false
  defNode := if sig.hasBody then some d.id else none

/-- A function with its signature, if that can be read and passes the checks. -/
def readFunction (d : FnDecl) : Except CollectDiag (DeclaredFunction Ty) := do
  let sig ← readFunctionSig scope d
  checkFunction scope d sig
  return newFunction scope d sig

def functionNameEq (f new : DeclaredFunction Ty) : Prop := f.name.bytes scope.src = new.name.bytes scope.src

/-- What is compared before the context types. -/
def sameShape (f new : DeclaredFunction Ty) : Prop :=
  f.params.length = new.params.length ∧ f.returnType = new.returnType ∧ f.variadic = new.variadic

def paramIdentity (f : DeclaredFunction Ty) : List (Ty × Bool) := f.params.map fun p => (p.type, p.isConst)

/-- `H2TCFunctionIdentityMatchesScratch` -/
def functionIdentityMatches (f new : DeclaredFunction Ty) : Prop :=
  sameShape f new ∧ f.contextType = new.contextType ∧ paramIdentity f = paramIdentity new

instance (f new : DeclaredFunction Ty) : Decidable (functionNameEq scope f new) :=
  inferInstanceAs (Decidable (_ = _))

instance (f new : DeclaredFunction Ty) : Decidable (sameShape f new) := inferInstanceAs (Decidable (_ ∧ _))

instance (f new : DeclaredFunction Ty) : Decidable (functionIdentityMatches f new) := inferInstanceAs (Decidable (_ ∧ _))

/-- The loop of `H2TCCollectFunctionFromNode` over the functions so far. -/
def addFunction (node : AstNode) (new : DeclaredFunction Ty) :
    List (DeclaredFunction Ty) → Except CollectDiag (List (DeclaredFunction Ty))
  | [] => .ok [new]
  | f :: funcs =>
    if ¬functionNameEq scope f new then (f :: ·) <$> addFunction node new funcs
    else if ¬sameShape f new then (f :: ·) <$> addFunction node new funcs
    else if f.contextType ≠ new.contextType then refuse .CONTEXT_CLAUSE_MISMATCH node.start node.stop
    else if ¬functionIdentityMatches f new then (f :: ·) <$> addFunction node new funcs
    else if new.defNode.isSome then
      if f.defNode.isSome then refuse .DUPLICATE_DEFINITION node.dataStart node.dataEnd
      else .ok ({ f with defNode := new.defNode } :: funcs)
    else .ok (f :: funcs)

/-- `H2TCCollectFunctionFromNode` on a function node. -/
def collectFunction (funcs : List (DeclaredFunction Ty)) (d : FnDecl) :
    Except CollectDiag (List (DeclaredFunction Ty)) := do
  let new ← readFunction scope d
  addFunction scope d.node new funcs

/-- `H2TCCollectFunctionDecls`, and `H2TCCollectFunctionFromNode` on what is public. -/
def collectFunctionDecls : NodeList → List (DeclaredFunction Ty) → Except CollectDiag (List (DeclaredFunction Ty))
  | .nil, funcs => .ok funcs
  | .cons id n kids rest, funcs => do
    let funcs ←
      if n.kind = .PUB then collectFunctionDecls kids funcs
      else if n.kind = .FN then collectFunction scope funcs ⟨id.toNat, n, kids⟩
      else .ok funcs
    collectFunctionDecls rest funcs

end

end HopHop.Decls
