import HopHop.TypeShape
import HopHop.TypeSignature

namespace HopHop

/-- What the root of a written type says, its parts apart. -/
inductive TypeLabel
  | name (name : List UInt8)
  | made (head : TypeShape Unit)
  /-- What stands under a pointer or a reference: a slice there has the rights that go with it. -/
  | pointee (isPtr : Bool)
  /-- The type of a variadic parameter, a slice of what is written. -/
  | variadic
  /-- The result of a function type that has none. -/
  | noResult
  deriving DecidableEq, Repr

/-- A type as it is written, without places and without a table. -/
inductive TypeTerm
  | node (label : TypeLabel) (parts : List TypeTerm)

/-- The type under a pointer or a reference. -/
def TypeTerm.underPointer (isPtr : Bool) : TypeTerm → TypeTerm
  | .node (.made (.slice ..)) elems => .node (.made (.slice () isPtr)) elems
  | t => .node (.pointee isPtr) [t]

/-- The values that array lengths written as expressions have, and the types that constants hold. -/
structure TypeValues where
  arrayLen : AstNode → NodeList → UInt32
  constantType : List UInt8 → TypeId

/-- A child of a type node with the type that is written there, if it is one. -/
structure WrittenPart where
  node : AstNode
  kids : NodeList
  term : Option TypeTerm

/-- The number that decimal digits say. -/
def decimal (digits : List UInt8) : Nat := digits.foldl (fun v ch => v * 10 + (ch - 0x30).toNat) 0

/-- An array length in digits, which 32 bits must hold. -/
def writtenLen (digits : List UInt8) : Option UInt32 :=
  if digits.all (fun ch => 0x30 ≤ ch && ch ≤ 0x39) ∧ decimal digits < 2 ^ 32 then
    some (UInt32.ofNat (decimal digits))
  else none

namespace WrittenPart

/-- The parts of a function type that are parameters. -/
def params (parts : List WrittenPart) : List WrittenPart := parts.filter (·.node.flags ≠ 1)

/-- The type of a parameter, a slice if the parameter is variadic. -/
def paramTerm (n : AstNode) (term : Option TypeTerm) : Option TypeTerm :=
  if n.has AstFlag.PARAM_VARIADIC then term.map fun t => .node .variadic [t] else term

def resultTerm (parts : List WrittenPart) : Option TypeTerm :=
  match parts.filter (·.node.flags = 1) with
  | [] => some (.node .noResult [])
  | [result] => result.term
  | _ => none

section

variable (src : List UInt8) (values : TypeValues)

def bytesFrom (start stop : Nat) : List UInt8 := (src.drop start).take (stop - start)

/-- The length of an array type. -/
def lenOf (n : AstNode) : List WrittenPart → Option UInt32
  | [] => if n.dataEnd ≤ n.dataStart then none else writtenLen (bytesFrom src n.dataStart n.dataEnd)
  | [len] => some (values.arrayLen len.node len.kids)
  | _ => none

/-- The type that a node writes, from what its children write. -/
def combine (n : AstNode) (parts : List WrittenPart) : Option TypeTerm :=
  match n.kind with
  | .TYPE_NAME => (parts.mapM term).map (.node (.name (bytesFrom src n.dataStart n.dataEnd)))
  | .TYPE_PTR => (parts.head?.bind term).map fun t => .node (.made (.ptr ())) [t.underPointer true]
  | .TYPE_REF => (parts.head?.bind term).map fun t => .node (.made (.ref () false)) [t.underPointer false]
  | .TYPE_MUTREF => (parts.head?.bind term).map fun t => .node (.made (.ref () true)) [t.underPointer false]
  | .TYPE_ARRAY => do
    let len ← lenOf src values n parts.tail
    let base ← parts.head?.bind term
    return .node (.made (.array () len)) [base]
  | .TYPE_SLICE => (parts.head?.bind term).map fun t => .node (.made (.slice () false)) [t]
  | .TYPE_MUTSLICE => (parts.head?.bind term).map fun t => .node (.made (.slice () true)) [t]
  | .TYPE_OPTIONAL => (parts.head?.bind term).map fun t => .node (.made (.optional ())) [t]
  | .TYPE_FN => do
    let result ← resultTerm parts
    let types ← (params parts).mapM fun p => paramTerm p.node p.term
    let consts := (params parts).map fun p => ((), p.node.has AstFlag.PARAM_CONST)
    let isVariadic := (params parts).any (·.node.has AstFlag.PARAM_VARIADIC)
    return .node (.made (.function () consts isVariadic)) (result :: types)
  | .TYPE_TUPLE => (parts.mapM term).map fun elems => .node (.made (.tuple (elems.map fun _ => ()))) elems
  | .TYPE_ANON_STRUCT => (parts.mapM term).map fun types =>
    .node (.made (.anonStruct (parts.map fun p => (bytesFrom src p.node.dataStart p.node.dataEnd, ())))) types
  | .TYPE_ANON_UNION => (parts.mapM term).map fun types =>
    .node (.made (.anonUnion (parts.map fun p => (bytesFrom src p.node.dataStart p.node.dataEnd, ())))) types
  | .FIELD => parts.head?.bind term
  | _ => none

end

end WrittenPart

namespace NodeList

variable (src : List UInt8) (values : TypeValues)

/-- What the children of a node write. -/
def parts : NodeList → List WrittenPart
  | nil => []
  | cons _ n kids rest => ⟨n, kids, WrittenPart.combine src values n kids.parts⟩ :: rest.parts

end NodeList

/-- The type that a type node writes. -/
def AstNode.written (src : List UInt8) (values : TypeValues) (n : AstNode) (kids : NodeList) : Option TypeTerm :=
  WrittenPart.combine src values n (kids.parts src values)

/-- The type of a function parameter: what its first child writes, a slice if it is variadic. -/
def AstNode.writtenParam (src : List UInt8) (values : TypeValues) (n : AstNode) (kids : NodeList) : Option TypeTerm :=
  WrittenPart.paramTerm n ((kids.parts src values).head?.bind WrittenPart.term)

end HopHop
