import HopHop.JoinedName
import HopHop.Package

namespace HopHop

/-- A name and what is written in its place. -/
structure IdentMap where
  name : List UInt8
  replacement : List UInt8
  deriving DecidableEq, Repr

def findIdentReplacement (maps : List IdentMap) (name : List UInt8) : Option (List UInt8) :=
  (maps.find? (·.name = name)).map IdentMap.replacement

def buildPrefixedName (alias_ name : List UInt8) : List UInt8 := alias_ ++ bytesOf "__" ++ name

theorem buildPrefixedName_eq (alias_ name : List UInt8) :
    buildPrefixedName alias_ name = Joined.joined Byte.underscore 2 alias_ name := rfl

namespace PackageLoader

variable (loader : PackageLoader) (imports : List ImportRef)

/-- The first import that a selector can go through: it binds the name, and its package exports the other one. -/
def selectedImport (bind name : List UInt8) : Option ImportRef :=
  imports.find? fun imp => imp.bindName = some bind ∧ (imp.target.bind loader.find).any (·.hasExport name)

/-- What is written for a selector. -/
def selectorName (bind name : List UInt8) : Option (List UInt8) :=
  (loader.selectedImport imports bind name).map fun imp => imp.alias_ ++ bytesOf "__" ++ name

variable (src : List UInt8)

def sliceText (start stop : Nat) : List UInt8 := (src.drop start).take (stop - start)

/-- A token and the two behind it that make a selector: what is written for them, and where they end. -/
def rewriteSelector (t : Token) : List Token → Option (List UInt8 × Nat)
  | dot :: name :: _ =>
    if t.kind = .IDENT ∧ dot.kind = .DOT ∧ name.kind = .IDENT then
      (loader.selectorName imports (sliceText src t.start t.stop) (sliceText src name.start name.stop)).map
        fun text => (text, name.stop)
    else none
  | _ => none

def rewriteIdent (maps : List IdentMap) (t : Token) : List UInt8 :=
  let text := sliceText src t.start t.stop
  if t.kind = .IDENT then (findIdentReplacement maps text).getD text else text

/-- The loop over the tokens: those that were written already are skipped, and the text before a token is copied from
where the last one ended. -/
def rewriteTokens (maps : List IdentMap) : List Token → (skip copyPos : Nat) → List UInt8
  | [], _, copyPos => src.drop copyPos
  | _ :: rest, skip + 1, copyPos => rewriteTokens maps rest skip copyPos
  | t :: rest, 0, copyPos =>
    if t.kind = .EOF then src.drop copyPos
    else
      match rewriteSelector loader imports src t rest with
      | some (text, stop) => sliceText src copyPos t.start ++ text ++ rewriteTokens maps rest 2 stop
      | none => sliceText src copyPos t.start ++ rewriteIdent src maps t ++ rewriteTokens maps rest 0 t.stop

def rewriteText (maps : List IdentMap) : Except PackageError (List UInt8) :=
  match lex src with
  | .error _ => .error (.message "rewrite lex failed")
  | .ok toks => .ok (loader.rewriteTokens imports src maps toks 0 0)

end PackageLoader

end HopHop
