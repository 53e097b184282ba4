import HopHop.Ast
import HopHop.Lexer

namespace HopHop

/-- A reference to an entry of the package table: the block of memory that the table had when the reference was taken,
and the place in it. -/
structure PackageRef where
  block : Nat
  index : Nat
  deriving DecidableEq, Repr

/-- An import. The alias is the mangle prefix, the bind name is what the source text says before a dot. -/
structure ImportRef where
  alias_ : List UInt8
  bindName : Option (List UInt8)
  path : List UInt8
  target : Option PackageRef
  deriving DecidableEq, Repr

/-- A symbol of an import that is named on its own, and what it turned out to be. -/
structure ImportSymbolRef where
  importIndex : Nat
  sourceName : List UInt8
  localName : List UInt8
  qualifiedName : Option (List UInt8)
  isType : Bool
  isFunction : Bool
  useWrapper : Bool
  fnShapeKey : Option (List UInt8)
  deriving DecidableEq, Repr

structure SymbolDecl where
  kind : AstKind
  name : List UInt8
  deriving DecidableEq, Repr

inductive LoadState
  | alloc | loading | loaded
  deriving DecidableEq, Repr

structure Package where
  dirPath : List UInt8
  name : List UInt8
  loadState : LoadState
  imports : List ImportRef
  importSymbols : List ImportSymbolRef
  decls : List SymbolDecl
  pubDecls : List SymbolDecl
  deriving DecidableEq, Repr

/-- What is wrong with a package: a text, or a diagnostic of an import. -/
inductive PackageError
  | message (text : String)
  | IMPORT_FEATURE_IMPORT_EXTRAS
  | IMPORT_SIDE_EFFECT_ALIAS_WITH_SYMBOLS
  | IMPORT_ALIAS_INFERENCE_FAILED (path : List UInt8)
  | IMPORT_SYMBOL_ALIAS_INVALID
  deriving DecidableEq, Repr

/-- The part of a path behind its last slash. -/
def afterSlash (path : List UInt8) : List UInt8 := (path.reverse.takeWhile (· ≠ Byte.slash)).reverse

/-- `LastPathSegment`: a path that ends in a slash is taken whole. -/
def lastPathSegment (path : List UInt8) : List UInt8 := if afterSlash path = [] then path else afterSlash path

def isValidIdentifier : List UInt8 → Bool
  | [] => false
  | c :: rest => (isAlpha c || c = Byte.underscore) && rest.all isIdentPart

def isReservedHOPPrefixName (name : List UInt8) : Bool := (bytesOf "__hop_").isPrefixOf name

def defaultImportAlias (path : List UInt8) : Option (List UInt8) :=
  if isValidIdentifier (lastPathSegment path) then some (lastPathSegment path) else none

def isFeatureImportPath (path : List UInt8) : Bool :=
  (bytesOf "hophop/feature/").isPrefixOf path || (bytesOf "feature/").isPrefixOf path

def isImportAliasUsed (imports : List ImportRef) (alias_ : List UInt8) : Bool := imports.any (·.alias_ = alias_)

/-- A name with a number behind it. -/
def numberedAlias (preferred : List UInt8) (n : Nat) : List UInt8 :=
  preferred ++ [Byte.underscore] ++ bytesOf (toString n)

/-- An alias that no import of the package has: the name itself, or the name with the first number that does. -/
def makeUniqueImportAlias (imports : List ImportRef) (preferred : List UInt8) : Option (List UInt8) :=
  let preferred := if isValidIdentifier preferred then preferred else bytesOf "imp"
  if isImportAliasUsed imports preferred then
    ((List.range' 2 999998).find? fun n => !isImportAliasUsed imports (numberedAlias preferred n)).map
      (numberedAlias preferred)
  else some preferred

theorem makeUniqueImportAlias_unused {imports : List ImportRef} {preferred alias_ : List UInt8}
    (made : makeUniqueImportAlias imports preferred = some alias_) : isImportAliasUsed imports alias_ = false := by
  simp only [makeUniqueImportAlias] at made
  generalize (if isValidIdentifier preferred = true then preferred else bytesOf "imp") = base at made
  by_cases used : isImportAliasUsed imports base = true
  · rw [if_pos used] at made
    obtain ⟨n, found, rfl⟩ := Option.map_eq_some_iff.mp made
    have free := List.find?_some found
    simpa only [Bool.not_eq_true'] using free
  · rw [if_neg used] at made
    rw [← Option.some.inj made]
    simpa only [Bool.not_eq_true] using used

/-- An import declaration of a source file, with its path normalized. -/
structure ImportDecl where
  path : List UInt8
  aliasName : Option (List UInt8)
  symbols : List (List UInt8 × Option (List UInt8))
  deriving DecidableEq, Repr

/-- The name that an import binds, if it binds one: the hole `_` stands for no name. -/
def ImportDecl.boundName (d : ImportDecl) : Except PackageError (Option (List UInt8)) :=
  let isUnderscore := d.aliasName = some (bytesOf "_")
  let given := if isUnderscore then none else d.aliasName
  if isUnderscore ∧ d.symbols ≠ [] then .error .IMPORT_SIDE_EFFECT_ALIAS_WITH_SYMBOLS
  else if given = none ∧ d.symbols = [] then
    match defaultImportAlias d.path with
    | some name => .ok (some name)
    | none => .error (.IMPORT_ALIAS_INFERENCE_FAILED d.path)
  else .ok given

namespace Package

/-- The loop over the symbols of an import. -/
def addImportSymbols (importIndex : Nat) :
    List (List UInt8 × Option (List UInt8)) → Package → Except PackageError Package
  | [], pkg => .ok pkg
  | (sourceName, localName) :: symbols, pkg =>
    if localName.getD sourceName = bytesOf "_" then .error .IMPORT_SYMBOL_ALIAS_INVALID
    else
      addImportSymbols importIndex symbols
        { pkg with importSymbols :=
          pkg.importSymbols ++ [⟨importIndex, sourceName, localName.getD sourceName, none, false, false, false, none⟩] }

/-- The branch of `ProcessParsedFile` for an import. -/
def processImport (pkg : Package) (d : ImportDecl) : Except PackageError Package :=
  if isFeatureImportPath d.path then
    if d.aliasName ≠ none ∨ d.symbols ≠ [] then .error .IMPORT_FEATURE_IMPORT_EXTRAS else .ok pkg
  else
    match d.boundName with
    | .error e => .error e
    | .ok bindName =>
      if bindName.any isReservedHOPPrefixName then .error (.message "identifier prefix '__hop_' is reserved")
      else
        match makeUniqueImportAlias pkg.imports (bindName.getD (lastPathSegment d.path)) with
        | none => .error (.message "out of memory")
        | some alias_ =>
          addImportSymbols pkg.imports.length d.symbols
            { pkg with imports := pkg.imports ++ [⟨alias_, bindName, d.path, none⟩] }

def processImports : List ImportDecl → Package → Except PackageError Package
  | [], pkg => .ok pkg
  | d :: decls, pkg =>
    match pkg.processImport d with
    | .error e => .error e
    | .ok pkg => processImports decls pkg

def isBuiltinPackage (pkg : Package) : Bool := afterSlash pkg.dirPath = bytesOf "builtin"

/-- Every package but the built-in one imports that one, under a name that the text does not have. -/
def ensureImplicitBuiltinImport (pkg : Package) : Except PackageError Package :=
  if pkg.isBuiltinPackage || pkg.imports.any (·.path = bytesOf "builtin") then .ok pkg
  else
    match makeUniqueImportAlias pkg.imports (bytesOf "builtin") with
    | none => .error (.message "out of memory")
    | some alias_ => .ok { pkg with imports := pkg.imports ++ [⟨alias_, none, bytesOf "builtin", none⟩] }

def hasExport (pkg : Package) (name : List UInt8) : Bool := pkg.pubDecls.any (·.name = name)

def hasAnyDeclName (pkg : Package) (name : List UInt8) : Bool :=
  pkg.decls.any (·.name = name) || pkg.pubDecls.any (·.name = name)

/-! ### The names that an import binds -/

def importBindingConflict : PackageError := .message "import binding conflict"

/-- The loop over the imports: a name is bound once, and neither by a declaration nor by a named symbol. -/
def checkBindNames (pkg : Package) : List ImportRef → Except PackageError Unit
  | [] => .ok ()
  | imp :: imports =>
    match imp.bindName with
    | none => pkg.checkBindNames imports
    | some name =>
      if pkg.hasAnyDeclName name || imports.any (·.bindName = some name) || pkg.importSymbols.any (·.localName = name)
      then .error importBindingConflict
      else pkg.checkBindNames imports

/-- The loop over the symbols behind one: another function of the name is let through if it has another shape, and then
both are called through wrappers. -/
def compareSymbols (sym : ImportSymbolRef) : List ImportSymbolRef → Except PackageError (Bool × List ImportSymbolRef)
  | [] => .ok (false, [])
  | other :: others =>
    if other.localName ≠ sym.localName then
      (compareSymbols sym others).map fun (wrapped, rest) => (wrapped, other :: rest)
    else if sym.isFunction ∧ other.isFunction then
      if sym.fnShapeKey = none ∨ other.fnShapeKey = none then
        .error (.message "internal error: missing import function shape")
      else if sym.fnShapeKey ≠ other.fnShapeKey then
        (compareSymbols sym others).map fun (_, rest) => (true, { other with useWrapper := true } :: rest)
      else .error importBindingConflict
    else .error importBindingConflict

/-- The loop over the named symbols; the count bounds how many there are. -/
def checkSymbols (pkg : Package) : Nat → List ImportSymbolRef → Except PackageError (List ImportSymbolRef)
  | 0, symbols => .ok symbols
  | _ + 1, [] => .ok []
  | left + 1, sym :: others =>
    if pkg.hasAnyDeclName sym.localName then .error importBindingConflict
    else
      match compareSymbols sym others with
      | .error e => .error e
      | .ok (wrapped, others) =>
        (pkg.checkSymbols left others).map fun rest => { sym with useWrapper := sym.useWrapper || wrapped } :: rest

def validateImportBindingConflicts (pkg : Package) : Except PackageError Package :=
  match pkg.checkBindNames pkg.imports with
  | .error e => .error e
  | .ok () =>
    (pkg.checkSymbols pkg.importSymbols.length pkg.importSymbols).map fun symbols => { pkg with importSymbols := symbols }

/-- Two imports of one bind name are the same. -/
def BindNamesApart (imports : List ImportRef) : Prop :=
  imports.Pairwise fun first second => first.bindName = none ∨ second.bindName ≠ first.bindName

theorem checkBindNames_apart {pkg : Package} {imports : List ImportRef} (checked : pkg.checkBindNames imports = .ok ()) :
    BindNamesApart imports := by
  induction imports with
  | nil => exact .nil
  | cons imp imports ih =>
    rw [checkBindNames] at checked
    cases bound : imp.bindName with
    | none =>
      rw [bound] at checked
      exact List.pairwise_cons.mpr ⟨fun _ _ => Or.inl bound, ih checked⟩
    | some name =>
      simp only [bound] at checked
      split at checked
      · cases checked
      · rename_i clear
        simp only [Bool.or_eq_true, List.any_eq_true, decide_eq_true_eq, not_or, not_exists, not_and] at clear
        refine List.pairwise_cons.mpr ⟨fun other member => Or.inr ?_, ih checked⟩
        rw [bound]
        exact clear.1.2 other member

theorem validated_bindNamesApart {pkg result : Package} (validated : pkg.validateImportBindingConflicts = .ok result) :
    BindNamesApart pkg.imports := by
  rw [validateImportBindingConflicts] at validated
  cases checked : pkg.checkBindNames pkg.imports with
  | error e =>
    rw [checked] at validated
    cases validated
  | ok _ => exact checkBindNames_apart checked

/-! ### The aliases of a package are apart -/

def AliasesApart (pkg : Package) : Prop := (pkg.imports.map ImportRef.alias_).Nodup

theorem addImportSymbols_imports {importIndex : Nat} {symbols : List (List UInt8 × Option (List UInt8))}
    {pkg result : Package} (added : addImportSymbols importIndex symbols pkg = .ok result) :
    result.imports = pkg.imports := by
  induction symbols generalizing pkg with
  | nil => rw [← Except.ok.inj added]
  | cons symbol symbols ih =>
    obtain ⟨sourceName, localName⟩ := symbol
    simp only [addImportSymbols] at added
    split at added
    · cases added
    · have kept := ih added
      exact kept

theorem AliasesApart.snoc {pkg : Package} (apart : pkg.AliasesApart) {preferred alias_ : List UInt8}
    (made : makeUniqueImportAlias pkg.imports preferred = some alias_) {ref : ImportRef} (named : ref.alias_ = alias_) :
    ((pkg.imports ++ [ref]).map ImportRef.alias_).Nodup := by
  have unused := makeUniqueImportAlias_unused made
  simp only [isImportAliasUsed, List.any_eq_false, decide_eq_true_eq] at unused
  rw [List.map_append, List.map_singleton, List.nodup_append]
  refine ⟨apart, List.pairwise_singleton _ _, ?_⟩
  intro a member b last
  obtain ⟨ref', inside, rfl⟩ := List.mem_map.mp member
  rw [List.mem_singleton.mp last, named]
  exact unused ref' inside

theorem processImport_aliasesApart {pkg result : Package} {d : ImportDecl} (apart : pkg.AliasesApart)
    (processed : pkg.processImport d = .ok result) : result.AliasesApart := by
  rw [processImport] at processed
  by_cases feature : isFeatureImportPath d.path = true
  · rw [if_pos feature] at processed
    split at processed
    · cases processed
    · rwa [← Except.ok.inj processed]
  rw [if_neg feature] at processed
  cases bound : d.boundName with
  | error e =>
    rw [bound] at processed
    cases processed
  | ok bindName =>
    simp only [bound] at processed
    split at processed
    · cases processed
    · cases made : makeUniqueImportAlias pkg.imports (bindName.getD (lastPathSegment d.path)) with
      | none =>
        rw [made] at processed
        cases processed
      | some alias_ =>
        simp only [made] at processed
        rw [AliasesApart, addImportSymbols_imports processed]
        exact apart.snoc made rfl

/-- The imports of a package that was read from its files have aliases of their own. -/
theorem processImports_aliasesApart {decls : List ImportDecl} {pkg result : Package} (apart : pkg.AliasesApart)
    (processed : processImports decls pkg = .ok result) : result.AliasesApart := by
  induction decls generalizing pkg with
  | nil => rwa [← Except.ok.inj processed]
  | cons d decls ih =>
    rw [processImports] at processed
    cases first : pkg.processImport d with
    | error e =>
      rw [first] at processed
      cases processed
    | ok next =>
      rw [first] at processed
      exact ih (processImport_aliasesApart apart first) processed

theorem ensureImplicitBuiltinImport_aliasesApart {pkg result : Package} (apart : pkg.AliasesApart)
    (ensured : pkg.ensureImplicitBuiltinImport = .ok result) : result.AliasesApart := by
  rw [ensureImplicitBuiltinImport] at ensured
  split at ensured
  · rwa [← Except.ok.inj ensured]
  · cases made : makeUniqueImportAlias pkg.imports (bytesOf "builtin") with
    | none =>
      rw [made] at ensured
      cases ensured
    | some alias_ =>
      rw [made] at ensured
      rw [← Except.ok.inj ensured]
      exact apart.snoc made rfl

end Package

/-- The packages that were loaded so far. Growing the table beyond its capacity moves it to another block. -/
structure PackageLoader where
  rootDir : List UInt8
  packages : List Package
  packageCap : Nat
  block : Nat
  selectedPlatformPkg : Option PackageRef
  platformTarget : List UInt8
  deriving DecidableEq, Repr

/-- The entry that a reference leads to, unless the table was moved since. -/
def PackageLoader.find (loader : PackageLoader) (ref : PackageRef) : Option Package :=
  if ref.block = loader.block then loader.packages[ref.index]? else none

end HopHop
