import HopHop.Package

namespace HopHop

/-- What the files of a package say, read and parsed. -/
structure PackageText where
  imports : List ImportDecl
  decls : List SymbolDecl
  pubDecls : List SymbolDecl
  deriving DecidableEq, Repr

/-- A finite tree of directories: what paths lead to, and what the files of a directory say. -/
structure FileSystem where
  dirs : List (List UInt8)
  canonicalizePath : List UInt8 → Option (List UInt8)
  canonical : ∀ path dir, canonicalizePath path = some dir → dir ∈ dirs
  isDirectoryPath : List UInt8 → Bool
  resolveLibImportDir : List UInt8 → List UInt8 → Option (List UInt8)
  resolveLibImportDirFromExe : List UInt8 → Option (List UInt8)
  readPackage : List UInt8 → Except PackageError PackageText

/-- The checks of a package, apart from that of the names its imports bind: those of its own declarations, the search for
its named symbols in the packages it imports, and those of its selectors and of its public declarations. -/
structure PackageChecks where
  own : Package → Except PackageError Unit
  importSymbols : PackageLoader → Package → Except PackageError (List ImportSymbolRef)
  closed : PackageLoader → Package → Except PackageError Unit

/-- What starts a load: a directory, or files of one directory that were named one by one. -/
inductive PackageEntry
  | directory (path : List UInt8)
  | files (dirPath name : List UInt8) (text : Except PackageError PackageText)

/-! ### Paths -/

def joinPath (a b : List UInt8) : List UInt8 :=
  if a.getLast? = some Byte.slash then a ++ b else a ++ [Byte.slash] ++ b

/-- The last part of a path, without the slashes at its end. -/
def lastPathComponent (path : List UInt8) : List UInt8 := afterSlash (path.reverse.dropWhile (· = Byte.slash)).reverse

def isLibImportPath (path : List UInt8) : Bool :=
  (["builtin", "mem", "platform", "compiler", "playbit", "str", "testing"].any fun name => path = bytesOf name) ||
    ["builtin/", "mem/", "compiler/", "playbit/", "std/", "platform/", "str/"].any fun start =>
      (bytesOf start).isPrefixOf path

namespace FileSystem

variable (fs : FileSystem)

def resolveLib (startDir path : List UInt8) : Option (List UInt8) :=
  match fs.resolveLibImportDir startDir path with
  | some dir => some dir
  | none => fs.resolveLibImportDirFromExe path

/-- The directory that an import of a package is looked for in. -/
def resolveImportDir (rootDir dirPath path : List UInt8) : List UInt8 :=
  let resolved := joinPath rootDir path
  if fs.isDirectoryPath resolved then resolved
  else if fs.isDirectoryPath (joinPath dirPath path) then joinPath dirPath path
  else if isLibImportPath path then (fs.resolveLib dirPath path).getD resolved
  else resolved

end FileSystem

/-! ### The table of packages -/

/-- The loop of `EnsureCap`. The count bounds how often 8 can be doubled. -/
def growCap : Nat → Nat → Nat → Nat
  | 0, _, need => need
  | left + 1, cap, need =>
    if cap < need then (if 0xFFFFFFFF / 2 < cap then need else growCap left (cap * 2) need) else cap

def ensureCap (cap need : Nat) : Nat := if need ≤ cap then cap else growCap 32 (if cap = 0 then 8 else cap) need

def isSelectedPlatformImportPath (platformTarget path : List UInt8) : Bool :=
  path = bytesOf "platform" || path = bytesOf "platform/" ++ platformTarget

namespace PackageLoader

variable (loader : PackageLoader)

def addPackageSlot (dirPath name : List UInt8) : PackageLoader × PackageRef :=
  let needCap := loader.packages.length + 1
  let needCap := if loader.packageCap = 0 ∧ needCap < 256 then 256 else needCap
  let block := if needCap ≤ loader.packageCap then loader.block else loader.block + 1
  ({ loader with
      packages := loader.packages ++ [⟨dirPath, name, .alloc, [], [], [], []⟩]
      packageCap := ensureCap loader.packageCap needCap, block },
    ⟨block, loader.packages.length⟩)

def findPackageByDir (dirPath : List UInt8) : Option (PackageRef × Package) :=
  match loader.packages.findIdx? (·.dirPath = dirPath) with
  | none => none
  | some i => (loader.packages[i]?).map fun pkg => (⟨loader.block, i⟩, pkg)

def findPackageIndex (ref : PackageRef) : Option Nat :=
  if ref.block = loader.block ∧ ref.index < loader.packages.length then some ref.index else none

def update (index : Nat) (pkg : Package) : PackageLoader := { loader with packages := loader.packages.set index pkg }

/-- The package that an import goes to without a search. -/
def redirect (path : List UInt8) : Option PackageRef :=
  match loader.selectedPlatformPkg with
  | none => none
  | some ref => if isSelectedPlatformImportPath loader.platformTarget path then some ref else none

end PackageLoader

def Package.setTarget (pkg : Package) (i : Nat) (ref : PackageRef) : Package :=
  { pkg with imports := pkg.imports.modify i fun imp => { imp with target := some ref } }

/-- A loader, and the directories of the packages whose files were read and of those that were checked, in this order. -/
structure LoadRun where
  loader : PackageLoader
  read : List (List UInt8)
  validated : List (List UInt8)
  deriving DecidableEq, Repr

namespace LoadRun

variable (run : LoadRun)

def update (index : Nat) (pkg : Package) : LoadRun := { run with loader := run.loader.update index pkg }

def setTarget (index i : Nat) (ref : PackageRef) : LoadRun :=
  match run.loader.packages[index]? with
  | none => run
  | some pkg => run.update index (pkg.setTarget i ref)

end LoadRun

/-- The result of a load: none when the bound on its depth was too small. -/
abbrev LoadResult (α : Type) := Option (Except PackageError α)

def failedToResolve : PackageError := .message "failed to resolve import"

section Load

variable (fs : FileSystem) (checks : PackageChecks) (load : LoadRun → List UInt8 → LoadResult (LoadRun × PackageRef))

/-- The loop of `ResolvePackageImportsAndSelectors` over the imports of a package from one of them on. -/
def resolveImports (index : Nat) (dirPath : List UInt8) : Nat → List ImportRef → LoadRun → LoadResult LoadRun
  | _, [], run => some (.ok run)
  | i, imp :: imports, run =>
    match run.loader.redirect imp.path with
    | some ref => resolveImports index dirPath (i + 1) imports (run.setTarget index i ref)
    | none =>
      match load run (fs.resolveImportDir run.loader.rootDir dirPath imp.path) with
      | none => none
      | some (.error _) => some (.error failedToResolve)
      | some (.ok (run, ref)) => resolveImports index dirPath (i + 1) imports (run.setTarget index i ref)

/-- The checks after the imports of a package were resolved. -/
def finishPackage (index : Nat) (run : LoadRun) : Except PackageError LoadRun :=
  match run.loader.packages[index]? with
  | none => .error (.message "internal error: package missing from loader")
  | some pkg =>
    match checks.importSymbols run.loader pkg with
    | .error e => .error e
    | .ok importSymbols =>
      match { pkg with importSymbols }.validateImportBindingConflicts with
      | .error e => .error e
      | .ok pkg =>
        match checks.closed run.loader pkg with
        | .error e => .error e
        | .ok () =>
          .ok { run.update index { pkg with loadState := .loaded } with validated := run.validated ++ [pkg.dirPath] }

def resolvePackageImportsAndSelectors (ref : PackageRef) (run : LoadRun) : LoadResult LoadRun :=
  match run.loader.findPackageIndex ref, run.loader.packages[ref.index]? with
  | some index, some pkg =>
    match pkg.ensureImplicitBuiltinImport with
    | .error e => some (.error e)
    | .ok pkg =>
      match resolveImports fs load index pkg.dirPath 0 pkg.imports (run.update index pkg) with
      | none => none
      | some (.error e) => some (.error e)
      | some (.ok run) => some (finishPackage checks index run)
  | _, _ => some (.error (.message "internal error: package missing from loader"))

/-- What the files of a package say becomes the package. -/
def PackageText.processOn (text : PackageText) (pkg : Package) : Except PackageError Package :=
  pkg.processImports text.imports |>.map fun pkg => { pkg with decls := text.decls, pubDecls := text.pubDecls }

/-- The part that the ways of creating a package share: a new entry of the table, its files, their checks and its
imports. -/
def loadSlot (run : LoadRun) (dirPath name : List UInt8) (text : Except PackageError PackageText) :
    LoadResult (LoadRun × PackageRef) :=
  let (loader, ref) := run.loader.addPackageSlot dirPath name
  match text with
  | .error e => some (.error e)
  | .ok text =>
    match text.processOn ⟨dirPath, name, .loading, [], [], [], []⟩ with
    | .error e => some (.error e)
    | .ok pkg =>
      match checks.own pkg with
      | .error e => some (.error e)
      | .ok () =>
        let run : LoadRun := ⟨loader.update ref.index pkg, run.read ++ [dirPath], run.validated⟩
        match resolvePackageImportsAndSelectors fs checks load ref run with
        | none => none
        | some (.error e) => some (.error e)
        | some (.ok run) => some (.ok (run, ref))

/-- `LoadPackageRecursive`, with a bound on its depth. -/
def loadPackageRecursive : Nat → LoadRun → List UInt8 → LoadResult (LoadRun × PackageRef)
  | 0, _, _ => none
  | fuel + 1, run, dirPath =>
    match fs.canonicalizePath dirPath with
    | none => some (.error (.message "failed to resolve package path"))
    | some canonical =>
      match run.loader.findPackageByDir canonical with
      | some (ref, pkg) =>
        if pkg.loadState = .loading then some (.error (.message "import cycle detected")) else some (.ok (run, ref))
      | none =>
        loadSlot fs checks (loadPackageRecursive fuel) run canonical (lastPathComponent canonical)
          (fs.readPackage canonical)

end Load

/-- Everything that a load depends on. -/
structure LoadInput where
  fs : FileSystem
  checks : PackageChecks
  rootDir : List UInt8
  platformTarget : List UInt8
  entry : PackageEntry

namespace LoadInput

variable (input : LoadInput)

/-- No path of packages that are being loaded is longer. -/
def depth : Nat := input.fs.dirs.length + 1

def initialRun : LoadRun := ⟨⟨input.rootDir, [], 0, 0, none, input.platformTarget⟩, [], []⟩

def loadEntry : LoadResult (LoadRun × PackageRef) :=
  match input.entry with
  | .directory path => loadPackageRecursive input.fs input.checks input.depth input.initialRun path
  | .files dirPath name text =>
    loadSlot input.fs input.checks (loadPackageRecursive input.fs input.checks input.depth) input.initialRun dirPath name
      text

def platformPath : List UInt8 := bytesOf "platform/" ++ input.platformTarget

/-- The directory that the package of the platform is looked for in. -/
def platformDir (startDir : List UInt8) : List UInt8 :=
  let resolved := joinPath input.rootDir input.platformPath
  if input.fs.isDirectoryPath resolved then resolved
  else (input.fs.resolveLib startDir input.platformPath).getD resolved

def loadSelectedPlatformTargetPackage (startDir : List UInt8) (run : LoadRun) : LoadResult LoadRun :=
  if input.platformTarget = [] then some (.error (.message "internal error: missing platform target"))
  else
    match loadPackageRecursive input.fs input.checks input.depth run (input.platformDir startDir) with
    | none => none
    | some (.error _) => some (.error (.message "failed to resolve platform target package"))
    | some (.ok (run, ref)) => some (.ok { run with loader := { run.loader with selectedPlatformPkg := some ref } })

/-- The loads of `LoadAndCheckPackage`: the entry, whose directory is then read through the reference to it, and the
package of the platform. -/
def loadPackages : LoadResult LoadRun :=
  match input.loadEntry with
  | none => none
  | some (.error e) => some (.error e)
  | some (.ok (run, ref)) =>
    match run.loader.packages[ref.index]? with
    | none => some (.error (.message "internal error: failed to load entry package"))
    | some entryPkg => input.loadSelectedPlatformTargetPackage entryPkg.dirPath run

end LoadInput

end HopHop
