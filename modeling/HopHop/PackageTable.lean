import Mathlib.Data.List.Nodup
import Mathlib.Logic.Relation
import HopHop.PackageLoad

namespace HopHop

open Relation

/-- Nothing that the relation leads down from goes round. -/
theorem not_transGen_self_of_acc {α : Type*} {r : α → α → Prop} {a : α} (down : Acc r a) : ¬TransGen r a a := by
  have deep : Acc (TransGen r) a := down.transGen
  clear down
  induction deep with
  | intro x _ ih => exact fun circle => ih x circle circle

/-! ### The imports of a package as the text has them -/

theorem Package.addImportSymbols_dirPath {importIndex : Nat} {symbols : List (List UInt8 × Option (List UInt8))}
    {pkg result : Package} (added : addImportSymbols importIndex symbols pkg = .ok result) :
    result.dirPath = pkg.dirPath ∧ result.loadState = pkg.loadState := by
  induction symbols generalizing pkg with
  | nil => exact Except.ok.inj added ▸ ⟨rfl, rfl⟩
  | cons symbol symbols ih =>
    obtain ⟨sourceName, localName⟩ := symbol
    simp only [addImportSymbols] at added
    split at added
    · cases added
    · have kept := ih added
      exact kept

theorem Package.processImports_dirPath {decls : List ImportDecl} {pkg result : Package}
    (processed : processImports decls pkg = .ok result) :
    result.dirPath = pkg.dirPath ∧ result.loadState = pkg.loadState := by
  induction decls generalizing pkg with
  | nil => exact Except.ok.inj processed ▸ ⟨rfl, rfl⟩
  | cons d decls ih =>
    rw [processImports] at processed
    cases first : pkg.processImport d with
    | error e =>
      rw [first] at processed
      cases processed
    | ok next =>
      rw [first] at processed
      have rest := ih processed
      have here : next.dirPath = pkg.dirPath ∧ next.loadState = pkg.loadState := by
        rw [processImport] at first
        split at first
        · split at first
          · cases first
          · exact Except.ok.inj first ▸ ⟨rfl, rfl⟩
        · split at first
          · cases first
          · split at first
            · cases first
            · split at first
              · cases first
              · have kept := addImportSymbols_dirPath first
                exact kept
      exact ⟨rest.1.trans here.1, rest.2.trans here.2⟩

theorem PackageText.processOn_dirPath {text : PackageText} {pkg result : Package}
    (processed : text.processOn pkg = .ok result) :
    result.dirPath = pkg.dirPath ∧ result.loadState = pkg.loadState := by
  rw [processOn] at processed
  cases read : pkg.processImports text.imports with
  | error e =>
    rw [read] at processed
    cases processed
  | ok next =>
    rw [read] at processed
    have kept := Package.processImports_dirPath read
    rw [← Except.ok.inj processed]
    exact kept

theorem Package.ensureImplicitBuiltinImport_dirPath {pkg result : Package}
    (ensured : pkg.ensureImplicitBuiltinImport = .ok result) :
    result.dirPath = pkg.dirPath ∧ result.loadState = pkg.loadState := by
  rw [ensureImplicitBuiltinImport] at ensured
  split at ensured
  · exact Except.ok.inj ensured ▸ ⟨rfl, rfl⟩
  · split at ensured
    · cases ensured
    · exact Except.ok.inj ensured ▸ ⟨rfl, rfl⟩

theorem Package.validateImportBindingConflicts_keeps {pkg result : Package}
    (validated : pkg.validateImportBindingConflicts = .ok result) :
    result.dirPath = pkg.dirPath ∧ result.imports = pkg.imports := by
  rw [validateImportBindingConflicts] at validated
  cases checked : pkg.checkBindNames pkg.imports with
  | error e =>
    rw [checked] at validated
    cases validated
  | ok _ =>
    rw [checked] at validated
    cases symbols : pkg.checkSymbols pkg.importSymbols.length pkg.importSymbols with
    | error e =>
      simp only [symbols] at validated
      cases validated
    | ok _ =>
      simp only [symbols] at validated
      exact Except.ok.inj validated ▸ ⟨rfl, rfl⟩

/-- The table is moved when the 257th package comes. -/
def PackageLoader.Sized (loader : PackageLoader) : Prop :=
  loader.packages.length = 0 ∧ loader.packageCap = 0 ∧ loader.block = 0 ∨
    0 < loader.packages.length ∧ loader.packages.length ≤ 256 ∧ loader.packageCap = 256 ∧ loader.block = 1 ∨
    256 < loader.packages.length ∧ loader.packages.length ≤ loader.packageCap ∧ 2 ≤ loader.block

namespace LoadInput

variable (input : LoadInput)

def textAt (dir : List UInt8) : Except PackageError PackageText :=
  match input.entry with
  | .directory _ => input.fs.readPackage dir
  | .files dirPath _ text => if dir = dirPath then text else input.fs.readPackage dir

def nameAt (dir : List UInt8) : List UInt8 :=
  match input.entry with
  | .directory _ => lastPathComponent dir
  | .files dirPath name _ => if dir = dirPath then name else lastPathComponent dir

/-- The package of a directory before its imports are resolved. -/
def packageAt (dir : List UInt8) : Except PackageError Package :=
  match input.textAt dir with
  | .error e => .error e
  | .ok text =>
    match text.processOn ⟨dir, input.nameAt dir, .loading, [], [], [], []⟩ with
    | .error e => .error e
    | .ok pkg => pkg.ensureImplicitBuiltinImport

/-- The directory that a path in the package of a directory leads to. -/
def importDir (dir path : List UInt8) : Option (List UInt8) :=
  input.fs.canonicalizePath (input.fs.resolveImportDir input.rootDir dir path)

/-- The import graph. -/
def Imports (dir dir' : List UInt8) : Prop :=
  ∃ pkg imp, input.packageAt dir = .ok pkg ∧ imp ∈ pkg.imports ∧ input.importDir dir imp.path = some dir'

/-! ### What holds of the table of packages -/

/-- An import leads to a loaded package, that of the directory its path leads to. -/
def Resolved (loader : PackageLoader) (dir : List UInt8) (imp : ImportRef) : Prop :=
  ∃ ref t, imp.target = some ref ∧ loader.packages[ref.index]? = some t ∧ t.loadState = .loaded ∧
    input.importDir dir imp.path = some t.dirPath ∧ 1 ≤ ref.block ∧ ref.block ≤ loader.block

structure Loaded (loader : PackageLoader) (pkg : Package) : Prop where
  source : ∃ pkg₀, input.packageAt pkg.dirPath = .ok pkg₀ ∧ pkg.imports.map ImportRef.path = pkg₀.imports.map ImportRef.path
  targets : ∀ imp ∈ pkg.imports, input.Resolved loader pkg.dirPath imp
  acyclic : Acc (fun dir' dir => input.Imports dir dir') pkg.dirPath

structure Consistent (run : LoadRun) : Prop where
  rootDir : run.loader.rootDir = input.rootDir
  selected : run.loader.selectedPlatformPkg = none
  sized : run.loader.Sized
  nodup : (run.loader.packages.map Package.dirPath).Nodup
  started : ∀ pkg ∈ run.loader.packages, pkg.loadState ≠ .alloc
  loaded : ∀ pkg ∈ run.loader.packages, pkg.loadState = .loaded → input.Loaded run.loader pkg
  read : run.read = run.loader.packages.map Package.dirPath
  validated : run.validated.Perm ((run.loader.packages.filter (·.loadState = .loaded)).map Package.dirPath)

/-- The packages that are loaded stay where they are. -/
def Keeps (loader loader' : PackageLoader) : Prop :=
  loader.block ≤ loader'.block ∧
    ∀ (i : Nat) (t : Package), loader.packages[i]? = some t → t.loadState = .loaded → loader'.packages[i]? = some t

variable {input}

theorem Resolved.keeps {loader loader' : PackageLoader} (keeps : Keeps loader loader') {dir : List UInt8} {imp : ImportRef}
    (resolved : input.Resolved loader dir imp) : input.Resolved loader' dir imp := by
  obtain ⟨ref, t, target, found, state, leads, low, high⟩ := resolved
  exact ⟨ref, t, target, keeps.2 _ t found state, state, leads, low, Nat.le_trans high keeps.1⟩

theorem Loaded.keeps {loader loader' : PackageLoader} (keeps : Keeps loader loader') {pkg : Package}
    (loaded : input.Loaded loader pkg) : input.Loaded loader' pkg :=
  ⟨loaded.source, fun imp member => (loaded.targets imp member).keeps keeps, loaded.acyclic⟩

/-- An edge of the graph is an import of the package in the table. -/
theorem Loaded.import_of_edge {loader : PackageLoader} {pkg : Package} (loaded : input.Loaded loader pkg)
    {dir' : List UInt8} (edge : input.Imports pkg.dirPath dir') :
    ∃ imp ∈ pkg.imports, input.importDir pkg.dirPath imp.path = some dir' := by
  obtain ⟨pkg₀, same, paths⟩ := loaded.source
  obtain ⟨pkg₁, imp, same', member, leads⟩ := edge
  rw [same] at same'
  rw [← Except.ok.inj same'] at member
  have inPaths : imp.path ∈ pkg.imports.map ImportRef.path := paths ▸ List.mem_map_of_mem member
  obtain ⟨imp', member', path⟩ := List.mem_map.mp inPaths
  exact ⟨imp', member', path ▸ leads⟩

end LoadInput

/-! ### A new entry of the table -/

namespace PackageLoader

variable {loader : PackageLoader}

theorem le_growCap (left cap need : Nat) : need ≤ growCap left cap need := by
  induction left generalizing cap with
  | zero => exact Nat.le_refl need
  | succ left ih =>
    rw [growCap]
    split
    · split
      · exact Nat.le_refl need
      · exact ih _
    · omega

theorem le_ensureCap (cap need : Nat) : need ≤ ensureCap cap need := by
  rw [ensureCap]
  split
  · assumption
  · exact le_growCap ..

theorem addPackageSlot_packages (dirPath name : List UInt8) (pkg : Package) :
    ((loader.addPackageSlot dirPath name).1.update loader.packages.length pkg).packages = loader.packages ++ [pkg] := by
  rw [addPackageSlot, update]
  simp only [List.set_append_right _ _ (Nat.le_refl _), Nat.sub_self, List.set_cons_zero]

theorem addPackageSlot_sized (sized : loader.Sized) (dirPath name : List UInt8) (pkg : Package) :
    ((loader.addPackageSlot dirPath name).1.update loader.packages.length pkg).Sized ∧
      loader.block ≤ (loader.addPackageSlot dirPath name).1.block ∧
      1 ≤ (loader.addPackageSlot dirPath name).1.block ∧
      (loader.packages.length < 256 → (loader.addPackageSlot dirPath name).1.block = 1) := by
  have enough := le_ensureCap loader.packageCap (loader.packages.length + 1)
  rw [Sized, addPackageSlot_packages]
  simp only [update, addPackageSlot, List.length_append, List.length_singleton]
  rcases sized with ⟨empty, cap, block⟩ | ⟨some, few, cap, block⟩ | ⟨many, cap, block⟩
  · have first : ensureCap 0 256 = 256 := by decide
    simp only [empty, cap, block, Nat.zero_add, show 1 < 256 by omega, and_self, if_true, first,
      show ¬256 ≤ 0 by omega, if_false]
    decide
  · by_cases full : loader.packages.length = 256
    · simp only [cap, full] at enough ⊢
      simp only [show ¬(256 = 0 ∧ 256 + 1 < 256) by omega, if_false, show ¬256 + 1 ≤ 256 by omega]
      omega
    · simp only [cap, show ¬(256 = 0 ∧ loader.packages.length + 1 < 256) by omega, if_false,
        show loader.packages.length + 1 ≤ 256 by omega, if_true, ensureCap, true_and]
      omega
  · have nonzero : ¬(loader.packageCap = 0 ∧ loader.packages.length + 1 < 256) := by omega
    simp only [nonzero, if_false]
    split <;> omega

theorem update_keeps {before after : List Package} {cur : Package} (middle : loader.packages = before ++ cur :: after)
    (open_ : cur.loadState ≠ .loaded) (cur' : Package) : LoadInput.Keeps loader (loader.update before.length cur') := by
  refine ⟨Nat.le_refl _, ?_⟩
  intro i t found state
  rw [update, List.getElem?_set]
  split
  · rename_i here
    rw [← here, middle, List.getElem?_append_right (Nat.le_refl _), Nat.sub_self, List.getElem?_cons_zero] at found
    rw [Option.some.inj found] at open_
    exact absurd state open_
  · exact found

theorem update_middle {before after : List Package} {cur : Package} (middle : loader.packages = before ++ cur :: after)
    (cur' : Package) : (loader.update before.length cur').packages = before ++ cur' :: after := by
  rw [update, middle]
  simp only [List.set_append_right _ _ (Nat.le_refl _), Nat.sub_self, List.set_cons_zero]

end PackageLoader

namespace LoadInput

variable {input : LoadInput} {run run' : LoadRun} {before after : List Package} {cur cur' : Package}

/-- A package that is being loaded may change, its directory apart. -/
theorem Consistent.replace (consistent : input.Consistent run) (middle : run.loader.packages = before ++ cur :: after)
    (state : cur.loadState = .loading) (state' : cur'.loadState = .loading) (dirPath : cur'.dirPath = cur.dirPath) :
    input.Consistent (run.update before.length cur') := by
  have keeps := PackageLoader.update_keeps middle (by rw [state]; decide) cur'
  have packages := PackageLoader.update_middle middle cur'
  have dirs : (run.update before.length cur').loader.packages.map Package.dirPath =
      run.loader.packages.map Package.dirPath := by
    rw [LoadRun.update, packages, middle]
    simp only [List.map_append, List.map_cons, dirPath]
  have kept : (run.update before.length cur').loader.packages.filter (·.loadState = .loaded) =
      run.loader.packages.filter (·.loadState = .loaded) := by
    rw [LoadRun.update, packages, middle]
    simp only [List.filter_append, List.filter_cons, state, state', reduceCtorEq, decide_false, Bool.false_eq_true, if_false]
  refine ⟨consistent.rootDir, consistent.selected, ?_, ?_, ?_, ?_, ?_, ?_⟩
  · have sized := consistent.sized
    rw [PackageLoader.Sized] at sized ⊢
    rw [LoadRun.update, packages]
    rw [middle] at sized
    simp only [List.length_append, List.length_cons, PackageLoader.update] at sized ⊢
    exact sized
  · rw [dirs]
    exact consistent.nodup
  · intro pkg member
    rw [LoadRun.update, packages] at member
    have started := consistent.started
    rw [middle] at started
    rcases List.mem_append.mp member with inBefore | inRest
    · exact started pkg (List.mem_append_left _ inBefore)
    · rcases List.mem_cons.mp inRest with rfl | inAfter
      · rw [state']
        decide
      · exact started pkg (List.mem_append_right _ (List.mem_cons_of_mem _ inAfter))
  · intro pkg member loaded
    have old : pkg ∈ run.loader.packages := by
      have inFilter : pkg ∈ run.loader.packages.filter (·.loadState = .loaded) :=
        kept ▸ List.mem_filter.mpr ⟨member, decide_eq_true loaded⟩
      exact (List.mem_filter.mp inFilter).1
    exact (consistent.loaded pkg old loaded).keeps keeps
  · rw [dirs]
    exact consistent.read
  · rw [kept]
    exact consistent.validated

/-- A new package in the table. -/
theorem Consistent.addSlot (consistent : input.Consistent run) {dirPath : List UInt8} (name : List UInt8)
    (fresh : dirPath ∉ run.loader.packages.map Package.dirPath) {pkg : Package} (dir : pkg.dirPath = dirPath)
    (state : pkg.loadState = .loading) :
    input.Consistent
      ⟨(run.loader.addPackageSlot dirPath name).1.update run.loader.packages.length pkg, run.read ++ [dirPath],
        run.validated⟩ := by
  have packages := @PackageLoader.addPackageSlot_packages run.loader dirPath name pkg
  have sizes := PackageLoader.addPackageSlot_sized consistent.sized dirPath name pkg
  have keeps : Keeps run.loader ((run.loader.addPackageSlot dirPath name).1.update run.loader.packages.length pkg) := by
    refine ⟨sizes.2.1, ?_⟩
    intro i t found _
    rw [packages, List.getElem?_append_left (List.getElem?_eq_some_iff.mp found).1]
    exact found
  refine ⟨consistent.rootDir, consistent.selected, sizes.1, ?_, ?_, ?_, ?_, ?_⟩
  · rw [packages, List.map_append, List.map_singleton, dir]
    exact List.nodup_append.mpr
      ⟨consistent.nodup, List.nodup_singleton _, fun a member b last => by
        rw [List.mem_singleton.mp last]
        rintro rfl
        exact fresh member⟩
  · intro other member
    rw [packages] at member
    rcases List.mem_append.mp member with old | new
    · exact consistent.started other old
    · rw [List.mem_singleton.mp new, state]
      decide
  · intro other member loaded
    rw [packages] at member
    rcases List.mem_append.mp member with old | new
    · exact (consistent.loaded other old loaded).keeps keeps
    · rw [List.mem_singleton.mp new, state] at loaded
      cases loaded
  · rw [packages, List.map_append, List.map_singleton, dir, consistent.read]
  · rw [packages, List.filter_append]
    simp only [List.filter_cons, state, reduceCtorEq, decide_false, Bool.false_eq_true, if_false, List.filter_nil,
      List.append_nil]
    exact consistent.validated

end LoadInput

end HopHop
