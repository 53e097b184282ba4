import HopHop.PackageLoadTargets

namespace HopHop

open Relation

/-- Where the imports of a package lead to does not matter for the check of what they bind. -/
theorem Package.checkBindNames_congr {pkg pkg₀ : Package} (decls : pkg.decls = pkg₀.decls)
    (pubDecls : pkg.pubDecls = pkg₀.pubDecls) (symbols : pkg.importSymbols = pkg₀.importSymbols)
    {imports imports₀ : List ImportRef} (bound : imports.map ImportRef.bindName = imports₀.map ImportRef.bindName) :
    pkg.checkBindNames imports = pkg₀.checkBindNames imports₀ := by
  induction imports generalizing imports₀ with
  | nil =>
    rw [List.map_nil, eq_comm, List.map_eq_nil_iff] at bound
    rw [bound]
    rfl
  | cons imp imports ih =>
    cases imports₀ with
    | nil => cases bound
    | cons imp₀ imports₀ =>
      obtain ⟨here, later⟩ := List.cons.inj bound
      have any : ∀ name, (imports.any fun imp => decide (imp.bindName = some name)) =
          imports₀.any fun imp => decide (imp.bindName = some name) := by
        intro name
        have mapped := congrArg (List.any · fun bindName => decide (bindName = some name)) later
        simp only [List.any_map] at mapped
        exact mapped
      rw [checkBindNames, checkBindNames, here, ih later]
      simp only [any, hasAnyDeclName, decls, pubDecls, symbols]
      rfl

namespace LoadInput

variable {input : LoadInput}

/-- Nothing is wrong with the package of a directory, and its imports lead to directories of a lower rank. -/
structure Clean (input : LoadInput) (rank : List UInt8 → Nat) (dir : List UInt8) : Prop where
  source : ∃ text pkg pkg₀, input.textAt dir = .ok text ∧
    text.processOn ⟨dir, input.nameAt dir, .loading, [], [], [], []⟩ = .ok pkg ∧ input.checks.own pkg = .ok () ∧
    pkg.ensureImplicitBuiltinImport = .ok pkg₀
  leads : ∀ pkg₀, input.packageAt dir = .ok pkg₀ → ∀ imp ∈ pkg₀.imports, ∃ dir', input.importDir dir imp.path = some dir' ∧
    rank dir' < rank dir
  finishes : ∀ pkg₀, input.packageAt dir = .ok pkg₀ → ∀ loader pkg, Retargets pkg pkg₀ → ∃ importSymbols checked,
    input.checks.importSymbols loader pkg = .ok importSymbols ∧
      { pkg with importSymbols }.validateImportBindingConflicts = .ok checked ∧ input.checks.closed loader checked = .ok ()

theorem packageAt_eq_ok {dir : List UInt8} {pkg₀ : Package} (source : input.packageAt dir = .ok pkg₀) :
    ∃ text pkg, input.textAt dir = .ok text ∧
      text.processOn ⟨dir, input.nameAt dir, .loading, [], [], [], []⟩ = .ok pkg ∧
        pkg.ensureImplicitBuiltinImport = .ok pkg₀ := by
  rw [packageAt] at source
  split at source
  · cases source
  · rename_i text atDir
    split at source
    · cases source
    · rename_i pkg processed
      exact ⟨text, pkg, atDir, processed, source⟩

theorem Retargets.checkBindNames {pkg pkg₀ : Package} (same : Retargets pkg pkg₀) :
    pkg.checkBindNames pkg.imports = pkg₀.checkBindNames pkg₀.imports := by
  obtain ⟨rest, imports⟩ := same
  have bound := congrArg (List.map ImportRef.bindName) imports
  rw [List.map_map, List.map_map] at bound
  exact Package.checkBindNames_congr (rest ▸ rfl) (rest ▸ rfl) (rest ▸ rfl) bound

/-- The packages that are being loaded are above a directory. -/
def Above (rank : List UInt8 → Nat) (packages : List Package) (dir : List UInt8) : Prop :=
  ∀ pkg ∈ packages, pkg.loadState = .loading → rank dir < rank pkg.dirPath

/-- The function succeeds where nothing is wrong with what it comes to. -/
def Succeeds (input : LoadInput) (rank : List UInt8 → Nat)
    (load : LoadRun → List UInt8 → LoadResult (LoadRun × PackageRef)) : Prop :=
  ∀ run path dir result, input.Consistent run → input.Rooted run → input.fs.canonicalizePath path = some dir →
    (∀ dir', ReflTransGen input.Imports dir dir' → input.Clean rank dir') → Above rank run.loader.packages dir →
    load run path = some result → ∃ next, result = .ok next

variable {rank : List UInt8 → Nat} {load : LoadRun → List UInt8 → LoadResult (LoadRun × PackageRef)} {run : LoadRun}
  {before after : List Package} {cur : Package} {done rest : List ImportRef} {ref : PackageRef} {dir : List UInt8}

theorem Frame.succeeds (loads : input.Loads load)
    (succeeds : input.Succeeds rank load) (frame : input.Frame run before after cur done rest)
    (clean : ∀ dir', ReflTransGen input.Imports cur.dirPath dir' → input.Clean rank dir')
    (above : Above rank before cur.dirPath) {result : Except PackageError LoadRun}
    (ran : resolveImports input.fs load before.length cur.dirPath done.length rest run = some result) :
    ∃ next, result = .ok next := by
  induction rest generalizing run after cur done with
  | nil => exact ⟨run, (Option.some.inj ran).symm⟩
  | cons imp rest ih =>
    have direct : run.loader.redirect imp.path = none := by rw [PackageLoader.redirect, frame.consistent.selected]
    simp only [resolveImports, direct] at ran
    have leads : ∃ dir, input.importDir cur.dirPath imp.path = some dir ∧ rank dir < rank cur.dirPath := by
      obtain ⟨pkg₀, source, retargets⟩ := frame.source
      have inPaths : imp.path ∈ pkg₀.imports.map ImportRef.path := by
        rw [← retargets.paths, frame.imports]
        exact List.mem_map_of_mem (List.mem_append_right _ (List.mem_cons_self ..))
      obtain ⟨imp', member, path⟩ := List.mem_map.mp inPaths
      exact path ▸ (clean cur.dirPath .refl).leads pkg₀ source imp' member
    obtain ⟨dir, leads, down⟩ := leads
    have edge := frame.edge leads
    have below : Above rank run.loader.packages dir := by
      intro pkg member state
      rw [frame.packages] at member
      rcases List.mem_append.mp member with inBefore | inRest
      · exact Nat.lt_trans down (above pkg inBefore state)
      · rcases List.mem_cons.mp inRest with rfl | inAfter
        · exact down
        · rw [(frame.later pkg inAfter).1] at state
          cases state
    have atDir : input.fs.canonicalizePath (input.fs.resolveImportDir run.loader.rootDir cur.dirPath imp.path) = some dir := by
      rw [frame.consistent.rootDir]
      exact leads
    cases loaded : load run (input.fs.resolveImportDir run.loader.rootDir cur.dirPath imp.path) with
    | none =>
      rw [loaded] at ran
      cases ran
    | some loadResult =>
      obtain ⟨⟨next, ref⟩, rfl⟩ := succeeds run _ dir loadResult frame.consistent frame.rooted atDir
        (fun dir' path => clean dir' (.head edge path)) below loaded
      obtain ⟨dir', new, leads', arrived⟩ := loads run _ next ref frame.consistent frame.rooted loaded
      rw [frame.consistent.rootDir] at leads'
      have frame' := frame.step leads' arrived
      have index : done.length + 1 = (done ++ [{ imp with target := some ref }]).length := by simp
      simp only [loaded, index] at ran
      exact ih frame' clean above ran

theorem Frame.finishes (frame : input.Frame run before after cur cur.imports []) (clean : input.Clean rank cur.dirPath) :
    ∃ next, finishPackage input.checks before.length run = .ok next := by
  have here : run.loader.packages[before.length]? = some cur := by
    rw [frame.packages, List.getElem?_append_right (Nat.le_refl _), Nat.sub_self, List.getElem?_cons_zero]
  obtain ⟨pkg₀, source, retargets⟩ := frame.source
  obtain ⟨importSymbols, checked, symbols, bound, closed⟩ := clean.finishes pkg₀ source run.loader cur retargets
  simp only [finishPackage, here, symbols, bound, closed]
  exact ⟨_, rfl⟩

theorem imports_succeed (loads : input.Loads load)
    (succeeds : input.Succeeds rank load) (consistent : input.Consistent run) (rooted : input.Rooted run)
    (packages : run.loader.packages = before ++ [cur]) (state : cur.loadState = .loading) {pkg₀ : Package}
    (ensured : cur.ensureImplicitBuiltinImport = .ok pkg₀) (source : input.packageAt cur.dirPath = .ok pkg₀)
    (clean : ∀ dir', ReflTransGen input.Imports cur.dirPath dir' → input.Clean rank dir')
    (above : Above rank before cur.dirPath) {result : Except PackageError LoadRun}
    (ran : resolvePackageImportsAndSelectors input.fs input.checks load ⟨run.loader.block, before.length⟩ run = some result) :
    ∃ next, result = .ok next := by
  have here : run.loader.packages[before.length]? = some cur := by
    rw [packages, List.getElem?_append_right (Nat.le_refl _), Nat.sub_self, List.getElem?_cons_zero]
  have inTable : before.length < run.loader.packages.length := by
    rw [packages, List.length_append, List.length_singleton]
    omega
  have dirPath := (Package.ensureImplicitBuiltinImport_dirPath ensured).1
  rw [← dirPath] at clean above
  have start := Frame.start consistent rooted packages state source ensured
  simp only [resolvePackageImportsAndSelectors, PackageLoader.findPackageIndex, inTable, and_self, if_true, here,
    ensured] at ran
  cases resolved : resolveImports input.fs load before.length pkg₀.dirPath 0 pkg₀.imports (run.update before.length pkg₀) with
  | none =>
    rw [resolved] at ran
    cases ran
  | some resolveResult =>
    obtain ⟨next, rfl⟩ := start.succeeds loads succeeds clean above resolved
    obtain ⟨after', cur', dirPath', _, final⟩ := start.resolve loads resolved
    obtain ⟨last, finished⟩ := final.finishes (clean _ (dirPath' ▸ .refl))
    simp only [resolved, finished, Option.some.injEq] at ran
    exact ⟨last, ran.symm⟩

theorem slot_succeeds (loads : input.Loads load)
    (succeeds : input.Succeeds rank load) (consistent : input.Consistent run)
    (fresh : dir ∉ run.loader.packages.map Package.dirPath)
    (rooted : ∀ dirPath name text, input.entry = .files dirPath name text →
      dirPath ∈ run.loader.packages.map Package.dirPath ∨ dirPath = dir)
    (clean : ∀ dir', ReflTransGen input.Imports dir dir' → input.Clean rank dir')
    (above : Above rank run.loader.packages dir) {result : Except PackageError (LoadRun × PackageRef)}
    (ran : loadSlot input.fs input.checks load run dir (input.nameAt dir) (input.textAt dir) = some result) :
    ∃ next, result = .ok next := by
  obtain ⟨text, pkg, pkg₀, atDir, processed, own, ensured⟩ := (clean dir .refl).source
  obtain ⟨dirPath, state⟩ := PackageText.processOn_dirPath processed
  have packages := @PackageLoader.addPackageSlot_packages run.loader dir (input.nameAt dir) pkg
  have consistent' := consistent.addSlot (input.nameAt dir) fresh dirPath state
  have slot : (run.loader.addPackageSlot dir (input.nameAt dir)).2 =
      ⟨(run.loader.addPackageSlot dir (input.nameAt dir)).1.block, run.loader.packages.length⟩ := rfl
  simp only [loadSlot, atDir, processed, own, slot] at ran
  split at ran
  · cases ran
  · rename_i e resolved
    obtain ⟨next, wrong⟩ := imports_succeed loads succeeds consistent' (rooted_slot dirPath rooted packages) packages
      state ensured (dirPath ▸ packageAt_of_text atDir processed ensured) (dirPath ▸ clean) (dirPath ▸ above) resolved
    cases wrong
  · exact ⟨_, (Option.some.inj ran).symm⟩

theorem loadPackageRecursive_succeeds (fuel : Nat) :
    input.Succeeds rank (loadPackageRecursive input.fs input.checks fuel) := by
  induction fuel with
  | zero =>
    intro run path dir result _ _ _ _ _ ran
    cases ran
  | succ fuel ih =>
    intro run path dir result consistent rooted canonical clean above ran
    rw [loadPackageRecursive, canonical] at ran
    cases search : run.loader.findPackageByDir dir with
    | some pair =>
      obtain ⟨ref, pkg⟩ := pair
      simp only [search] at ran
      split at ran
      · rename_i state
        obtain ⟨_, member, dirPath⟩ := findPackageByDir_some search
        have below := above pkg (List.mem_of_getElem? member) state
        rw [dirPath] at below
        omega
      · exact ⟨_, (Option.some.inj ran).symm⟩
    | none =>
      simp only [search] at ran
      have fresh := findPackageByDir_none search
      rw [← (textAt_of_rooted rooted fresh).1, ← (textAt_of_rooted rooted fresh).2] at ran
      exact slot_succeeds (loads_loadPackageRecursive fuel) ih consistent fresh
        (fun d n t entry => Or.inl (rooted d n t entry)) clean above ran

/-- A load succeeds where nothing is wrong with what it comes to, and the imports lead down. -/
theorem loadPackages_succeeds (clean : ∀ dir, input.Reached dir → input.Clean rank dir) (entered : ∃ dir, input.entryDir = some dir)
    (target : input.platformTarget ≠ [])
    (platform : ∀ dir, input.entryDir = some dir → ∃ dir', input.fs.canonicalizePath (input.platformDir dir) = some dir') :
    ∃ run, input.loadPackages = some (.ok run) := by
  obtain ⟨dir, entered⟩ := entered
  have cleanDown : ∀ dir', ReflTransGen input.Imports dir dir' → input.Clean rank dir' := fun dir' path =>
    clean dir' ⟨dir, Or.inl entered, path⟩
  have idle : Above rank input.initialRun.loader.packages dir := fun _ none => (List.not_mem_nil none).elim
  obtain ⟨result, first⟩ := loadEntry_ends input
  have succeeded : ∃ next, result = .ok next := by
    rw [loadEntry] at first
    rw [entryDir] at entered
    cases entry : input.entry with
    | directory path =>
      rw [entry] at first entered
      refine loadPackageRecursive_succeeds _ _ _ dir result consistent_initialRun ?_ entered cleanDown idle first
      intro dirPath name text other
      rw [entry] at other
      cases other
    | files dirPath name text =>
      rw [entry] at first entered
      rw [← Option.some.inj entered] at cleanDown idle
      have atDir : input.textAt dirPath = text ∧ input.nameAt dirPath = name := by
        rw [textAt, nameAt, entry]
        simp only [if_pos, and_self]
      simp only [← atDir.1, ← atDir.2] at first
      refine slot_succeeds (loads_loadPackageRecursive _) (loadPackageRecursive_succeeds _) consistent_initialRun
        List.not_mem_nil (fun d n t other => Or.inr ?_) cleanDown idle first
      rw [entry] at other
      cases other
      rfl
  obtain ⟨⟨run, ref⟩, rfl⟩ := succeeded
  obtain ⟨dir', new, entered', arrived, rooted⟩ := loadEntry_arrives first
  rw [entered] at entered'
  obtain ⟨t, found, tDir, _⟩ := arrived.found
  rw [← Option.some.inj entered'] at tDir
  obtain ⟨platform', leads⟩ := platform dir entered
  obtain ⟨result, second⟩ := loadPackageRecursive_ends input.depth run (input.platformDir t.dirPath) arrived.consistent
    rooted (missing_le_length run)
  rw [← tDir] at leads
  have loaded : Above rank run.loader.packages platform' := by
    intro pkg member state
    rw [arrived.packages] at member
    rw [(arrived.later pkg member).1] at state
    cases state
  obtain ⟨⟨run', ref'⟩, rfl⟩ := loadPackageRecursive_succeeds _ _ _ platform' _ arrived.consistent rooted leads
    (fun dir' path => clean dir' ⟨platform', Or.inr ⟨dir, entered, tDir ▸ leads⟩, path⟩) loaded second
  simp only [loadPackages, first, found, loadSelectedPlatformTargetPackage, target, if_false, second]
  exact ⟨_, rfl⟩

/-- A load ends. It fails when the imports go round, and where it succeeds it is sound unless it comes to more than 256
packages: the table then moves, and what led to a package before leads nowhere. -/
theorem load_sound_iff (input : LoadInput) :
    ∃ result, input.loadPackages = some result ∧
      ((∃ dir, input.Reached dir ∧ TransGen input.Imports dir dir) → ∃ e, result = .error e) ∧
      ∀ run, result = .ok run → (input.LoadSound run ↔ input.FewPackages) := by
  obtain ⟨result, loaded⟩ := loadPackages_ends input
  refine ⟨result, loaded, ?_, ?_⟩
  · rintro ⟨dir, reached, circle⟩
    cases result with
    | error e => exact ⟨e, rfl⟩
    | ok run => exact absurd circle ((loadPackages_completed loaded).acyclic reached)
  · intro run same
    rw [same] at loaded
    exact (loadPackages_completed loaded).sound_iff

theorem mem_dirs_of_reached (entered : ∀ dir, input.entryDir = some dir → dir ∈ input.fs.dirs) {dir : List UInt8}
    (reached : input.Reached dir) : dir ∈ input.fs.dirs := by
  obtain ⟨root, isRoot, path⟩ := reached
  cases path with
  | refl =>
    rcases isRoot with isEntry | ⟨_, _, canonical⟩
    · exact entered dir isEntry
    · exact input.fs.canonical _ dir canonical
  | tail _ edge =>
    obtain ⟨_, _, _, _, leads⟩ := edge
    exact input.fs.canonical _ dir leads

/-! ### A program of 275 packages -/

def isLetter (c : UInt8) : Bool := 97 ≤ c && c ≤ 112

def letters : List UInt8 := (List.range' 97 16).map UInt8.ofNat

def isManyDir : List UInt8 → Bool
  | [s, a] => s = Byte.slash && isLetter a
  | [s, a, b] => s = Byte.slash && isLetter a && isLetter b
  | path => path = bytesOf "/main" || path = bytesOf "/builtin" || path = bytesOf "/platform/x"

def manyDirs : List (List UInt8) :=
  [bytesOf "/main", bytesOf "/builtin", bytesOf "/platform/x"] ++ letters.map (fun a => [Byte.slash, a]) ++
    letters.flatMap fun a => letters.map fun b => [Byte.slash, a, b]

theorem isLetter_mem {c : UInt8} (letter : isLetter c = true) : c ∈ letters := by
  simp only [isLetter, Bool.and_eq_true, decide_eq_true_eq, UInt8.le_iff_toNat_le] at letter
  refine List.mem_map.mpr ⟨c.toNat, List.mem_range'_1.mpr ⟨letter.1, ?_⟩, UInt8.ofNat_toNat⟩
  have high : c.toNat ≤ 112 := letter.2
  omega

theorem isManyDir_mem {path : List UInt8} (isDir : isManyDir path = true) : path ∈ manyDirs := by
  rw [manyDirs, List.mem_append, List.mem_append, List.mem_map, List.mem_flatMap]
  unfold isManyDir at isDir
  split at isDir
  · rename_i s a
    simp only [Bool.and_eq_true, decide_eq_true_eq] at isDir
    exact Or.inl (Or.inr ⟨a, isLetter_mem isDir.2, isDir.1 ▸ rfl⟩)
  · rename_i s a b
    simp only [Bool.and_eq_true, decide_eq_true_eq] at isDir
    exact Or.inr ⟨a, isLetter_mem isDir.1.2, List.mem_map.mpr ⟨b, isLetter_mem isDir.2, isDir.1.1 ▸ rfl⟩⟩
  · simp only [Bool.or_eq_true, decide_eq_true_eq] at isDir
    left; left
    simp only [List.mem_cons, List.not_mem_nil, or_false]
    tauto

def manyFs : FileSystem where
  dirs := manyDirs
  canonicalizePath path := if isManyDir path then some path else none
  canonical := by
    intro path dir found
    split at found
    · rename_i isDir
      exact Option.some.inj found ▸ isManyDir_mem isDir
    · cases found
  isDirectoryPath := isManyDir
  resolveLibImportDir _ _ := none
  resolveLibImportDirFromExe _ := none
  readPackage dir :=
    let names :=
      if dir = bytesOf "/main" then letters.map fun a => [a]
      else
        match dir with
        | [_, a] => letters.map fun b => [a, b]
        | _ => []
    .ok ⟨names.map fun path => ⟨path, none, []⟩, [], []⟩

/-- The program whose main package imports the packages from `a` to `p`. The package `a` imports those from `aa` to `ap`,
and so the others. -/
def manyPackages : LoadInput where
  fs := manyFs
  checks := ⟨fun _ => .ok (), fun _ pkg => .ok pkg.importSymbols, fun _ _ => .ok ()⟩
  rootDir := [Byte.slash]
  platformTarget := bytesOf "x"
  entry := .directory (bytesOf "/main")

def manyRank (dir : List UInt8) : Nat :=
  if dir = bytesOf "/main" then 3 else if dir = bytesOf "/builtin" then 0 else if dir.length = 2 then 2 else 1

def manyClean (dir : List UInt8) : Bool :=
  match manyPackages.packageAt dir with
  | .error _ => false
  | .ok pkg₀ =>
    pkg₀.importSymbols = [] && (pkg₀.checkBindNames pkg₀.imports).toBool &&
      pkg₀.imports.all fun imp => (manyPackages.importDir dir imp.path).any fun dir' => manyRank dir' < manyRank dir

def manyPaths (dir : List UInt8) : List (List UInt8) :=
  match manyPackages.packageAt dir with
  | .error _ => []
  | .ok pkg => pkg.imports.map ImportRef.path

/-- What the program computes to, all at once. The first 19 directories are those with imports, and two more. -/
theorem manyPackages_computed : ((∀ dir ∈ manyDirs.take 19, manyClean dir = true) ∧
    ∀ dir ∈ manyDirs.drop 19, manyClean dir = true) ∧
    (∀ a ∈ letters, [a] ∈ manyPaths (bytesOf "/main") ∧ isLetter a = true) ∧
    (∀ a ∈ letters, ∀ b ∈ letters, [a, b] ∈ manyPaths [Byte.slash, a]) ∧
    manyPackages.entryDir = some (bytesOf "/main") ∧
    isManyDir (joinPath [Byte.slash] manyPackages.platformPath) = true :=
  ⟨⟨by decide +kernel, by decide +kernel⟩, by decide +kernel, by decide +kernel, by decide +kernel, by decide +kernel⟩

theorem manyClean_all : ∀ dir ∈ manyDirs, manyClean dir = true := by
  intro dir member
  rw [← List.take_append_drop 19 manyDirs] at member
  rcases List.mem_append.mp member with inner | leaf
  · exact manyPackages_computed.1.1 dir inner
  · exact manyPackages_computed.1.2 dir leaf

theorem manyPackages_clean {dir : List UInt8} (known : dir ∈ manyDirs) : manyPackages.Clean manyRank dir := by
  have clean := manyClean_all dir known
  rw [manyClean] at clean
  cases source : manyPackages.packageAt dir with
  | error e =>
    rw [source] at clean
    cases clean
  | ok pkg₀ =>
    simp only [source, Bool.and_eq_true, decide_eq_true_eq, List.all_eq_true] at clean
    obtain ⟨⟨symbols, bound⟩, leads⟩ := clean
    refine ⟨?_, ?_, ?_⟩
    · obtain ⟨text, pkg, atDir, processed, ensured⟩ := packageAt_eq_ok source
      exact ⟨text, pkg, pkg₀, atDir, processed, rfl, ensured⟩
    · intro pkg same imp member
      rw [source] at same
      obtain ⟨dir', leads', lower⟩ := (Option.any_eq_true ..).mp (leads imp (Except.ok.inj same ▸ member))
      exact ⟨dir', leads', of_decide_eq_true lower⟩
    · intro pkg same loader pkg' retargets
      rw [source] at same
      rw [← Except.ok.inj same] at retargets
      have symbols' : pkg'.importSymbols = [] := by
        rw [← symbols, ← congrArg Package.importSymbols retargets.rest]
      rw [← retargets.checkBindNames] at bound
      cases checked : pkg'.checkBindNames pkg'.imports with
      | error e =>
        rw [checked] at bound
        cases bound
      | ok _ =>
        refine ⟨pkg'.importSymbols, pkg', rfl, ?_, rfl⟩
        have valid : pkg'.validateImportBindingConflicts = .ok pkg' := by
          simp only [Package.validateImportBindingConflicts, checked, symbols', List.length_nil, Package.checkSymbols]
          rw [← symbols']
          rfl
        exact valid

theorem canonicalizePath_isManyDir {path : List UInt8} (isDir : isManyDir path = true) :
    manyFs.canonicalizePath path = some path := if_pos isDir

theorem imports_of_mem_manyPaths {dir path : List UInt8} (member : path ∈ manyPaths dir)
    (isDir : isManyDir (Byte.slash :: path) = true) : manyPackages.Imports dir (Byte.slash :: path) := by
  rw [manyPaths] at member
  split at member
  · cases member
  · rename_i pkg source
    obtain ⟨imp, inImports, rfl⟩ := List.mem_map.mp member
    refine ⟨pkg, imp, source, inImports, ?_⟩
    have resolved : manyFs.resolveImportDir [Byte.slash] dir imp.path = Byte.slash :: imp.path := if_pos isDir
    rw [importDir]
    exact (congrArg manyFs.canonicalizePath resolved).trans (canonicalizePath_isManyDir isDir)

theorem manyPaths_main : ∀ a ∈ letters, [a] ∈ manyPaths (bytesOf "/main") ∧ isLetter a = true :=
  manyPackages_computed.2.1

theorem manyPaths_letter : ∀ a ∈ letters, ∀ b ∈ letters, [a, b] ∈ manyPaths [Byte.slash, a] :=
  manyPackages_computed.2.2.1

theorem entryDir_manyPackages : manyPackages.entryDir = some (bytesOf "/main") :=
  manyPackages_computed.2.2.2.1

theorem manyPackages_reached {a b : UInt8} (first : a ∈ letters) (second : b ∈ letters) :
    manyPackages.Reached [Byte.slash, a, b] := by
  obtain ⟨inMain, letter⟩ := manyPaths_main a first
  have letter' := (manyPaths_main b second).2
  have outer := imports_of_mem_manyPaths inMain (by simp only [isManyDir, letter]; rfl)
  have inner := imports_of_mem_manyPaths (manyPaths_letter a first b second)
    (by simp only [isManyDir, letter, letter']; rfl)
  exact ⟨bytesOf "/main", Or.inl entryDir_manyPackages, .tail (.tail .refl outer) inner⟩

theorem manyPackages_not_few : ¬manyPackages.FewPackages := by
  intro few
  have bound := few (bytesOf "/main" :: letters.flatMap fun a => letters.map fun b => [Byte.slash, a, b]) ?_ ?_
  · simp only [List.length_cons, List.length_flatMap, List.length_map, List.map_const', List.sum_replicate_nat,
      show letters.length = 16 from rfl] at bound
    exact absurd bound (by decide)
  · refine List.nodup_cons.mpr ⟨?_, List.nodup_flatMap.mpr ⟨?_, ?_⟩⟩
    · intro member
      obtain ⟨a, _, inner⟩ := List.mem_flatMap.mp member
      obtain ⟨b, _, same⟩ := List.mem_map.mp inner
      have lengths : 3 = 5 := congrArg List.length same
      omega
    · intro a _
      refine List.Nodup.map ?_ (by decide : letters.Nodup)
      intro b b' same
      injection same with _ same
      injection same with _ same
      injection same
    · refine List.Nodup.pairwise_of_forall_ne (by decide : letters.Nodup) ?_
      intro a _ a' _ other path inFirst inSecond
      obtain ⟨b, _, rfl⟩ := List.mem_map.mp inFirst
      obtain ⟨b', _, same⟩ := List.mem_map.mp inSecond
      injection same with _ same
      injection same with same _
      exact other same.symm
  · intro dir member
    rcases List.mem_cons.mp member with rfl | inner
    · exact ⟨_, Or.inl entryDir_manyPackages, .refl⟩
    · obtain ⟨a, first, inner⟩ := List.mem_flatMap.mp inner
      obtain ⟨b, second, rfl⟩ := List.mem_map.mp inner
      exact manyPackages_reached first second

theorem manyPackages_loads : ∃ run, manyPackages.loadPackages = some (.ok run) := by
  refine loadPackages_succeeds (fun dir reached => manyPackages_clean ?_) ⟨_, entryDir_manyPackages⟩ (by decide) ?_
  · refine mem_dirs_of_reached (fun dir isEntry => ?_) reached
    rw [entryDir_manyPackages] at isEntry
    rw [← Option.some.inj isEntry]
    exact List.mem_cons_self ..
  · intro dir isEntry
    have isDir := manyPackages_computed.2.2.2.2
    have found : manyPackages.platformDir dir = joinPath [Byte.slash] manyPackages.platformPath := by
      rw [platformDir]
      exact if_pos isDir
    rw [found]
    exact ⟨_, canonicalizePath_isManyDir isDir⟩

/-- The imports of a program of 275 packages lead nowhere once it is loaded. -/
theorem manyPackages_load_not_sound :
    ∃ run, manyPackages.loadPackages = some (.ok run) ∧ ¬manyPackages.LoadSound run := by
  obtain ⟨run, loaded⟩ := manyPackages_loads
  exact ⟨run, loaded, fun sound => manyPackages_not_few ((loadPackages_completed loaded).sound_iff.mp sound)⟩

end LoadInput

end HopHop
