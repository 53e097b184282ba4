import HopHop.PackageTable

namespace HopHop

open Relation

namespace LoadInput

variable {input : LoadInput}

/-- An import leads to the entry with this number, by a reference from before the table was moved if the number is a
small one. -/
def HasImporter (imports : List ImportRef) (k : Nat) : Prop :=
  ∃ imp ∈ imports, ∃ ref, imp.target = some ref ∧ ref.index = k ∧ (k < 256 → ref.block = 1)

theorem HasImporter.mono {imports imports' : List ImportRef} (subset : imports ⊆ imports') {k : Nat}
    (importer : HasImporter imports k) : HasImporter imports' k := by
  obtain ⟨imp, member, facts⟩ := importer
  exact ⟨imp, subset member, facts⟩

/-- The directory of the files that were named one by one has its package in the table. -/
def Rooted (input : LoadInput) (run : LoadRun) : Prop :=
  ∀ dirPath name text, input.entry = .files dirPath name text → dirPath ∈ run.loader.packages.map Package.dirPath

/-- What a load leads to: it adds packages, all of them loaded and reached from the directory. -/
structure Arrived (input : LoadInput) (run run' : LoadRun) (ref : PackageRef) (dir : List UInt8) (new : List Package) :
    Prop where
  consistent : input.Consistent run'
  packages : run'.loader.packages = run.loader.packages ++ new
  later : ∀ p ∈ new, p.loadState = .loaded ∧ ReflTransGen input.Imports dir p.dirPath
  block : run.loader.block ≤ run'.loader.block
  found : ∃ t, run'.loader.packages[ref.index]? = some t ∧ t.dirPath = dir ∧ t.loadState = .loaded
  low : 1 ≤ ref.block
  high : ref.block ≤ run'.loader.block
  created : ∀ k, run.loader.packages.length ≤ k → k < run'.loader.packages.length →
    k = ref.index ∧ (k < 256 → ref.block = 1) ∨ HasImporter (new.flatMap Package.imports) k

/-- A function that loads the package a path leads to. -/
def Loads (input : LoadInput) (load : LoadRun → List UInt8 → LoadResult (LoadRun × PackageRef)) : Prop :=
  ∀ run path run' ref, input.Consistent run → input.Rooted run → load run path = some (.ok (run', ref)) →
    ∃ dir new, input.fs.canonicalizePath path = some dir ∧ input.Arrived run run' ref dir new

/-- The package is another one, apart from where its imports lead to. -/
structure Retargets (pkg pkg₀ : Package) : Prop where
  rest : { pkg with imports := pkg₀.imports } = pkg₀
  imports : pkg.imports.map (fun imp => { imp with target := none }) =
    pkg₀.imports.map fun imp => { imp with target := none }

theorem Retargets.refl (pkg : Package) : Retargets pkg pkg := ⟨rfl, rfl⟩

/-- The state of the loop over the imports of a package: the package is in the middle of the table, and the imports that
are done are resolved. -/
structure Frame (input : LoadInput) (run : LoadRun) (before after : List Package) (cur : Package)
    (done rest : List ImportRef) : Prop where
  consistent : input.Consistent run
  rooted : input.Rooted run
  packages : run.loader.packages = before ++ cur :: after
  state : cur.loadState = .loading
  imports : cur.imports = done ++ rest
  source : ∃ pkg₀, input.packageAt cur.dirPath = .ok pkg₀ ∧ Retargets cur pkg₀
  later : ∀ p ∈ after, p.loadState = .loaded ∧ ReflTransGen input.Imports cur.dirPath p.dirPath
  resolved : ∀ imp ∈ done, input.Resolved run.loader cur.dirPath imp
  created : ∀ k, before.length < k → k < run.loader.packages.length →
    HasImporter (done ++ after.flatMap Package.imports) k

theorem modify_middle (done rest : List ImportRef) (imp : ImportRef) (f : ImportRef → ImportRef) :
    (done ++ imp :: rest).modify done.length f = done ++ f imp :: rest := by
  induction done with
  | nil => rfl
  | cons first done ih => simp only [List.cons_append, List.length_cons, List.modify_succ_cons, ih]

theorem Retargets.paths {pkg pkg₀ : Package} (same : Retargets pkg pkg₀) :
    pkg.imports.map ImportRef.path = pkg₀.imports.map ImportRef.path := by
  have paths := congrArg (List.map ImportRef.path) same.imports
  rw [List.map_map, List.map_map] at paths
  exact paths

theorem Retargets.setTarget {pkg pkg₀ : Package} (same : Retargets pkg pkg₀) (i : Nat) (ref : PackageRef) :
    Retargets (pkg.setTarget i ref) pkg₀ := by
  refine ⟨same.rest, ?_⟩
  rw [← same.imports, Package.setTarget]
  refine List.ext_getElem? fun j => ?_
  rw [List.getElem?_map, List.getElem?_map, List.getElem?_modify]
  split
  · rw [Option.map_eq_map, Option.map_map]
    rfl
  · simp only [Option.map_id', Option.map_eq_map]

variable {run run' : LoadRun} {before after new : List Package} {cur : Package} {done rest : List ImportRef}
  {imp : ImportRef} {ref : PackageRef} {dir : List UInt8}

theorem Frame.edge (frame : input.Frame run before after cur done (imp :: rest))
    (leads : input.importDir cur.dirPath imp.path = some dir) : input.Imports cur.dirPath dir := by
  obtain ⟨pkg₀, same, retargets⟩ := frame.source
  have inPaths : imp.path ∈ pkg₀.imports.map ImportRef.path := by
    rw [← retargets.paths, frame.imports]
    exact List.mem_map_of_mem (List.mem_append_right _ (List.mem_cons_self ..))
  obtain ⟨imp', member, path⟩ := List.mem_map.mp inPaths
  exact ⟨pkg₀, imp', same, member, path ▸ leads⟩

theorem Rooted.mono (rooted : input.Rooted run)
    (subset : run.loader.packages.map Package.dirPath ⊆ run'.loader.packages.map Package.dirPath) : input.Rooted run' :=
  fun dirPath name text entry => subset (rooted dirPath name text entry)

theorem dirs_subset_insert {pkg : Package} (dirPath : pkg.dirPath = cur.dirPath) (new : List Package) :
    (before ++ cur :: after).map Package.dirPath ⊆ (before ++ pkg :: (after ++ new)).map Package.dirPath := by
  simp only [List.map_append, List.map_cons, dirPath]
  refine List.append_subset.mpr ⟨List.subset_append_left _ _, ?_⟩
  exact List.Subset.trans (List.cons_subset_cons _ (List.subset_append_left _ _)) (List.subset_append_right _ _)

/-- One round of the loop: the import that was next is resolved. -/
theorem Frame.step (frame : input.Frame run before after cur done (imp :: rest))
    (leads : input.importDir cur.dirPath imp.path = some dir) (arrived : input.Arrived run run' ref dir new) :
    input.Frame (run'.setTarget before.length done.length ref) before (after ++ new)
      (cur.setTarget done.length ref) (done ++ [{ imp with target := some ref }]) rest := by
  have packages : run'.loader.packages = before ++ cur :: (after ++ new) := by
    rw [arrived.packages, frame.packages, List.append_assoc, List.cons_append]
  have here : run'.setTarget before.length done.length ref = run'.update before.length (cur.setTarget done.length ref) := by
    rw [LoadRun.setTarget, packages, List.getElem?_append_right (Nat.le_refl _), Nat.sub_self, List.getElem?_cons_zero]
  have middle := PackageLoader.update_middle packages (cur.setTarget done.length ref)
  have keeps := PackageLoader.update_keeps packages (by rw [frame.state]; decide) (cur.setTarget done.length ref)
  have imports : (cur.setTarget done.length ref).imports = done ++ { imp with target := some ref } :: rest := by
    rw [Package.setTarget, frame.imports]
    exact modify_middle done rest imp _
  obtain ⟨t, found, tDir, tState⟩ := arrived.found
  rw [here]
  refine ⟨arrived.consistent.replace packages frame.state frame.state rfl, ?_, middle, frame.state, ?_, ?_, ?_, ?_, ?_⟩
  · refine frame.rooted.mono ?_
    rw [LoadRun.update, middle, frame.packages]
    exact dirs_subset_insert (show (cur.setTarget done.length ref).dirPath = cur.dirPath from rfl) new
  · rw [imports, List.append_assoc, List.singleton_append]
  · obtain ⟨pkg₀, same, retargets⟩ := frame.source
    exact ⟨pkg₀, same, retargets.setTarget _ ref⟩
  · intro p member
    rcases List.mem_append.mp member with old | added
    · exact frame.later p old
    · exact ⟨(arrived.later p added).1, .head (frame.edge leads) (arrived.later p added).2⟩
  · intro other member
    rcases List.mem_append.mp member with old | last
    · refine ((frame.resolved other old).keeps ⟨arrived.block, ?_⟩).keeps keeps
      intro i p inTable _
      rw [arrived.packages, List.getElem?_append_left (List.getElem?_eq_some_iff.mp inTable).1]
      exact inTable
    · rw [List.mem_singleton.mp last]
      have resolved : input.Resolved run'.loader cur.dirPath { imp with target := some ref } :=
        ⟨ref, t, rfl, found, tState, leads.trans (congrArg some tDir.symm), arrived.low, arrived.high⟩
      exact resolved.keeps keeps
  · intro k low high
    rw [LoadRun.update, middle] at high
    have high' : k < run'.loader.packages.length := by
      rw [packages]
      simp only [List.length_append, List.length_cons] at high ⊢
      exact high
    by_cases old : k < run.loader.packages.length
    · refine (frame.created k low old).mono ?_
      intro other member
      rw [List.flatMap_append]
      rcases List.mem_append.mp member with inDone | inAfter
      · exact List.mem_append_left _ (List.mem_append_left _ inDone)
      · exact List.mem_append_right _ (List.mem_append_left _ inAfter)
    · rcases arrived.created k (by omega) high' with ⟨same, small⟩ | importer
      · exact ⟨_, List.mem_append_left _ (List.mem_append_right _ (List.mem_singleton_self _)), ref, rfl, same.symm, small⟩
      · refine importer.mono ?_
        intro other member
        rw [List.flatMap_append]
        exact List.mem_append_right _ (List.mem_append_right _ member)

/-- The whole loop. -/
theorem Frame.resolve {load : LoadRun → List UInt8 → LoadResult (LoadRun × PackageRef)} (loads : input.Loads load)
    (frame : input.Frame run before after cur done rest)
    (ran : resolveImports input.fs load before.length cur.dirPath done.length rest run = some (.ok run')) :
    ∃ after' cur', cur'.dirPath = cur.dirPath ∧ run.loader.block ≤ run'.loader.block ∧
      input.Frame run' before after' cur' cur'.imports [] := by
  induction rest generalizing run after cur done with
  | nil =>
    rw [resolveImports] at ran
    rw [← Except.ok.inj (Option.some.inj ran)]
    have all : cur.imports = done := frame.imports.trans (List.append_nil done)
    exact ⟨after, cur, rfl, Nat.le_refl _, all ▸ frame⟩
  | cons imp rest ih =>
    rw [resolveImports] at ran
    have direct : run.loader.redirect imp.path = none := by rw [PackageLoader.redirect, frame.consistent.selected]
    simp only [direct] at ran
    cases loaded : load run (input.fs.resolveImportDir run.loader.rootDir cur.dirPath imp.path) with
    | none =>
      rw [loaded] at ran
      cases ran
    | some result =>
      cases result with
      | error e =>
        rw [loaded] at ran
        cases ran
      | ok pair =>
        obtain ⟨next, ref⟩ := pair
        rw [loaded] at ran
        obtain ⟨dir, new, leads, arrived⟩ := loads run _ next ref frame.consistent frame.rooted loaded
        rw [frame.consistent.rootDir] at leads
        have frame' := frame.step leads arrived
        have index : done.length + 1 = (done ++ [{ imp with target := some ref }]).length := by simp
        simp only [index] at ran
        obtain ⟨after', cur', dirPath, block, final⟩ := ih frame' ran
        refine ⟨after', cur', dirPath, ?_, final⟩
        have kept : (next.setTarget before.length done.length ref).loader.block = next.loader.block := by
          rw [LoadRun.setTarget]
          split <;> rfl
        rw [kept] at block
        exact Nat.le_trans arrived.block block

/-- The checks at the end make the package a loaded one. -/
theorem Frame.finish (frame : input.Frame run before after cur cur.imports [])
    (finished : finishPackage input.checks before.length run = .ok run') :
    ∃ cur', cur'.dirPath = cur.dirPath ∧ cur'.imports = cur.imports ∧ cur'.loadState = .loaded ∧
      run'.loader.packages = before ++ cur' :: after ∧ run'.loader.block = run.loader.block ∧ input.Consistent run' := by
  have here : run.loader.packages[before.length]? = some cur := by
    rw [frame.packages, List.getElem?_append_right (Nat.le_refl _), Nat.sub_self, List.getElem?_cons_zero]
  simp only [finishPackage, here] at finished
  cases symbols : input.checks.importSymbols run.loader cur with
  | error e =>
    rw [symbols] at finished
    cases finished
  | ok importSymbols =>
    simp only [symbols] at finished
    cases bound : { cur with importSymbols }.validateImportBindingConflicts with
    | error e =>
      rw [bound] at finished
      cases finished
    | ok checked =>
      simp only [bound] at finished
      obtain ⟨dirPath, imports⟩ := Package.validateImportBindingConflicts_keeps bound
      cases closed : input.checks.closed run.loader checked with
      | error e =>
        rw [closed] at finished
        cases finished
      | ok _ =>
        rw [closed] at finished
        rw [← Except.ok.inj finished]
        clear finished closed bound symbols
        have middle := PackageLoader.update_middle frame.packages { checked with loadState := .loaded }
        have keeps := PackageLoader.update_keeps frame.packages (by rw [frame.state]; decide)
          { checked with loadState := .loaded }
        refine ⟨{ checked with loadState := .loaded }, dirPath, imports, rfl, middle, rfl, ?_⟩
        have dirs : (before ++ { checked with loadState := .loaded } :: after).map Package.dirPath =
            run.loader.packages.map Package.dirPath := by
          rw [frame.packages]
          simp only [List.map_append, List.map_cons, dirPath]
        have loadedHere : input.Loaded (run.loader.update before.length { checked with loadState := .loaded })
            { checked with loadState := .loaded } := by
          obtain ⟨pkg₀, same, retargets⟩ := frame.source
          have paths := retargets.paths
          refine ⟨⟨pkg₀, dirPath ▸ same, imports ▸ paths⟩, ?_, ?_⟩
          · intro imp member
            have resolved := (frame.resolved imp (imports ▸ member)).keeps keeps
            exact dirPath ▸ resolved
          · refine .intro _ fun dir' edge => ?_
            obtain ⟨pkg₁, imp, same', member, leads⟩ := edge
            rw [dirPath] at same' leads
            rw [same] at same'
            rw [← Except.ok.inj same'] at member
            have inPaths : imp.path ∈ cur.imports.map ImportRef.path := paths ▸ List.mem_map_of_mem member
            obtain ⟨imp', member', path⟩ := List.mem_map.mp inPaths
            obtain ⟨ref, t, _, found, state, leads', _, _⟩ := frame.resolved imp' member'
            rw [path, leads] at leads'
            rw [Option.some.inj leads']
            exact (frame.consistent.loaded t (List.mem_of_getElem? found) state).acyclic
        refine ⟨frame.consistent.rootDir, frame.consistent.selected, ?_, ?_, ?_, ?_, ?_, ?_⟩
        · have sized := frame.consistent.sized
          rw [PackageLoader.Sized] at sized ⊢
          rw [LoadRun.update, middle]
          rw [frame.packages] at sized
          simp only [List.length_append, List.length_cons, PackageLoader.update] at sized ⊢
          exact sized
        · rw [LoadRun.update, middle, dirs]
          exact frame.consistent.nodup
        · intro p member
          rw [LoadRun.update, middle] at member
          have started := frame.consistent.started
          rw [frame.packages] at started
          rcases List.mem_append.mp member with inBefore | inRest
          · exact started p (List.mem_append_left _ inBefore)
          · rcases List.mem_cons.mp inRest with rfl | inAfter
            · intro same
              cases same
            · exact started p (List.mem_append_right _ (List.mem_cons_of_mem _ inAfter))
        · intro p member state
          rw [LoadRun.update, middle] at member
          rcases List.mem_append.mp member with inBefore | inRest
          · have old : p ∈ run.loader.packages := frame.packages ▸ List.mem_append_left _ inBefore
            exact (frame.consistent.loaded p old state).keeps keeps
          · rcases List.mem_cons.mp inRest with rfl | inAfter
            · exact loadedHere
            · have old : p ∈ run.loader.packages :=
                frame.packages ▸ List.mem_append_right _ (List.mem_cons_of_mem _ inAfter)
              exact (frame.consistent.loaded p old state).keeps keeps
        · rw [LoadRun.update, middle, dirs]
          exact frame.consistent.read
        · have validated := frame.consistent.validated
          rw [LoadRun.update, middle]
          rw [frame.packages] at validated
          simp only [List.filter_append, List.filter_cons, frame.state, reduceCtorEq, decide_false, Bool.false_eq_true,
            if_false, List.map_append, decide_true, if_true, List.map_cons, dirPath] at validated ⊢
          exact (validated.append_right _).trans
            ((List.perm_append_singleton ..).trans List.perm_middle.symm)

/-- The loop starts with the imports of a package at the end of the table. -/
theorem Frame.start {pkg : Package} (consistent : input.Consistent run) (rooted : input.Rooted run)
    (packages : run.loader.packages = before ++ [cur]) (state : cur.loadState = .loading)
    (source : input.packageAt cur.dirPath = .ok pkg) (ensured : cur.ensureImplicitBuiltinImport = .ok pkg) :
    input.Frame (run.update before.length pkg) before [] pkg [] pkg.imports := by
  obtain ⟨dirPath, loadState⟩ := Package.ensureImplicitBuiltinImport_dirPath ensured
  have middle := PackageLoader.update_middle packages pkg
  refine ⟨consistent.replace packages state (loadState.trans state) dirPath, ?_, middle, loadState.trans state, rfl,
    ⟨pkg, dirPath ▸ source, .refl pkg⟩, fun _ none => (List.not_mem_nil none).elim, fun _ none => (List.not_mem_nil none).elim, ?_⟩
  · refine rooted.mono ?_
    rw [LoadRun.update, middle, packages]
    simp only [List.map_append, List.map_cons, dirPath]
    exact List.Subset.refl _
  · intro k low high
    rw [LoadRun.update, middle, List.length_append, List.length_singleton] at high
    omega

/-- The loop over the imports and the checks after it, for a package at the end of the table. -/
theorem loads_imports {load : LoadRun → List UInt8 → LoadResult (LoadRun × PackageRef)} (loads : input.Loads load)
    (consistent : input.Consistent run) (rooted : input.Rooted run) (packages : run.loader.packages = before ++ [cur])
    (state : cur.loadState = .loading) (index : ref.index = before.length)
    (source : ∀ pkg₀, cur.ensureImplicitBuiltinImport = .ok pkg₀ → input.packageAt cur.dirPath = .ok pkg₀)
    (resolved : resolvePackageImportsAndSelectors input.fs input.checks load ref run = some (.ok run')) :
    ∃ cur' after, cur'.dirPath = cur.dirPath ∧ cur'.loadState = .loaded ∧
      run'.loader.packages = before ++ cur' :: after ∧ run.loader.block ≤ run'.loader.block ∧ input.Consistent run' ∧
      (∀ p ∈ after, p.loadState = .loaded ∧ ReflTransGen input.Imports cur.dirPath p.dirPath) ∧
      ∀ k, before.length < k → k < run'.loader.packages.length →
        HasImporter ((cur' :: after).flatMap Package.imports) k := by
  have here : run.loader.packages[ref.index]? = some cur := by
    rw [index, packages, List.getElem?_append_right (Nat.le_refl _), Nat.sub_self, List.getElem?_cons_zero]
  rw [resolvePackageImportsAndSelectors, PackageLoader.findPackageIndex, here] at resolved
  by_cases inTable : ref.block = run.loader.block ∧ ref.index < run.loader.packages.length
  · rw [if_pos inTable] at resolved
    simp only [index] at resolved
    cases ensured : cur.ensureImplicitBuiltinImport with
    | error e =>
      rw [ensured] at resolved
      cases resolved
    | ok pkg =>
      simp only [ensured] at resolved
      obtain ⟨dirPath, loadState⟩ := Package.ensureImplicitBuiltinImport_dirPath ensured
      have start := Frame.start consistent rooted packages state (source pkg ensured) ensured
      cases ran : resolveImports input.fs load before.length pkg.dirPath 0 pkg.imports (run.update before.length pkg) with
      | none =>
        rw [ran] at resolved
        cases resolved
      | some result =>
        cases result with
        | error e =>
          rw [ran] at resolved
          cases resolved
        | ok next =>
          rw [ran] at resolved
          obtain ⟨after, last, lastDir, grown, frame⟩ := start.resolve loads ran
          obtain ⟨cur', dir', imports', state', packages', block', consistent'⟩ :=
            frame.finish (Option.some.inj resolved)
          refine ⟨cur', after, dir'.trans (lastDir.trans dirPath), state', packages', ?_, consistent', ?_, ?_⟩
          · rw [block']
            exact grown
          · intro p member
            have facts := frame.later p member
            rw [lastDir, dirPath] at facts
            exact facts
          · intro k low high
            have high' : k < next.loader.packages.length := by
              rw [packages'] at high
              rw [frame.packages]
              simp only [List.length_append, List.length_cons] at high ⊢
              exact high
            have importer := frame.created k low high'
            rw [← imports'] at importer
            simpa only [List.flatMap_cons] using importer
  · rw [if_neg inTable] at resolved
    cases resolved

theorem packageAt_of_text {text : PackageText} {pkg : Package} (atDir : input.textAt dir = .ok text)
    (processed : text.processOn ⟨dir, input.nameAt dir, .loading, [], [], [], []⟩ = .ok pkg) {pkg₀ : Package}
    (ensured : pkg.ensureImplicitBuiltinImport = .ok pkg₀) : input.packageAt dir = .ok pkg₀ := by
  simp only [packageAt, atDir, processed, ensured]

/-- The table with a new package at its end has the entry if that is the package. -/
theorem rooted_slot {pkg : Package} (dirPath : pkg.dirPath = dir)
    (rooted : ∀ dirPath name text, input.entry = .files dirPath name text →
      dirPath ∈ run.loader.packages.map Package.dirPath ∨ dirPath = dir)
    (packages : run'.loader.packages = run.loader.packages ++ [pkg]) : input.Rooted run' := by
  intro dirPath' name text entry
  rw [packages, List.map_append, List.map_singleton, dirPath]
  rcases rooted dirPath' name text entry with old | same
  · exact List.mem_append_left _ old
  · exact List.mem_append_right _ (List.mem_singleton.mpr same)

/-- A package that was not in the table. -/
theorem loads_slot {load : LoadRun → List UInt8 → LoadResult (LoadRun × PackageRef)} (loads : input.Loads load)
    (consistent : input.Consistent run) (fresh : dir ∉ run.loader.packages.map Package.dirPath)
    (rooted : ∀ dirPath name text, input.entry = .files dirPath name text →
      dirPath ∈ run.loader.packages.map Package.dirPath ∨ dirPath = dir)
    (loaded : loadSlot input.fs input.checks load run dir (input.nameAt dir) (input.textAt dir) = some (.ok (run', ref))) :
    ∃ new, input.Arrived run run' ref dir new ∧ ref.index = run.loader.packages.length := by
  rw [loadSlot] at loaded
  cases atDir : input.textAt dir with
  | error e =>
    rw [atDir] at loaded
    cases loaded
  | ok text =>
    simp only [atDir] at loaded
    cases processed : text.processOn ⟨dir, input.nameAt dir, .loading, [], [], [], []⟩ with
    | error e =>
      rw [processed] at loaded
      cases loaded
    | ok pkg =>
      simp only [processed] at loaded
      obtain ⟨dirPath, state⟩ := PackageText.processOn_dirPath processed
      cases own : input.checks.own pkg with
      | error e =>
        rw [own] at loaded
        cases loaded
      | ok _ =>
        simp only [own] at loaded
        have packages := @PackageLoader.addPackageSlot_packages run.loader dir (input.nameAt dir) pkg
        have sizes := PackageLoader.addPackageSlot_sized consistent.sized dir (input.nameAt dir) pkg
        have consistent' := consistent.addSlot (input.nameAt dir) fresh dirPath state
        have slot : (run.loader.addPackageSlot dir (input.nameAt dir)).2 =
            ⟨(run.loader.addPackageSlot dir (input.nameAt dir)).1.block, run.loader.packages.length⟩ := rfl
        rw [slot] at loaded
        split at loaded
        · cases loaded
        · cases loaded
        · rename_i run₁ resolved
          cases Except.ok.inj (Option.some.inj loaded)
          obtain ⟨cur, after, curDir, curState, packages', grown, final, later, created⟩ :=
            loads_imports loads consistent' (rooted_slot dirPath rooted packages) packages state rfl
              (fun pkg₀ ensured => dirPath ▸ packageAt_of_text atDir processed ensured) resolved
          have curDir' : cur.dirPath = dir := curDir.trans dirPath
          rw [dirPath] at later
          refine ⟨cur :: after, ⟨final, packages', ?_, Nat.le_trans sizes.2.1 grown, ⟨cur, ?_, curDir', curState⟩, sizes.2.2.1,
            grown, ?_⟩, rfl⟩
          · intro p member
            rcases List.mem_cons.mp member with rfl | inAfter
            · exact ⟨curState, curDir' ▸ .refl⟩
            · exact later p inAfter
          · rw [packages', List.getElem?_append_right (Nat.le_refl _), Nat.sub_self, List.getElem?_cons_zero]
          · intro k low high
            by_cases first : k = run.loader.packages.length
            · exact Or.inl ⟨first, fun small => sizes.2.2.2 (first ▸ small)⟩
            · exact Or.inr (created k (by omega) high)

theorem findPackageByDir_none {loader : PackageLoader} (search : loader.findPackageByDir dir = none) :
    dir ∉ loader.packages.map Package.dirPath := by
  intro member
  obtain ⟨p, inTable, same⟩ := List.mem_map.mp member
  rw [PackageLoader.findPackageByDir] at search
  cases index : loader.packages.findIdx? (·.dirPath = dir) with
  | none =>
    have other := List.findIdx?_eq_none_iff.mp index p inTable
    exact absurd (decide_eq_true same) (by rw [other]; decide)
  | some i =>
    obtain ⟨bound, _⟩ := List.findIdx?_eq_some_iff_getElem.mp index
    simp only [index, List.getElem?_eq_getElem bound, Option.map_some, reduceCtorEq] at search

theorem findPackageByDir_some {loader : PackageLoader} {pkg : Package} (search : loader.findPackageByDir dir = some (ref, pkg)) :
    ref.block = loader.block ∧ loader.packages[ref.index]? = some pkg ∧ pkg.dirPath = dir := by
  rw [PackageLoader.findPackageByDir] at search
  cases index : loader.packages.findIdx? (·.dirPath = dir) with
  | none =>
    rw [index] at search
    cases search
  | some i =>
    obtain ⟨bound, here, _⟩ := List.findIdx?_eq_some_iff_getElem.mp index
    simp only [index, List.getElem?_eq_getElem bound, Option.map_some, Option.some.injEq, Prod.mk.injEq] at search
    rw [← search.1, ← search.2]
    exact ⟨rfl, List.getElem?_eq_getElem bound, of_decide_eq_true here⟩

theorem textAt_of_rooted (rooted : input.Rooted run) (fresh : dir ∉ run.loader.packages.map Package.dirPath) :
    input.textAt dir = input.fs.readPackage dir ∧ input.nameAt dir = lastPathComponent dir := by
  rw [textAt, nameAt]
  cases entry : input.entry with
  | directory _ => exact ⟨rfl, rfl⟩
  | files dirPath name text =>
    have other : dir ≠ dirPath := by
      rintro rfl
      exact fresh (rooted dir name text entry)
    simp only [if_neg other, and_self]

/-- What the recursive load leads to, at any depth. -/
theorem loads_loadPackageRecursive (fuel : Nat) : input.Loads (loadPackageRecursive input.fs input.checks fuel) := by
  induction fuel with
  | zero =>
    intro run path run' ref _ _ loaded
    cases loaded
  | succ fuel ih =>
    intro run path run' ref consistent rooted loaded
    rw [loadPackageRecursive] at loaded
    cases canonical : input.fs.canonicalizePath path with
    | none =>
      rw [canonical] at loaded
      cases loaded
    | some dir =>
      simp only [canonical] at loaded
      refine ⟨dir, ?_⟩
      cases search : run.loader.findPackageByDir dir with
      | some pair =>
        obtain ⟨ref', pkg⟩ := pair
        obtain ⟨block, here, dirPath⟩ := findPackageByDir_some search
        simp only [search] at loaded
        split at loaded
        · cases loaded
        · rename_i notLoading
          cases Except.ok.inj (Option.some.inj loaded)
          have inTable := List.mem_of_getElem? here
          have state : pkg.loadState = .loaded := by
            cases known : pkg.loadState with
            | alloc => exact absurd known (consistent.started pkg inTable)
            | loading => exact absurd known notLoading
            | loaded => rfl
          have positive : 1 ≤ run.loader.block := by
            have sized := consistent.sized
            have some : 0 < run.loader.packages.length := List.length_pos_of_mem inTable
            rw [PackageLoader.Sized] at sized
            omega
          exact ⟨[], rfl, consistent, (List.append_nil _).symm, fun _ none => (List.not_mem_nil none).elim,
            Nat.le_refl _, ⟨pkg, here, dirPath, state⟩, block ▸ positive, Nat.le_of_eq block, fun k low high => by omega⟩
      | none =>
        simp only [search] at loaded
        have fresh := findPackageByDir_none search
        rw [← (textAt_of_rooted rooted fresh).1, ← (textAt_of_rooted rooted fresh).2] at loaded
        obtain ⟨new, arrived, _⟩ := loads_slot ih consistent fresh (fun d n t entry => Or.inl (rooted d n t entry)) loaded
        exact ⟨new, rfl, arrived⟩

end LoadInput

end HopHop
