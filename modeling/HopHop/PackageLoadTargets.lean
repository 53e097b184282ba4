import Mathlib.Data.List.Perm.Subperm
import HopHop.PackageLoadRuns

namespace HopHop

open Relation

namespace LoadInput

variable {input : LoadInput}

/-- The directory of the package that a load starts with. -/
def entryDir (input : LoadInput) : Option (List UInt8) :=
  match input.entry with
  | .directory path => input.fs.canonicalizePath path
  | .files dirPath _ _ => some dirPath

/-- The directories of the entry and of the package of the platform. -/
def Root (input : LoadInput) (dir : List UInt8) : Prop :=
  input.entryDir = some dir ∨
    ∃ startDir, input.entryDir = some startDir ∧ input.fs.canonicalizePath (input.platformDir startDir) = some dir

/-- The directories that a load comes to. -/
def Reached (input : LoadInput) (dir : List UInt8) : Prop := ∃ root, input.Root root ∧ ReflTransGen input.Imports root dir

/-- What a load has to lead to: nothing that it came to goes round in the import graph, each directory that it came to
was read and checked once and has one package, and each import leads to the package of the directory its path leads to. -/
structure LoadSound (input : LoadInput) (run : LoadRun) : Prop where
  acyclic : ∀ dir, input.Reached dir → ¬TransGen input.Imports dir dir
  once : ∀ dir, input.Reached dir → (run.loader.packages.map Package.dirPath).count dir = 1 ∧ run.read.count dir = 1 ∧
    run.validated.count dir = 1
  reached : ∀ pkg ∈ run.loader.packages, input.Reached pkg.dirPath ∧ pkg.loadState = .loaded
  imports : ∀ pkg ∈ run.loader.packages, ∃ pkg₀, input.packageAt pkg.dirPath = .ok pkg₀ ∧
    pkg.imports.map ImportRef.path = pkg₀.imports.map ImportRef.path
  targets : ∀ pkg ∈ run.loader.packages, ∀ imp ∈ pkg.imports, ∃ ref t, imp.target = some ref ∧
    run.loader.find ref = some t ∧ input.importDir pkg.dirPath imp.path = some t.dirPath

/-- A load comes to at most 256 directories. -/
def FewPackages (input : LoadInput) : Prop :=
  ∀ dirs : List (List UInt8), dirs.Nodup → (∀ dir ∈ dirs, input.Reached dir) → dirs.length ≤ 256

/-! ### The two loads -/

theorem consistent_initialRun : input.Consistent input.initialRun :=
  ⟨rfl, rfl, Or.inl ⟨rfl, rfl, rfl⟩, .nil, fun _ none => (List.not_mem_nil none).elim,
    fun _ none => (List.not_mem_nil none).elim, rfl, .nil⟩

theorem loadEntry_arrives {run : LoadRun} {ref : PackageRef} (loaded : input.loadEntry = some (.ok (run, ref))) :
    ∃ dir new, input.entryDir = some dir ∧ input.Arrived input.initialRun run ref dir new ∧ input.Rooted run := by
  rw [loadEntry] at loaded
  rw [entryDir]
  cases entry : input.entry with
  | directory path =>
    rw [entry] at loaded
    have rooted : ∀ run, input.Rooted run := by
      intro run dirPath name text other
      rw [entry] at other
      cases other
    obtain ⟨dir, new, canonical, arrived⟩ :=
      loads_loadPackageRecursive _ _ _ _ _ consistent_initialRun (rooted _) loaded
    exact ⟨dir, new, canonical, arrived, rooted run⟩
  | files dirPath name text =>
    rw [entry] at loaded
    have atDir : input.textAt dirPath = text ∧ input.nameAt dirPath = name := by
      rw [textAt, nameAt, entry]
      simp only [if_pos, and_self]
    simp only [← atDir.1, ← atDir.2] at loaded
    obtain ⟨new, arrived, _⟩ := loads_slot (loads_loadPackageRecursive _) consistent_initialRun List.not_mem_nil
      (fun d n t other => Or.inr (by
        rw [entry] at other
        cases other
        rfl)) loaded
    refine ⟨dirPath, new, rfl, arrived, ?_⟩
    intro d n t other
    rw [entry] at other
    cases other
    obtain ⟨t, found, same, _⟩ := arrived.found
    exact same ▸ List.mem_map_of_mem (List.mem_of_getElem? found)

theorem loadEntry_ends (input : LoadInput) : ∃ result, input.loadEntry = some result := by
  rw [loadEntry]
  cases entry : input.entry with
  | directory path =>
    have rooted : input.Rooted input.initialRun := by
      intro dirPath name text other
      rw [entry] at other
      cases other
    exact loadPackageRecursive_ends _ _ _ consistent_initialRun rooted (missing_le_length _)
  | files dirPath name text =>
    have atDir : input.textAt dirPath = text ∧ input.nameAt dirPath = name := by
      rw [textAt, nameAt, entry]
      simp only [if_pos, and_self]
    simp only [← atDir.1, ← atDir.2]
    refine slot_ends (loads_loadPackageRecursive _) (loadPackageRecursive_ends _) consistent_initialRun List.not_mem_nil
      (fun d n t other => Or.inr ?_) fun run _ => missing_le_length run
    rw [entry] at other
    cases other
    rfl

/-- What a load that succeeds leads to. -/
structure Completed (input : LoadInput) (run : LoadRun) : Prop where
  consistent : ∃ run', input.Consistent run' ∧ run'.loader.packages = run.loader.packages ∧
    run'.loader.block = run.loader.block ∧ run'.read = run.read ∧ run'.validated = run.validated
  loaded : ∀ pkg ∈ run.loader.packages, pkg.loadState = .loaded ∧ input.Reached pkg.dirPath
  roots : ∀ root, input.Root root → root ∈ run.loader.packages.map Package.dirPath
  nonempty : 0 < run.loader.packages.length
  created : ∃ i j, ∀ k < run.loader.packages.length, k = i ∨ k = j ∨
    HasImporter (run.loader.packages.flatMap Package.imports) k

theorem loadPackages_completed {run : LoadRun} (loaded : input.loadPackages = some (.ok run)) : input.Completed run := by
  rw [loadPackages] at loaded
  cases first : input.loadEntry with
  | none =>
    rw [first] at loaded
    cases loaded
  | some result =>
    cases result with
    | error e =>
      rw [first] at loaded
      cases loaded
    | ok pair =>
      obtain ⟨run₁, ref₁⟩ := pair
      obtain ⟨dir, new₁, entryDir, arrived₁, rooted₁⟩ := loadEntry_arrives first
      obtain ⟨t, found, tDir, tState⟩ := arrived₁.found
      simp only [first, found, loadSelectedPlatformTargetPackage] at loaded
      split at loaded
      · cases loaded
      · cases second : loadPackageRecursive input.fs input.checks input.depth run₁ (input.platformDir t.dirPath) with
        | none =>
          rw [second] at loaded
          cases loaded
        | some result =>
          cases result with
          | error e =>
            rw [second] at loaded
            cases loaded
          | ok pair =>
            obtain ⟨run₂, ref₂⟩ := pair
            simp only [second, Option.some.injEq, Except.ok.injEq] at loaded
            obtain ⟨platform, new₂, canonical, arrived₂⟩ :=
              loads_loadPackageRecursive _ _ _ _ _ arrived₁.consistent rooted₁ second
            rw [tDir] at canonical
            have packages : run.loader.packages = new₁ ++ new₂ := by
              rw [← loaded]
              exact arrived₂.packages.trans (congrArg (· ++ new₂) arrived₁.packages)
            have rootEntry : input.Root dir := Or.inl entryDir
            have rootPlatform : input.Root platform := Or.inr ⟨dir, entryDir, canonical⟩
            have inFirst : t ∈ run.loader.packages := by
              have inRun₁ := List.mem_of_getElem? found
              rw [arrived₁.packages] at inRun₁
              rw [packages]
              exact List.mem_append_left _ inRun₁
            obtain ⟨t₂, found₂, tDir₂, _⟩ := arrived₂.found
            have inSecond : t₂ ∈ run.loader.packages := by
              rw [← loaded]
              exact List.mem_of_getElem? found₂
            refine ⟨⟨run₂, arrived₂.consistent, ?_, ?_, ?_, ?_⟩, ?_, ?_, List.length_pos_of_mem inFirst, ref₁.index,
              ref₂.index, ?_⟩
            · rw [← loaded]
            · rw [← loaded]
            · rw [← loaded]
            · rw [← loaded]
            · intro pkg member
              rw [packages] at member
              rcases List.mem_append.mp member with old | added
              · exact ⟨(arrived₁.later pkg old).1, dir, rootEntry, (arrived₁.later pkg old).2⟩
              · exact ⟨(arrived₂.later pkg added).1, platform, rootPlatform, (arrived₂.later pkg added).2⟩
            · rintro root (isEntry | ⟨startDir, isEntry, isPlatform⟩)
              · rw [← Option.some.inj (entryDir.symm.trans isEntry), ← tDir]
                exact List.mem_map_of_mem inFirst
              · rw [← Option.some.inj (entryDir.symm.trans isEntry), canonical] at isPlatform
                rw [← Option.some.inj isPlatform, ← tDir₂]
                exact List.mem_map_of_mem inSecond
            · intro k bound
              have lengths : run₂.loader.packages.length = run.loader.packages.length := by rw [← loaded]
              by_cases old : k < run₁.loader.packages.length
              · rcases arrived₁.created k (Nat.zero_le k) old with ⟨same, _⟩ | importer
                · exact Or.inl same
                · refine Or.inr (Or.inr (importer.mono ?_))
                  rw [packages, List.flatMap_append]
                  exact List.subset_append_left _ _
              · rcases arrived₂.created k (by omega) (by omega) with ⟨same, _⟩ | importer
                · exact Or.inr (Or.inl same)
                · refine Or.inr (Or.inr (importer.mono ?_))
                  rw [packages, List.flatMap_append]
                  exact List.subset_append_right _ _

theorem loadPackages_ends (input : LoadInput) : ∃ result, input.loadPackages = some result := by
  obtain ⟨result, first⟩ := loadEntry_ends input
  rw [loadPackages, first]
  cases result with
  | error e => exact ⟨_, rfl⟩
  | ok pair =>
    obtain ⟨run, ref⟩ := pair
    obtain ⟨dir, new, _, arrived, rooted⟩ := loadEntry_arrives first
    obtain ⟨t, found, _⟩ := arrived.found
    simp only [found, loadSelectedPlatformTargetPackage]
    split
    · exact ⟨_, rfl⟩
    · obtain ⟨result, second⟩ := loadPackageRecursive_ends input.depth run (input.platformDir t.dirPath)
        arrived.consistent rooted (missing_le_length run)
      rw [second]
      cases result with
      | error e => exact ⟨_, rfl⟩
      | ok pair => exact ⟨_, rfl⟩

/-! ### What a load that succeeds leads to -/

namespace Completed

variable {run : LoadRun}

theorem loaded_of_mem (completed : input.Completed run) {pkg : Package} (member : pkg ∈ run.loader.packages) :
    input.Loaded run.loader pkg := by
  obtain ⟨run', consistent, packages, block, _⟩ := completed.consistent
  have keeps : Keeps run'.loader run.loader := by
    refine ⟨Nat.le_of_eq block, ?_⟩
    intro i t found _
    rw [← packages]
    exact found
  exact (consistent.loaded pkg (packages ▸ member) (completed.loaded pkg member).1).keeps keeps

/-- The table has the packages of the directories that the load comes to. -/
theorem mem_dirs_iff (completed : input.Completed run) {dir : List UInt8} :
    dir ∈ run.loader.packages.map Package.dirPath ↔ input.Reached dir := by
  constructor
  · intro member
    obtain ⟨pkg, inTable, rfl⟩ := List.mem_map.mp member
    exact (completed.loaded pkg inTable).2
  · rintro ⟨root, isRoot, path⟩
    induction path with
    | refl => exact completed.roots root isRoot
    | tail _ edge ih =>
      obtain ⟨pkg, inTable, rfl⟩ := List.mem_map.mp ih
      have loaded := completed.loaded_of_mem inTable
      obtain ⟨imp, member, leads⟩ := loaded.import_of_edge edge
      obtain ⟨ref, t, _, found, _, same, _⟩ := loaded.targets imp member
      rw [leads] at same
      rw [Option.some.inj same]
      exact List.mem_map_of_mem (List.mem_of_getElem? found)

theorem nodup (completed : input.Completed run) : (run.loader.packages.map Package.dirPath).Nodup := by
  obtain ⟨run', consistent, packages, _⟩ := completed.consistent
  exact packages ▸ consistent.nodup

theorem acyclic (completed : input.Completed run) {dir : List UInt8} (reached : input.Reached dir) :
    ¬TransGen input.Imports dir dir := by
  obtain ⟨pkg, inTable, rfl⟩ := List.mem_map.mp (completed.mem_dirs_iff.mpr reached)
  intro circle
  exact not_transGen_self_of_acc (completed.loaded_of_mem inTable).acyclic (transGen_swap.mpr circle)

theorem once (completed : input.Completed run) {dir : List UInt8} (reached : input.Reached dir) :
    (run.loader.packages.map Package.dirPath).count dir = 1 ∧ run.read.count dir = 1 ∧ run.validated.count dir = 1 := by
  have one := List.count_eq_one_of_mem completed.nodup (completed.mem_dirs_iff.mpr reached)
  obtain ⟨run', consistent, packages, _, read, validated⟩ := completed.consistent
  have all : run.loader.packages.filter (·.loadState = .loaded) = run.loader.packages :=
    List.filter_eq_self.mpr fun pkg member => decide_eq_true (completed.loaded pkg member).1
  have perm := consistent.validated
  rw [packages, all, validated] at perm
  have same := consistent.read
  rw [packages, read] at same
  exact ⟨one, same ▸ one, perm.count_eq dir ▸ one⟩

theorem fewPackages_iff (completed : input.Completed run) : input.FewPackages ↔ run.loader.packages.length ≤ 256 := by
  constructor
  · intro few
    have bound := few _ completed.nodup fun dir member => completed.mem_dirs_iff.mp member
    rwa [List.length_map] at bound
  · intro bound dirs nodup reached
    have subset : dirs ⊆ run.loader.packages.map Package.dirPath := fun dir member =>
      completed.mem_dirs_iff.mpr (reached dir member)
    have fewer := (nodup.subperm subset).length_le
    rw [List.length_map] at fewer
    omega

theorem sized (completed : input.Completed run) :
    run.loader.packages.length ≤ 256 ∧ run.loader.block = 1 ∨ 256 < run.loader.packages.length ∧ 2 ≤ run.loader.block := by
  obtain ⟨run', consistent, packages, block, _⟩ := completed.consistent
  have sized := consistent.sized
  have nonempty := completed.nonempty
  rw [PackageLoader.Sized, packages, block] at sized
  omega

/-- While the table was not moved, every import leads to a package. -/
theorem sound (completed : input.Completed run) (few : run.loader.packages.length ≤ 256) : input.LoadSound run := by
  refine ⟨fun dir => completed.acyclic, fun dir => completed.once, ?_, ?_, ?_⟩
  · intro pkg member
    exact ⟨(completed.loaded pkg member).2, (completed.loaded pkg member).1⟩
  · intro pkg member
    exact (completed.loaded_of_mem member).source
  · intro pkg member imp inImports
    obtain ⟨ref, t, target, found, _, leads, low, high⟩ := (completed.loaded_of_mem member).targets imp inImports
    have block : ref.block = run.loader.block := by
      have sized := completed.sized
      omega
    refine ⟨ref, t, target, ?_, leads⟩
    rw [PackageLoader.find, if_pos block]
    exact found

/-- Of the first three packages one is neither that of the entry nor that of the platform. Some import leads to it, by a
reference from before the table was moved. -/
theorem not_sound (completed : input.Completed run) (many : 256 < run.loader.packages.length) : ¬input.LoadSound run := by
  intro sound
  obtain ⟨i, j, created⟩ := completed.created
  have other : ∃ k, k < 3 ∧ k ≠ i ∧ k ≠ j := by
    by_cases zero : 0 ≠ i ∧ 0 ≠ j
    · exact ⟨0, by omega, zero⟩
    · by_cases one : 1 ≠ i ∧ 1 ≠ j
      · exact ⟨1, by omega, one⟩
      · exact ⟨2, by omega, by omega, by omega⟩
  obtain ⟨k, small, notEntry, notPlatform⟩ := other
  rcases created k (by omega) with same | same | ⟨imp, member, ref, target, index, old⟩
  · exact notEntry same
  · exact notPlatform same
  · obtain ⟨pkg, inTable, inImports⟩ := List.mem_flatMap.mp member
    obtain ⟨ref', t, target', found, _⟩ := sound.targets pkg inTable imp inImports
    rw [target] at target'
    rw [← Option.some.inj target'] at found
    have block := old (by omega)
    have sized := completed.sized
    rw [PackageLoader.find, if_neg (by omega)] at found
    cases found

theorem sound_iff (completed : input.Completed run) : input.LoadSound run ↔ input.FewPackages := by
  rw [completed.fewPackages_iff]
  constructor
  · intro sound
    by_contra many
    exact completed.not_sound (by omega) sound
  · exact completed.sound

end Completed

end LoadInput

end HopHop
