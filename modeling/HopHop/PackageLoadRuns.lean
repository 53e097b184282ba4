import HopHop.PackageLoadSound

namespace HopHop

open Relation

namespace LoadInput

variable {input : LoadInput}

/-! ### A load comes to an end -/

/-- The directories that have no package in the table. -/
def missing (input : LoadInput) (run : LoadRun) : Nat :=
  input.fs.dirs.countP fun dir => dir ∉ run.loader.packages.map Package.dirPath

theorem countP_lt {α : Type*} {p q : α → Bool} {l : List α} (fewer : ∀ x ∈ l, p x = true → q x = true) {x : α} (member : x ∈ l)
    (inSecond : q x = true) (notFirst : ¬p x = true) : l.countP p < l.countP q := by
  induction l with
  | nil => cases member
  | cons y l ih =>
    have rest : l.countP p ≤ l.countP q :=
      List.countP_mono_left fun z inRest => fewer z (List.mem_cons_of_mem _ inRest)
    rw [List.countP_cons, List.countP_cons]
    rcases List.mem_cons.mp member with rfl | inRest
    · rw [if_neg notFirst, if_pos inSecond]
      omega
    · have less := ih (fun z inRest => fewer z (List.mem_cons_of_mem _ inRest)) inRest
      by_cases here : p y = true
      · rw [if_pos here, if_pos (fewer y (List.mem_cons_self ..) here)]
        omega
      · rw [if_neg here]
        omega

variable {run run' : LoadRun}

theorem missing_le (subset : run.loader.packages.map Package.dirPath ⊆ run'.loader.packages.map Package.dirPath) :
    input.missing run' ≤ input.missing run := by
  refine List.countP_mono_left fun dir _ absent => ?_
  have absent' := of_decide_eq_true absent
  exact decide_eq_true fun present => absent' (subset present)

theorem missing_lt (subset : run.loader.packages.map Package.dirPath ⊆ run'.loader.packages.map Package.dirPath)
    {dir : List UInt8} (known : dir ∈ input.fs.dirs) (fresh : dir ∉ run.loader.packages.map Package.dirPath)
    (added : dir ∈ run'.loader.packages.map Package.dirPath) : input.missing run' < input.missing run := by
  refine countP_lt (fun other _ absent => ?_) known (decide_eq_true fresh) (by simpa using added)
  have absent' := of_decide_eq_true absent
  exact decide_eq_true fun present => absent' (subset present)

theorem missing_le_length (run : LoadRun) : input.missing run < input.depth := by
  have bound := @List.countP_le_length _ (fun dir => decide (dir ∉ run.loader.packages.map Package.dirPath)) input.fs.dirs
  rw [missing, depth]
  omega

/-- The function comes to an end where fewer directories are missing. -/
def Ends (input : LoadInput) (load : LoadRun → List UInt8 → LoadResult (LoadRun × PackageRef)) (bound : Nat) : Prop :=
  ∀ run path, input.Consistent run → input.Rooted run → input.missing run < bound → ∃ result, load run path = some result

variable {load : LoadRun → List UInt8 → LoadResult (LoadRun × PackageRef)} {bound : Nat} {before after : List Package}
  {cur : Package} {done rest : List ImportRef} {ref : PackageRef} {dir : List UInt8}

theorem Frame.ends (loads : input.Loads load) (ends : input.Ends load bound)
    (frame : input.Frame run before after cur done rest) (few : input.missing run < bound) :
    ∃ result, resolveImports input.fs load before.length cur.dirPath done.length rest run = some result := by
  induction rest generalizing run after cur done with
  | nil => exact ⟨_, rfl⟩
  | cons imp rest ih =>
    have direct : run.loader.redirect imp.path = none := by rw [PackageLoader.redirect, frame.consistent.selected]
    simp only [resolveImports, direct]
    obtain ⟨result, loaded⟩ :=
      ends run (input.fs.resolveImportDir run.loader.rootDir cur.dirPath imp.path) frame.consistent frame.rooted few
    cases result with
    | error e =>
      rw [loaded]
      exact ⟨_, rfl⟩
    | ok pair =>
      obtain ⟨next, ref⟩ := pair
      obtain ⟨dir, new, leads, arrived⟩ := loads run _ next ref frame.consistent frame.rooted loaded
      rw [frame.consistent.rootDir] at leads
      have frame' := frame.step leads arrived
      have grows : input.missing (next.setTarget before.length done.length ref) ≤ input.missing run := by
        refine missing_le ?_
        rw [frame'.packages, frame.packages]
        exact dirs_subset_insert (show (cur.setTarget done.length ref).dirPath = cur.dirPath from rfl) new
      have index : done.length + 1 = (done ++ [{ imp with target := some ref }]).length := by simp
      simp only [loaded, index]
      have ended := ih frame' (Nat.lt_of_le_of_lt grows few)
      exact ended

theorem imports_end (ref : PackageRef) (loads : input.Loads load) (ends : input.Ends load bound) (consistent : input.Consistent run)
    (rooted : input.Rooted run) (packages : run.loader.packages = before ++ [cur]) (state : cur.loadState = .loading)
    (index : ref.index = before.length)
    (source : ∀ pkg₀, cur.ensureImplicitBuiltinImport = .ok pkg₀ → input.packageAt cur.dirPath = .ok pkg₀)
    (few : input.missing run < bound) :
    ∃ result, resolvePackageImportsAndSelectors input.fs input.checks load ref run = some result := by
  have here : run.loader.packages[ref.index]? = some cur := by
    rw [index, packages, List.getElem?_append_right (Nat.le_refl _), Nat.sub_self, List.getElem?_cons_zero]
  rw [resolvePackageImportsAndSelectors, PackageLoader.findPackageIndex, here]
  by_cases inTable : ref.block = run.loader.block ∧ ref.index < run.loader.packages.length
  · rw [if_pos inTable]
    simp only [index]
    cases ensured : cur.ensureImplicitBuiltinImport with
    | error e => exact ⟨_, rfl⟩
    | ok pkg =>
      have start := Frame.start consistent rooted packages state (source pkg ensured) ensured
      have grows : input.missing (run.update before.length pkg) ≤ input.missing run := by
        refine missing_le ?_
        rw [start.packages, packages]
        exact dirs_subset_insert (Package.ensureImplicitBuiltinImport_dirPath ensured).1 []
      obtain ⟨result, ran⟩ := start.ends loads ends (Nat.lt_of_le_of_lt grows few)
      rw [List.length_nil] at ran
      simp only [ran]
      cases result with
      | error e => exact ⟨_, rfl⟩
      | ok next => exact ⟨_, rfl⟩
  · rw [if_neg inTable]
    exact ⟨_, rfl⟩

theorem slot_ends (loads : input.Loads load) (ends : input.Ends load bound) (consistent : input.Consistent run)
    (fresh : dir ∉ run.loader.packages.map Package.dirPath)
    (rooted : ∀ dirPath name text, input.entry = .files dirPath name text →
      dirPath ∈ run.loader.packages.map Package.dirPath ∨ dirPath = dir)
    (few : ∀ run', run'.loader.packages.map Package.dirPath = run.loader.packages.map Package.dirPath ++ [dir] →
      input.missing run' < bound) :
    ∃ result, loadSlot input.fs input.checks load run dir (input.nameAt dir) (input.textAt dir) = some result := by
  rw [loadSlot]
  cases atDir : input.textAt dir with
  | error e => exact ⟨_, rfl⟩
  | ok text =>
    cases processed : text.processOn ⟨dir, input.nameAt dir, .loading, [], [], [], []⟩ with
    | error e =>
      simp only [processed]
      exact ⟨_, rfl⟩
    | ok pkg =>
      obtain ⟨dirPath, state⟩ := PackageText.processOn_dirPath processed
      cases own : input.checks.own pkg with
      | error e =>
        simp only [processed, own]
        exact ⟨_, rfl⟩
      | ok _ =>
        have packages := @PackageLoader.addPackageSlot_packages run.loader dir (input.nameAt dir) pkg
        have consistent' := consistent.addSlot (input.nameAt dir) fresh dirPath state
        have slot : (run.loader.addPackageSlot dir (input.nameAt dir)).2 =
            ⟨(run.loader.addPackageSlot dir (input.nameAt dir)).1.block, run.loader.packages.length⟩ := rfl
        simp only [processed, own, slot]
        obtain ⟨result, resolved⟩ :=
          imports_end ⟨(run.loader.addPackageSlot dir (input.nameAt dir)).1.block, run.loader.packages.length⟩ loads ends
            consistent' (rooted_slot dirPath rooted packages) packages state rfl
            (fun pkg₀ ensured => dirPath ▸ packageAt_of_text atDir processed ensured)
            (few _ (by rw [packages, List.map_append, List.map_singleton, dirPath]))
        rw [resolved]
        cases result with
        | error e => exact ⟨_, rfl⟩
        | ok next => exact ⟨_, rfl⟩

/-- With a depth for each directory that is missing the recursive load comes to an end. -/
theorem loadPackageRecursive_ends (fuel : Nat) :
    input.Ends (loadPackageRecursive input.fs input.checks fuel) fuel := by
  induction fuel with
  | zero =>
    intro run path _ _ few
    omega
  | succ fuel ih =>
    intro run path consistent rooted few
    rw [loadPackageRecursive]
    cases canonical : input.fs.canonicalizePath path with
    | none => exact ⟨_, rfl⟩
    | some dir =>
      cases search : run.loader.findPackageByDir dir with
      | some pair =>
        simp only [search]
        split <;> exact ⟨_, rfl⟩
      | none =>
        simp only [search]
        have fresh := findPackageByDir_none search
        rw [← (textAt_of_rooted rooted fresh).1, ← (textAt_of_rooted rooted fresh).2]
        refine slot_ends (loads_loadPackageRecursive fuel) ih consistent fresh
          (fun d n t entry => Or.inl (rooted d n t entry)) fun run' dirs => ?_
        have less : input.missing run' < input.missing run := by
          refine missing_lt ?_ (input.fs.canonical path dir canonical) fresh ?_
          · rw [dirs]
            exact List.subset_append_left _ _
          · rw [dirs]
            exact List.mem_append_right _ (List.mem_singleton_self dir)
        omega

end LoadInput

end HopHop
