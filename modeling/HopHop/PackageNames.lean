import Mathlib.Data.List.Nodup
import HopHop.PackageText

namespace HopHop

/-- What a combined source has of another package: the names declared there, each with the alias in front. -/
structure Surface where
  package : PackageRef
  alias_ : List UInt8
  names : List (List UInt8)
  deriving DecidableEq, Repr

namespace Package

def needsPrivateDeclSurface (pkg : Package) : Bool := pkg.pubDecls.any (·.kind = .FN)

def privateDeclIncludedInSurface (pkg : Package) (decl : SymbolDecl) : Bool :=
  pkg.name ≠ bytesOf "builtin" || (bytesOf "fmt_").isPrefixOf decl.name

/-- The names of the declarations that `AppendAliasedPubDecls` writes. -/
def aliasedDeclNames (pkg : Package) (includePrivateDecls : Bool) : List (List UInt8) :=
  pkg.pubDecls.map SymbolDecl.name ++
    if includePrivateDecls then (pkg.decls.filter pkg.privateDeclIncludedInSurface).map SymbolDecl.name else []

/-- The names of the declarations of a package, as its own source has them. -/
def ownNames (pkg : Package) : List (List UInt8) := (pkg.decls ++ pkg.pubDecls).map SymbolDecl.name

end Package

def unresolvedImport : PackageError := .message "internal error: unresolved import"

def hasEmittedImportSurface (emitted : List Surface) (package : PackageRef) (alias_ : List UInt8) : Bool :=
  emitted.any fun s => s.package = package ∧ s.alias_ = alias_

namespace PackageLoader

variable (loader : PackageLoader)

/-- The loop over the imports of an imported package: what its exports refer to. -/
def appendReferredSurfaces : List ImportRef → List Surface → Except PackageError (List Surface)
  | [], emitted => .ok emitted
  | imp :: imports, emitted =>
    match imp.target with
    | none => .error unresolvedImport
    | some package =>
      match loader.find package with
      | none => .error unresolvedImport
      | some subDep =>
        if hasEmittedImportSurface emitted package imp.alias_ then appendReferredSurfaces imports emitted
        else appendReferredSurfaces imports (emitted ++ [⟨package, imp.alias_, subDep.aliasedDeclNames false⟩])

def includesPrivateDecls (includePrivateImportDecls : Bool) (package : PackageRef) (dep : Package) : Bool :=
  if loader.selectedPlatformPkg = some package then false
  else includePrivateImportDecls && dep.needsPrivateDeclSurface

def appendImportedPackageSurface (includePrivateImportDecls : Bool) (imp : ImportRef) (emitted : List Surface) :
    Except PackageError (List Surface) :=
  match imp.target with
  | none => .error unresolvedImport
  | some package =>
    match loader.find package with
    | none => .error unresolvedImport
    | some dep =>
      if hasEmittedImportSurface emitted package imp.alias_ then .ok emitted
      else
        (loader.appendReferredSurfaces dep.imports emitted).map fun emitted =>
          let includePrivateDecls := loader.includesPrivateDecls includePrivateImportDecls package dep
          emitted ++ [⟨package, imp.alias_, dep.aliasedDeclNames includePrivateDecls⟩]

/-- The loop of `BuildCombinedPackageSource` over the imports. -/
def appendSurfaces (includePrivateImportDecls : Bool) : List ImportRef → List Surface → Except PackageError (List Surface)
  | [], emitted => .ok emitted
  | imp :: imports, emitted =>
    match loader.appendImportedPackageSurface includePrivateImportDecls imp emitted with
    | .error e => .error e
    | .ok emitted => appendSurfaces includePrivateImportDecls imports emitted

/-- What the combined source of a package has of the other packages. -/
def combinedSurfaces (pkg : Package) (includePrivateImportDecls : Bool) : Except PackageError (List Surface) :=
  loader.appendSurfaces includePrivateImportDecls pkg.imports []

/-- The package of an import exports the name. -/
def Exports (imp : ImportRef) (name : List UInt8) : Prop :=
  ∃ package dep decl, imp.target = some package ∧ loader.find package = some dep ∧ decl ∈ dep.pubDecls ∧ decl.name = name

/-- Nothing in the combined source of a package has the name of something else. The names of the exports are those that
both ways of making them agree on. -/
structure NamesApart (pkg : Package) (surfaces : List Surface) : Prop where
  single : ∀ imp ∈ pkg.imports, ∀ name, loader.Exports imp name → ∀ bind, imp.bindName = some bind →
    loader.selectorName pkg.imports bind name = some (buildPrefixedName imp.alias_ name)
  injective : ∀ imp ∈ pkg.imports, ∀ imp' ∈ pkg.imports, ∀ name name', loader.Exports imp name →
    loader.Exports imp' name' → buildPrefixedName imp.alias_ name = buildPrefixedName imp'.alias_ name' →
    imp = imp' ∧ name = name'
  own : ∀ imp ∈ pkg.imports, ∀ name, loader.Exports imp name → buildPrefixedName imp.alias_ name ∉ pkg.ownNames
  merged : ∀ s ∈ surfaces, ∀ t ∈ surfaces, ∀ name ∈ s.names, ∀ name' ∈ t.names,
    buildPrefixedName s.alias_ name = buildPrefixedName t.alias_ name' → s.package = t.package ∧ name = name'
  mergedOwn : ∀ s ∈ surfaces, ∀ name ∈ s.names, buildPrefixedName s.alias_ name ∉ pkg.ownNames

end PackageLoader

/-- The aliases and the names are such that a combined name can be cut in one way only: no alias goes on where a name of
another one starts with underscores, and no declaration is called like an alias, two underscores and a name under it.
An alias that two packages have keeps their names apart only if they share none. -/
structure Separate (pkg : Package) (surfaces : List Surface) : Prop where
  sameAlias : ∀ s ∈ surfaces, ∀ t ∈ surfaces, s.alias_ = t.alias_ → s.package ≠ t.package → ∀ name ∈ s.names, name ∉ t.names
  underscore : ∀ s ∈ surfaces, ∀ t ∈ surfaces, t.alias_ = s.alias_ ++ bytesOf "_" → ∀ name ∈ t.names,
    bytesOf "_" ++ name ∉ s.names
  separator : ∀ s ∈ surfaces, ∀ t ∈ surfaces, ∀ more, t.alias_ = s.alias_ ++ bytesOf "__" ++ more → ∀ name ∈ t.names,
    more ++ bytesOf "__" ++ name ∉ s.names
  own : ∀ s ∈ surfaces, ∀ name ∈ pkg.ownNames, ∀ rest, name = s.alias_ ++ bytesOf "__" ++ rest → rest ∉ s.names

/-! ### A combined name that can be cut in two ways -/

theorem bytes_separator : bytesOf "__" = List.replicate 2 Byte.underscore := rfl

/-- Two names are the same text: they are the same, or one of the two is cut further to the right. -/
theorem buildPrefixedName_cases {alias_ alias' name name' : List UInt8}
    (same : buildPrefixedName alias_ name = buildPrefixedName alias' name') :
    (alias_ = alias' ∧ name = name') ∨
      Joined.Shifted Byte.underscore 2 alias_ name alias' name' ∧ name ≠ name' ∨
      Joined.Shifted Byte.underscore 2 alias' name' alias_ name ∧ name ≠ name' := by
  by_cases equal : name = name'
  · rw [buildPrefixedName_eq, buildPrefixedName_eq, equal] at same
    exact Or.inl ⟨Joined.eq_of_joined_eq same, equal⟩
  · rw [buildPrefixedName_eq, buildPrefixedName_eq] at same
    rcases Joined.joined_eq_iff.mp same with shifted | shifted
    · exact Or.inr (Or.inl ⟨shifted, equal⟩)
    · exact Or.inr (Or.inr ⟨shifted, equal⟩)

theorem Separate.not_shifted {pkg : Package} {surfaces : List Surface} (separate : Separate pkg surfaces) {s t : Surface}
    (first : s ∈ surfaces) (second : t ∈ surfaces) {name name' : List UInt8} (inFirst : name ∈ s.names)
    (inSecond : name' ∈ t.names) (differ : name ≠ name') :
    ¬Joined.Shifted Byte.underscore 2 s.alias_ name t.alias_ name' := by
  rintro (⟨j, bound, longer, text⟩ | ⟨more, longer, text⟩)
  · have steps : j = 0 ∨ j = 1 ∨ j = 2 := by omega
    rcases steps with rfl | rfl | rfl
    · exact differ (by simpa using text)
    · exact separate.underscore s first t second longer name' inSecond (text ▸ inFirst)
    · refine separate.separator s first t second [] ?_ name' inSecond ?_
      · rw [longer, bytes_separator, List.append_nil]
      · rwa [List.nil_append, bytes_separator, ← text]
  · rw [text] at inFirst
    exact separate.separator s first t second more longer name' inSecond inFirst

theorem Separate.merged {pkg : Package} {surfaces : List Surface} (separate : Separate pkg surfaces) {s t : Surface}
    (first : s ∈ surfaces) (second : t ∈ surfaces) {name name' : List UInt8} (inFirst : name ∈ s.names)
    (inSecond : name' ∈ t.names) (same : buildPrefixedName s.alias_ name = buildPrefixedName t.alias_ name') :
    s.package = t.package ∧ name = name' := by
  rcases buildPrefixedName_cases same with ⟨alias_, equal⟩ | ⟨shifted, differ⟩ | ⟨shifted, differ⟩
  · refine ⟨?_, equal⟩
    by_contra other
    exact separate.sameAlias s first t second alias_ other name inFirst (equal ▸ inSecond)
  · exact absurd shifted (separate.not_shifted first second inFirst inSecond differ)
  · exact absurd shifted (separate.not_shifted second first inSecond inFirst (Ne.symm differ))

/-! ### The surfaces have every export -/

namespace PackageLoader

variable {loader : PackageLoader}

/-- Each surface has the exports of its package. -/
def Complete (loader : PackageLoader) (surfaces : List Surface) : Prop :=
  ∀ s ∈ surfaces, ∀ dep, loader.find s.package = some dep → ∀ decl ∈ dep.pubDecls, decl.name ∈ s.names

theorem complete_nil : loader.Complete [] := by
  intro s member
  cases member

theorem Complete.snoc {emitted : List Surface} (complete : loader.Complete emitted) {package : PackageRef} {dep : Package}
    (found : loader.find package = some dep) (alias_ : List UInt8) (includePrivateDecls : Bool) :
    loader.Complete (emitted ++ [⟨package, alias_, dep.aliasedDeclNames includePrivateDecls⟩]) := by
  intro s member dep' found' decl inside
  rcases List.mem_append.mp member with old | new
  · exact complete s old dep' found' decl inside
  · rw [List.mem_singleton.mp new] at found' ⊢
    rw [Option.some.inj (found'.symm.trans found)] at inside
    exact List.mem_append_left _ (List.mem_map_of_mem inside)

theorem appendReferredSurfaces_grows {imports : List ImportRef} {emitted result : List Surface}
    (complete : loader.Complete emitted) (appended : loader.appendReferredSurfaces imports emitted = .ok result) :
    loader.Complete result ∧ emitted ⊆ result := by
  induction imports generalizing emitted with
  | nil => exact Except.ok.inj appended ▸ ⟨complete, List.Subset.refl _⟩
  | cons imp imports ih =>
    rw [appendReferredSurfaces] at appended
    split at appended
    · cases appended
    · split at appended
      · cases appended
      · rename_i package _ subDep found
        split at appended
        · exact ih complete appended
        · obtain ⟨complete', grown⟩ := ih (complete.snoc found _ _) appended
          exact ⟨complete', List.Subset.trans (List.subset_append_left _ _) grown⟩

theorem appendImportedPackageSurface_grows {imp : ImportRef} {emitted result : List Surface} {includePrivate : Bool}
    (complete : loader.Complete emitted)
    (appended : loader.appendImportedPackageSurface includePrivate imp emitted = .ok result) :
    loader.Complete result ∧ emitted ⊆ result ∧
      ∀ package, imp.target = some package → ∃ s ∈ result, s.package = package ∧ s.alias_ = imp.alias_ := by
  rw [appendImportedPackageSurface] at appended
  cases target : imp.target with
  | none =>
    rw [target] at appended
    cases appended
  | some package =>
    simp only [target] at appended
    cases found : loader.find package with
    | none =>
      rw [found] at appended
      cases appended
    | some dep =>
      simp only [found] at appended
      by_cases emittedBefore : hasEmittedImportSurface emitted package imp.alias_ = true
      · rw [if_pos emittedBefore] at appended
        rw [← Except.ok.inj appended]
        refine ⟨complete, List.Subset.refl _, ?_⟩
        rintro package' ⟨⟩
        obtain ⟨s, member, here⟩ := List.any_eq_true.mp emittedBefore
        exact ⟨s, member, of_decide_eq_true here⟩
      · rw [if_neg emittedBefore] at appended
        cases referred : loader.appendReferredSurfaces dep.imports emitted with
        | error e =>
          rw [referred] at appended
          cases appended
        | ok emitted' =>
          rw [referred] at appended
          obtain ⟨complete', grown⟩ := appendReferredSurfaces_grows complete referred
          rw [← Except.ok.inj appended]
          refine ⟨complete'.snoc found _ _, List.Subset.trans grown (List.subset_append_left _ _), ?_⟩
          rintro package' ⟨⟩
          exact ⟨_, List.mem_append_right _ (List.mem_singleton_self _), rfl, rfl⟩

theorem appendSurfaces_grows {imports : List ImportRef} {emitted result : List Surface} {includePrivate : Bool}
    (complete : loader.Complete emitted) (appended : loader.appendSurfaces includePrivate imports emitted = .ok result) :
    loader.Complete result ∧ emitted ⊆ result ∧
      ∀ imp ∈ imports, ∀ package, imp.target = some package → ∃ s ∈ result, s.package = package ∧ s.alias_ = imp.alias_ := by
  induction imports generalizing emitted with
  | nil =>
    refine Except.ok.inj appended ▸ ⟨complete, List.Subset.refl _, ?_⟩
    intro imp member
    cases member
  | cons imp imports ih =>
    rw [appendSurfaces] at appended
    cases first : loader.appendImportedPackageSurface includePrivate imp emitted with
    | error e =>
      rw [first] at appended
      cases appended
    | ok emitted' =>
      rw [first] at appended
      obtain ⟨complete', grown, here⟩ := appendImportedPackageSurface_grows complete first
      obtain ⟨complete'', grown', later⟩ := ih complete' appended
      refine ⟨complete'', List.Subset.trans grown grown', ?_⟩
      intro other member package target
      rcases List.mem_cons.mp member with rfl | inRest
      · obtain ⟨s, inside, facts⟩ := here package target
        exact ⟨s, grown' inside, facts⟩
      · exact later other inRest package target

/-- Each export of an import is a name of a surface that has the alias of the import. -/
theorem combinedSurfaces_exports {pkg : Package} {surfaces : List Surface} {includePrivate : Bool}
    (combined : loader.combinedSurfaces pkg includePrivate = .ok surfaces) {imp : ImportRef} (member : imp ∈ pkg.imports)
    {name : List UInt8} (exported : loader.Exports imp name) :
    ∃ s ∈ surfaces, s.alias_ = imp.alias_ ∧ name ∈ s.names := by
  obtain ⟨package, dep, decl, target, found, inside, rfl⟩ := exported
  obtain ⟨complete, _, all⟩ := appendSurfaces_grows complete_nil combined
  obtain ⟨s, emitted, samePackage, sameAlias⟩ := all imp member package target
  exact ⟨s, emitted, sameAlias, complete s emitted dep (samePackage ▸ found) decl inside⟩

/-- A selector goes through the import that binds its first name. -/
theorem selectorName_eq {imports : List ImportRef} (apart : Package.BindNamesApart imports) {imp : ImportRef}
    (member : imp ∈ imports) {bind name : List UInt8} (bound : imp.bindName = some bind) (exported : loader.Exports imp name) :
    loader.selectorName imports bind name = some (buildPrefixedName imp.alias_ name) := by
  obtain ⟨package, dep, decl, target, found, inside, named⟩ := exported
  have selects : (imp.target.bind loader.find).any (·.hasExport name) = true := by
    rw [target, Option.bind_some, found, Option.any_some, Package.hasExport, List.any_eq_true]
    exact ⟨decl, inside, decide_eq_true named⟩
  have selected : loader.selectedImport imports bind name = some imp := by
    induction imports with
    | nil => cases member
    | cons first imports ih =>
      obtain ⟨others, apart'⟩ := List.pairwise_cons.mp apart
      rw [selectedImport, List.find?_cons]
      rcases List.mem_cons.mp member with rfl | inRest
      · simp only [bound, selects, and_self, decide_true]
      · have differs : first.bindName ≠ some bind := by
          intro same
          rcases others imp inRest with none | other
          · rw [none] at same
            cases same
          · exact other (bound.trans same.symm)
        simp only [differs, false_and, decide_false]
        exact ih apart' inRest
  rw [selectorName, selected]
  rfl

/-! ### Packages to try it on -/

def sampleImport (name : String) (index : Nat) : ImportRef :=
  ⟨bytesOf name, some (bytesOf name), bytesOf name, some ⟨0, index⟩⟩

def samplePackage (name : String) (imports : List ImportRef) (decls pubDecls : List String) : Package :=
  ⟨bytesOf name, bytesOf name, .loaded, imports, [], decls.map fun decl => ⟨.FN, bytesOf decl⟩,
    pubDecls.map fun decl => ⟨.FN, bytesOf decl⟩⟩

def sampleLoader (packages : List Package) : PackageLoader :=
  ⟨bytesOf "/src", packages, 256, 0, none, bytesOf "cli"⟩

/-- A package that imports two others, neither of whose aliases goes on after the other. -/
def plainPackage : Package := samplePackage "app" [sampleImport "io" 1, sampleImport "os" 2] ["go"] []

def plainLoader : PackageLoader :=
  sampleLoader [plainPackage, samplePackage "io" [] [] ["open_file"], samplePackage "os" [] [] ["exit"]]

/-- A package that imports `a` and `a__b`. -/
def nestedAliasesPackage : Package := samplePackage "app" [sampleImport "a" 1, sampleImport "a__b" 2] ["main"] []

def nestedAliasesLoader : PackageLoader :=
  sampleLoader [nestedAliasesPackage, samplePackage "a" [] [] ["b__c"], samplePackage "x" [] [] ["c"]]

end PackageLoader

end HopHop
