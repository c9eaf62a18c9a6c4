import Conformance.Proofs.Check.Exposed

namespace Conformance

open Path FileSystem

structure AlikeBelow (root : Path) (files other : FileSystem) : Prop where
  shape : files.shape = other.shape
  read : ∀ p, Exposed root p → files.read p = other.read p

namespace Check

section Alike

variable {root : Path} {files other : FileSystem} (nonempty : root.raw ≠ "") (wellFormed : files.root.WellFormed)
  (alike : AlikeBelow root files other)

include nonempty wellFormed alike

theorem find_of_mem_scans {scan : Scan} (listed : scan ∈ scans) (outside : scan.check ≠ networkAccess) :
    scan.check.find ⟨files, .ofRoot root⟩ = scan.check.find ⟨other, .ofRoot root⟩ :=
  scan.find_congr alike.shape _ fun p member =>
    alike.read p (exposed_of_mem_paths nonempty wellFormed listed outside p member)

theorem Placement.repeatedTypes_congr :
    repeatedTypes ⟨files, .ofRoot root⟩ = repeatedTypes ⟨other, .ofRoot root⟩ := by
  have sources : typeSources ⟨files, .ofRoot root⟩ = typeSources ⟨other, .ofRoot root⟩ := by
    simp [typeSources, sourceFiles, collectFiles_of_shape alike.shape]
  have read : ∀ p ∈ typeSources ⟨other, .ofRoot root⟩, files.read p = other.read p := by
    intro p member
    rw [← sources] at member
    exact alike.read p (exposed_sourceFiles wellFormed (exposedDir_functions nonempty) _ p member)
  have sites : (typeSources ⟨other, .ofRoot root⟩).flatMap (sitesIn ⟨files, .ofRoot root⟩) =
      (typeSources ⟨other, .ofRoot root⟩).flatMap (sitesIn ⟨other, .ofRoot root⟩) := by
    refine List.flatMap_congr fun p member => ?_
    unfold sitesIn Repository.relative
    dsimp only
    rw [read p member]
  unfold repeatedTypes
  dsimp only
  rw [sources, sites, Repository.inspectFiles_congr read]

end Alike

namespace Debt

def evidencePlaces : List (List String) :=
  [["packages", "functions", "src", "services", "calendar.service.ts"],
    ["packages", "functions", "src", "services", "calendar.service.test.ts"],
    ["packages", "functions", "src", "middleware", "create-resource-router.ts"],
    ["packages", "functions", "src", "middleware", "create-resource-router.test.ts"],
    ["packages", "functions", "src", "test-utils", "index.ts"],
    ["packages", "functions", "src", "test-utils", "firestore-mock.ts"]]

def Evidence.IsPlaced : Evidence → Prop
  | file path _ => path ∈ evidencePlaces.map ("/".intercalate ·)
  | usage .. => True

instance : (e : Evidence) → Decidable e.IsPlaced
  | .file .. => inferInstanceAs (Decidable (_ ∈ _))
  | .usage .. => isTrue trivial

theorem isPlaced_of_mem_rules : ∀ rule ∈ rules, ∀ e ∈ rule.evidence, e.IsPlaced := by
  decide

theorem evidencePlaces_proper : ∀ place ∈ evidencePlaces, place ≠ [] ∧ ∀ n ∈ place, IsName n ∧ n ∉ alwaysSkipped := by
  decide

section Alike

variable {root : Path} {files other : FileSystem} (nonempty : root.raw ≠ "") (wellFormed : files.root.WellFormed)
  (alike : AlikeBelow root files other)

include nonempty wellFormed

theorem exposed_scope (s : Scope) : ∀ p ∈ s.files ⟨files, .ofRoot root⟩, Exposed root p := by
  cases s with
  | handlers => exact exposed_sourceFiles wellFormed (exposedDir_handlers nonempty) []
  | backendTests => exact exposed_testFiles wellFormed (exposedDir_functions nonempty)

include alike

theorem holds_congr {e : Evidence} (placed : e.IsPlaced) :
    e.holds ⟨files, .ofRoot root⟩ = e.holds ⟨other, .ofRoot root⟩ := by
  have readAnd : ∀ test p, Exposed root p →
      Evidence.readAnd ⟨files, .ofRoot root⟩ test p = Evidence.readAnd ⟨other, .ofRoot root⟩ test p := by
    intro test p inside
    unfold Evidence.readAnd
    dsimp only
    rw [alike.read p inside]
  cases e with
  | file path markers =>
    obtain ⟨place, listed, rfl⟩ := List.mem_map.mp placed
    obtain ⟨visible, each⟩ := evidencePlaces_proper place listed
    exact readAnd _ _ ((ExposedDir.self root).join nonempty place rfl visible each).exposed
  | usage scope pattern least what =>
    have same : scope.files ⟨files, .ofRoot root⟩ = scope.files ⟨other, .ofRoot root⟩ := by
      cases scope <;> simp [Scope.files, sourceFiles, testFiles, collectFiles_of_shape alike.shape]
    have count : (scope.files ⟨files, .ofRoot root⟩).countP (Evidence.readAnd ⟨files, .ofRoot root⟩ pattern.occursIn) =
        (scope.files ⟨files, .ofRoot root⟩).countP (Evidence.readAnd ⟨other, .ofRoot root⟩ pattern.occursIn) := by
      refine List.countP_congr fun p member => ?_
      rw [readAnd _ p (exposed_scope nonempty wellFormed scope p member)]
    unfold Evidence.holds
    dsimp only
    rw [count, same]

theorem find_congr : find ⟨files, .ofRoot root⟩ = find ⟨other, .ofRoot root⟩ := by
  have report : Exposed root ((Layout.ofRoot root).root / (qualityReport : Path)) :=
    ((ExposedDir.self root).join nonempty ["docs", "quality-grades.md"] (by decide) (by decide) (by decide)).exposed
  have done : ∀ rule ∈ rules, rule.evidence.all (Evidence.holds ⟨files, .ofRoot root⟩) =
      rule.evidence.all (Evidence.holds ⟨other, .ofRoot root⟩) := by
    intro rule member
    rw [Bool.eq_iff_iff, List.all_eq_true, List.all_eq_true]
    refine forall₂_congr fun e inside => ?_
    rw [holds_congr nonempty wellFormed alike (isPlaced_of_mem_rules rule member e inside)]
  unfold find
  dsimp only
  rw [isFile_of_shape alike.shape, alike.read _ report]
  split
  · rfl
  · split
    · rfl
    · refine List.filterMap_congr fun item _ => ?_
      cases named : rules.find? (·.label == item.2) with
      | none => simp only [Option.bind_eq_bind, Option.bind_none]
      | some rule =>
        have same := done rule (List.mem_of_find?_eq_some named)
        simp only [Option.bind_eq_bind, Option.bind_some, same]

end Alike

end Debt

namespace References

theorem agents_congr {root : Path} {files other : FileSystem} (nonempty : root.raw ≠ "")
    (alike : AlikeBelow root files other) : agents ⟨files, .ofRoot root⟩ = agents ⟨other, .ofRoot root⟩ := by
  have guide : Exposed root ((Layout.ofRoot root).root / (agentsFile : Path)) :=
    ((ExposedDir.self root).join nonempty ["AGENTS.md"] (by decide) (by decide) (by decide)).exposed
  have paths : agentsPaths ⟨files, .ofRoot root⟩ = agentsPaths ⟨other, .ofRoot root⟩ := by
    funext text
    unfold agentsPaths
    rw [isDangling_of_shape alike.shape]
  have links : guideLinks ⟨files, .ofRoot root⟩ = guideLinks ⟨other, .ofRoot root⟩ := by
    funext text
    unfold guideLinks guideViolation?
    rw [isDangling_of_shape alike.shape]
  unfold agents
  dsimp only
  rw [isFile_of_shape alike.shape, alike.read _ guide, paths, links]

end References

namespace Scripts

theorem scripts_congr {root : Path} {files other : FileSystem} (nonempty : root.raw ≠ "")
    (wellFormed : files.root.WellFormed) (alike : AlikeBelow root files other) :
    scripts files root = scripts other root ∧ ∀ p ∈ scripts files root, Exposed root p := by
  have walked : ∀ {start : Path} (accepts : String → Bool), ExposedDir root start →
      ∀ p ∈ files.collectFiles walkRules accepts start, Exposed root p :=
    fun accepts h => h.collectFiles wellFormed (.inr (WalkRules.skips_of_append _ rfl)) accepts
  have dirs : ∀ dir ∈ ["hooks", "scripts"], ExposedDir root (root / (dir : Path)) := by
    intro dir member
    have each : ∀ d ∈ ["hooks", "scripts"], IsName d ∧ d ∉ alwaysSkipped := by decide
    exact (ExposedDir.self root).join nonempty [dir] (by simp) (by simp) (by simpa using each dir member)
  have marked : ∀ dir ∈ ["hooks", "scripts"], ∀ accepts,
      (files.collectFiles walkRules accepts (root / (dir : Path))).filter (startsAsScript files) =
        (other.collectFiles walkRules accepts (root / (dir : Path))).filter (startsAsScript other) := by
    intro dir member accepts
    rw [← collectFiles_of_shape alike.shape]
    refine List.filter_congr fun p inside => ?_
    unfold startsAsScript
    rw [alike.read p (walked accepts (dirs dir member) p inside)]
  constructor
  · unfold scripts
    dsimp only
    rw [List.flatMap_congr fun dir member => marked dir member _, collectFiles_of_shape alike.shape]
  · intro p member
    unfold scripts at member
    rcases List.mem_append.mp (List.mem_mergeSort.mp member) with named | marked
    · exact walked _ (.self root) p named
    · obtain ⟨dir, listed, inside⟩ := List.mem_flatMap.mp marked
      exact walked _ (dirs dir listed) p (List.mem_of_mem_filter inside)

theorem found_congr {root : Path} {files other : FileSystem} (nonempty : root.raw ≠ "")
    (wellFormed : files.root.WellFormed) (alike : AlikeBelow root files other) :
    Repository.inspectFiles ⟨files, .ofRoot root⟩ (scripts files root) inspect =
      Repository.inspectFiles ⟨other, .ofRoot root⟩ (scripts other root) inspect := by
  obtain ⟨same, exposed⟩ := scripts_congr nonempty wellFormed alike
  rw [← same]
  exact Repository.inspectFiles_congr (fun p member => alike.read p (exposed p member)) _

end Scripts

namespace Coverage

variable {files other : FileSystem} (same : files.shape = other.shape) (layout : Layout)

include same

theorem untestedRepositories_congr : untestedRepositories ⟨files, layout⟩ = untestedRepositories ⟨other, layout⟩ := by
  simp only [untestedRepositories, listFiles_of_shape same, pathExists_of_shape same, Repository.relative]

theorem untestedRisks_congr : untestedRisks ⟨files, layout⟩ = untestedRisks ⟨other, layout⟩ := by
  have tested : isTested ⟨files, layout⟩ = isTested ⟨other, layout⟩ := by
    funext dir stem
    simp only [isTested, pathExists_of_shape same]
  funext layer kind
  unfold untestedRisks
  dsimp only
  rw [listFiles_of_shape same, tested]
  rfl

end Coverage

namespace Tidiness

variable {files other : FileSystem} (same : files.shape = other.shape) (layout : Layout)

include same

theorem strayPlans_congr : strayPlans ⟨files, layout⟩ = strayPlans ⟨other, layout⟩ := by
  simp only [strayPlans, listFiles_of_shape same, Repository.relative]

theorem archives_congr : archives ⟨files, layout⟩ = archives ⟨other, layout⟩ := by
  simp only [archives, collectDirs_of_shape same, Repository.relative]

end Tidiness

namespace Endpoints

open Endpoint

variable {root : Path} {files other : FileSystem} (nonempty : root.raw ≠ "") (alike : AlikeBelow root files other)

include nonempty alike

theorem manifest_congr : (Manifest.read files (.ofRoot root)).run = (Manifest.read other (.ofRoot root)).run := by
  have manifest : Exposed root ((Layout.ofRoot root).functions / (Manifest.fileName : Path)) :=
    ((exposedDir_functions nonempty).join nonempty ["endpoint-manifest.ts"] (by decide) (by decide) (by decide)).exposed
  unfold Manifest.read
  dsimp only
  rw [pathExists_of_shape alike.shape, alike.read _ manifest]

theorem hostingViolations_congr :
    hostingViolations ⟨files, .ofRoot root⟩ = hostingViolations ⟨other, .ofRoot root⟩ := by
  have configuration : Exposed root ((Layout.ofRoot root).root / (configurationName : Path)) :=
    ((ExposedDir.self root).join nonempty ["firebase.json"] (by decide) (by decide) (by decide)).exposed
  funext entries
  unfold hostingViolations
  dsimp only
  rw [pathExists_of_shape alike.shape, alike.read _ configuration]

theorem entryPointViolations_congr :
    entryPointViolations ⟨files, .ofRoot root⟩ = entryPointViolations ⟨other, .ofRoot root⟩ := by
  have entryPoint : Exposed root ((Layout.ofRoot root).functions / (entryPointName : Path)) :=
    ((exposedDir_functions nonempty).join nonempty ["index.ts"] (by decide) (by decide) (by decide)).exposed
  funext entries
  unfold entryPointViolations
  dsimp only
  rw [pathExists_of_shape alike.shape, alike.read _ entryPoint]

def handlerPath (root : Path) (e : Entry) : Path :=
  (Layout.ofRoot root).handlers / (s!"{e.handler}.ts" : Path)

/-- Beside exposed files, the check reads only the handler modules that the manifest names for routes. -/
theorem find_congr (modules : ∀ entries, (Manifest.read files (.ofRoot root)).run = .ok (.ok entries) → ∀ e ∈ entries,
    e.handler ≠ "" → e.route ≠ "" → files.read (handlerPath root e) = other.read (handlerPath root e)) :
    find ⟨files, .ofRoot root⟩ = find ⟨other, .ofRoot root⟩ := by
  have manifest := manifest_congr nonempty alike
  have each : ∀ entries, (Manifest.read files (.ofRoot root)).run = .ok (.ok entries) →
      ofEntries ⟨files, .ofRoot root⟩ entries = ofEntries ⟨other, .ofRoot root⟩ entries := by
    intro entries read
    have handlers : ∀ e ∈ entries.filter (·.handler ≠ ""),
        handlerViolations ⟨files, .ofRoot root⟩ e = handlerViolations ⟨other, .ofRoot root⟩ e := by
      intro e member
      obtain ⟨listed, handled⟩ := List.mem_filter.mp member
      unfold handlerViolations
      dsimp only
      rw [pathExists_of_shape alike.shape]
      by_cases free : e.route = ""
      · simp only [free, if_true]
      · have own := modules entries read e listed (of_decide_eq_true handled) free
        unfold handlerPath at own
        rw [own]
    unfold ofEntries
    dsimp only
    rw [hostingViolations_congr nonempty alike, entryPointViolations_congr nonempty alike,
      List.flatMap_congr handlers]
  unfold find
  dsimp only
  rw [isDir_of_shape alike.shape]
  split
  · rfl
  · cases result : (Manifest.read files (.ofRoot root)).run with
    | error fault =>
      rw [result] at manifest
      rw [← manifest]
      change Except.error fault = Except.error fault
      rfl
    | ok outcome =>
      rw [result] at manifest
      rw [← manifest]
      cases outcome with
      | error cause =>
        change Except.ok [plain cause.message] = Except.ok [plain cause.message]
        rfl
      | ok entries =>
        change Except.ok (ofEntries _ entries) = Except.ok (ofEntries _ entries)
        rw [each entries result]

end Endpoints

namespace App

def appPlace : List String :=
  ["ios", "BradOS", "BradOS"]

/-- The path is written as that of a Swift file below the directory of the application. -/
def IsSwift (root p : Path) : Prop :=
  ∃ names name, p = root.below (appPlace ++ names ++ [name]) ∧ Text.endsWith name.toList ".swift" = true

def IsDirName (name : String) : Prop :=
  IsName name ∧ Text.endsWith name.toList ".swift" = false

instance (name : String) : Decidable (IsDirName name) :=
  inferInstanceAs (Decidable (_ ∧ _))

theorem isDirName_appPlace : ∀ n ∈ appPlace, IsDirName n := by
  decide

section Alike

variable {root : Path} {files other : FileSystem} (nonempty : root.raw ≠ "") (wellFormed : files.root.WellFormed)

include nonempty in
theorem app_eq : (Layout.ofRoot root).app = root.below appPlace := by
  have spelled : "ios/BradOS/BradOS" = "/".intercalate appPlace := by decide
  have proper : ∀ n ∈ appPlace, IsName n := fun n member => (isDirName_appPlace n member).1
  rw [← join_intercalate nonempty (by decide) proper, ← spelled]
  rfl

include nonempty wellFormed in
theorem isSwift_of_mem_collectFiles {rules : WalkRules} (names : List String)
    (each : ∀ n ∈ appPlace ++ names, IsDirName n) :
    ∀ p ∈ files.collectFiles rules (Text.endsWith ·.toList ".swift") (root.below (appPlace ++ names)),
      IsSwift root p := by
  obtain ⟨list, collected, _, met⟩ := exists_names_collectFiles wellFormed rules (Text.endsWith ·.toList ".swift")
    (root.below (appPlace ++ names))
  intro p member
  rw [collected] at member
  obtain ⟨more, inside, rfl⟩ := List.mem_map.mp member
  obtain ⟨visible, _, walked⟩ := met more inside
  cases walked with
  | @below above name _ _ accepted =>
    refine ⟨names ++ above, name, ?_, accepted⟩
    rw [← below_append]
    simp
  | here accepted =>
    -- the start has the name of a directory
    have some : appPlace ++ names ≠ [] := by simp [appPlace]
    obtain ⟨above, last, cut⟩ := References.exists_concat some
    rw [cut] at each accepted
    rw [fileName?_below nonempty fun n inside => (each n inside).1, Option.getD_some, (each last (by simp)).2] at accepted
    cases accepted

variable (shape : files.shape = other.shape) (swift : ∀ p, IsSwift root p → files.read p = other.read p)

include nonempty wellFormed shape swift

theorem rawSessions_congr :
    networkAccess.find ⟨files, .ofRoot root⟩ = networkAccess.find ⟨other, .ofRoot root⟩ := by
  refine networkScan.find_congr shape (.ofRoot root) fun p member => swift p ?_
  have inside : p ∈ files.swiftFiles (Layout.ofRoot root).app := List.mem_of_mem_filter member
  rw [app_eq nonempty] at inside
  exact isSwift_of_mem_collectFiles nonempty wellFormed [] isDirName_appPlace p inside

theorem declaredNames_congr (kinds : List Source.AppType.Kind) {dir : String} (proper : IsDirName dir) :
    Source.AppType.declaredNames files kinds ((Layout.ofRoot root).app / (dir : Path)) =
      Source.AppType.declaredNames other kinds ((Layout.ofRoot root).app / (dir : Path)) := by
  unfold Source.AppType.declaredNames
  rw [listFiles_of_shape shape]
  refine congrArg sortedTexts (List.flatMap_congr fun p member => ?_)
  rw [← listFiles_of_shape shape, app_eq nonempty] at member
  rw [swift p (isSwift_of_mem_collectFiles nonempty wellFormed [dir] ?_ p member)]
  intro n inside
  rcases List.mem_append.mp inside with outer | own
  · exact isDirName_appPlace n outer
  · exact List.mem_singleton.mp own ▸ proper

theorem inspectRule_congr {rule : Rule} (scanned : IsDirName rule.scanned) (declared : IsDirName rule.declared) :
    inspectRule ⟨files, .ofRoot root⟩ rule = inspectRule ⟨other, .ofRoot root⟩ rule := by
  have found : files.swiftFiles = other.swiftFiles := by
    funext start
    simp only [swiftFiles, collectFiles_of_shape shape]
  have read : ∀ p ∈ files.swiftFiles ((Layout.ofRoot root).app / (rule.scanned : Path)),
      files.read p = other.read p := by
    intro p member
    rw [app_eq nonempty] at member
    refine swift p (isSwift_of_mem_collectFiles nonempty wellFormed [rule.scanned] ?_ p member)
    intro n inside
    rcases List.mem_append.mp inside with outer | own
    · exact isDirName_appPlace n outer
    · exact List.mem_singleton.mp own ▸ scanned
  unfold inspectRule
  dsimp only
  rw [isDir_of_shape shape, declaredNames_congr nonempty wellFormed shape swift _ declared,
    Repository.inspectFiles_congr read, found]

end Alike

end App

/-- What a check finds is seen from the exposed files, except that the checks of the application read
Swift files in all its directories and the check of the endpoints the modules that the manifest names. -/
theorem find_of_alikeBelow {root : Path} {files other : FileSystem} (nonempty : root.raw ≠ "")
    (wellFormed : files.root.WellFormed) (alike : AlikeBelow root files other) {check : Check}
    (registered : check ∈ registry)
    (swift : check = appLayers ∨ check = networkAccess → ∀ p, App.IsSwift root p → files.read p = other.read p)
    (modules : check = endpoints → ∀ entries, (Endpoint.Manifest.read files (.ofRoot root)).run = .ok (.ok entries) →
      ∀ e ∈ entries, e.handler ≠ "" → e.route ≠ "" →
        files.read (Endpoints.handlerPath root e) = other.read (Endpoints.handlerPath root e)) :
    check.find ⟨files, .ofRoot root⟩ = check.find ⟨other, .ofRoot root⟩ := by
  have scanned : ∀ scan ∈ scans, scan.check.id ≠ networkAccess.id →
      scan.check.find ⟨files, .ofRoot root⟩ = scan.check.find ⟨other, .ofRoot root⟩ := by
    intro scan listed outside
    exact find_of_mem_scans nonempty wellFormed alike listed fun same => outside (congrArg Check.id same)
  simp only [scans, List.forall_mem_cons] at scanned
  obtain ⟨layers, validated, printed, -, typed, schemas, skipped, focused, factories, responses, bodies, features,
    mapped, linked, -⟩ := scanned
  simp only [registry, List.mem_cons, List.not_mem_nil, or_false] at registered
  rcases registered with rfl | rfl | rfl | rfl | rfl | rfl | rfl | rfl | rfl | rfl | rfl | rfl | rfl | rfl | rfl |
    rfl | rfl | rfl | rfl | rfl | rfl | rfl | rfl | rfl
  · exact layers (by decide)
  · exact validated (by decide)
  · exact congrArg Except.ok (Placement.repeatedTypes_congr nonempty wellFormed alike)
  · exact Endpoints.find_congr nonempty alike (modules rfl)
  · refine congrArg Except.ok (List.flatMap_congr fun rule member => ?_)
    have named : ∀ rule ∈ App.rules, App.IsDirName rule.scanned ∧ App.IsDirName rule.declared := by decide
    obtain ⟨scanned, declared⟩ := named rule member
    exact App.inspectRule_congr nonempty wellFormed alike.shape (swift (.inl rfl)) scanned declared
  · exact mapped (by decide)
  · exact congrArg Except.ok (Debt.find_congr nonempty wellFormed alike)
  · exact congrArg Except.ok (References.agents_congr nonempty alike)
  · exact features (by decide)
  · exact congrArg Except.ok (Tidiness.strayPlans_congr alike.shape _)
  · exact printed (by decide)
  · exact App.rawSessions_congr nonempty wellFormed alike.shape (swift (.inr rfl))
  · exact typed (by decide)
  · exact schemas (by decide)
  · exact skipped (by decide)
  · exact congrArg Except.ok (by simp only [Coverage.untestedRisks_congr alike.shape])
  · exact factories (by decide)
  · exact responses (by decide)
  · exact focused (by decide)
  · exact bodies (by decide)
  · exact congrArg Except.ok (Coverage.untestedRepositories_congr alike.shape _)
  · exact linked (by decide)
  · exact congrArg Except.ok (Tidiness.archives_congr alike.shape _)
  · exact congrArg Except.ok (Scripts.found_congr nonempty wellFormed alike)

end Check

end Conformance
