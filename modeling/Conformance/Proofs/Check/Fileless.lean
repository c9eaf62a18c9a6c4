import Conformance.Proofs.Check.Exposed
import Conformance.Proofs.FileSystem.DirsOnly

namespace Conformance

open Path FileSystem

structure FileSystem.Bare (files : FileSystem) (root : Path) : Prop where
  nonempty : root.raw ≠ ""
  fileless : ∀ p, ExposedDir root p → files.Fileless p

namespace FileSystem.Bare

theorem of_dirsOnly {files : FileSystem} {root : Path} {tree : Node} (leads : files.node? root = some tree)
    (wellFormed : tree.WellFormed) (only : tree.DirsOnly) : files.Bare root where
  nonempty := by
    obtain ⟨_, nonempty, _⟩ := reach_of_node? leads
    exact nonempty
  fileless := by
    rintro _ ⟨names, rfl, each⟩
    exact fileless_below leads wellFormed only fun n member => (each n member).1

variable {files : FileSystem} {root : Path} (bare : files.Bare root)

include bare

theorem collectFiles_eq_nil {start : Path} (below : ExposedDir root start) (rules : WalkRules) (accepts : String → Bool) :
    files.collectFiles rules accepts start = [] :=
  (bare.fileless start below).collectFiles_eq_nil rules accepts

theorem fileless_join {text : String} (names : List String) (spelled : text = "/".intercalate names)
    (visible : names ≠ []) (each : ∀ n ∈ names, IsName n ∧ n ∉ alwaysSkipped) : files.Fileless (root / ⟨text⟩) :=
  bare.fileless _ ((ExposedDir.self root).join bare.nonempty names spelled visible each)

theorem layerSources_eq_nil : Repository.layerSources ⟨files, .ofRoot root⟩ Check.Placement.scannedLayers = [] := by
  refine List.flatMap_eq_nil_iff.mpr fun layer member => ?_
  have each : ∀ l ∈ Check.Placement.scannedLayers, IsName l ∧ l ∉ alwaysSkipped := by decide
  exact bare.collectFiles_eq_nil
    (exposedDir_layer bare.nonempty [layer] (by simp) (by simp) (by simpa using each layer member)) _ _

theorem testsInside_eq_nil {names : List String} (places : List (List String))
    (spelled : names = places.map ("/".intercalate ·))
    (proper : ∀ place ∈ places, place ≠ [] ∧ ∀ n ∈ place, IsName n ∧ n ∉ alwaysSkipped) :
    Repository.testsInside ⟨files, .ofRoot root⟩ (names.map (Layout.ofRoot root).layer) = [] := by
  subst spelled
  simp only [Repository.testsInside, List.flatMap_eq_nil_iff, List.forall_mem_map]
  intro place member
  obtain ⟨visible, each⟩ := proper place member
  exact bare.collectFiles_eq_nil (exposedDir_layer bare.nonempty place rfl visible each) _ _

theorem documents_eq_nil : Check.References.documents ⟨files, .ofRoot root⟩ = [] := by
  rw [Check.References.documents_eq, List.flatMap_eq_nil_iff.mpr, List.filter_nil]
  rintro ⟨place, isTree⟩ listed
  have each : ∀ start ∈ Check.References.documentStarts, start.1 ≠ [] ∧ ∀ n ∈ start.1, IsName n ∧ n ∉ alwaysSkipped := by
    decide
  obtain ⟨visible, proper⟩ := each _ listed
  have start : files.Fileless ((Layout.ofRoot root).root / ⟨"/".intercalate place⟩) :=
    bare.fileless_join place rfl visible proper
  cases isTree with
  | true => exact start.collectFiles_eq_nil { skipped := alwaysSkipped } (Text.endsWith ·.toList ".md")
  | false => simp [Check.References.documentsFrom, start.isFile_eq_false]

end FileSystem.Bare

namespace Check

variable {files : FileSystem} {root : Path}

section Bare

variable (bare : files.Bare root)

include bare

/-- A check that looks at one file after the other finds no file to look at. -/
theorem paths_eq_nil {scan : Scan} (listed : scan ∈ scans) : scan.paths ⟨files, .ofRoot root⟩ = [] := by
  have functions := exposedDir_functions bare.nonempty
  have handlers := exposedDir_handlers bare.nonempty
  simp only [scans, List.mem_cons, List.not_mem_nil, or_false] at listed
  rcases listed with rfl | rfl | rfl | rfl | rfl | rfl | rfl | rfl | rfl | rfl | rfl | rfl | rfl | rfl
  all_goals dsimp only [layeringScan, validationScan, consoleScan, networkScan, typeScan, schemaScan, testScan, factoryScan,
    responseScan, layerTestScan, featureScan, mapScan, linkScan]
  · exact List.filter_eq_nil_iff.mpr (by simp [sourceFiles, bare.collectFiles_eq_nil functions])
  · exact bare.collectFiles_eq_nil handlers _ _
  · exact bare.collectFiles_eq_nil functions _ _
  · exact List.filter_eq_nil_iff.mpr (by simp [swiftFiles, bare.collectFiles_eq_nil (exposedDir_app bare.nonempty)])
  · exact bare.layerSources_eq_nil
  · exact bare.layerSources_eq_nil
  · exact bare.collectFiles_eq_nil (.self root) _ _
  · exact bare.collectFiles_eq_nil (.self root) _ _
  · exact bare.testsInside_eq_nil [["handlers"], ["services"], ["repositories"]] (by decide) (by decide)
  · exact bare.testsInside_eq_nil [["handlers"], ["services"], ["repositories"], ["__tests__", "integration"]]
      (by decide) (by decide)
  · exact bare.collectFiles_eq_nil (.self root) _ _
  · exact bare.collectFiles_eq_nil handlers _ _
  · exact bare.collectFiles_eq_nil (exposedDir_architecture bare.nonempty) .shallow (Text.endsWith ·.toList ".md")
  · exact bare.documents_eq_nil

theorem find_of_scan {scan : Scan} (listed : scan ∈ scans) : scan.check.find ⟨files, .ofRoot root⟩ = .ok [] := by
  rw [scan.find_eq, paths_eq_nil bare listed, List.flatMap_nil]

theorem Placement.repeatedTypes_of_bare : repeatedTypes ⟨files, .ofRoot root⟩ = [] := by
  have none : typeSources ⟨files, .ofRoot root⟩ = [] := bare.collectFiles_eq_nil (exposedDir_functions bare.nonempty) _ _
  simp [repeatedTypes, none, Repository.inspectFiles]

theorem App.inspectRule_of_bare {rule : Rule} (proper : IsName rule.declared ∧ rule.declared ∉ alwaysSkipped) :
    inspectRule ⟨files, .ofRoot root⟩ rule = [] := by
  have declared : ExposedDir root ((Layout.ofRoot root).app / ⟨rule.declared⟩) :=
    (exposedDir_app bare.nonempty).join bare.nonempty [rule.declared] (by simp) (by simp) (by simpa using proper)
  have unnamed : Source.AppType.declaredNames files rule.kinds ((Layout.ofRoot root).app / ⟨rule.declared⟩) = [] := by
    simp [Source.AppType.declaredNames, listFiles, bare.collectFiles_eq_nil declared]
  unfold inspectRule
  dsimp only
  rw [unnamed]
  split <;> rfl

theorem Debt.find_of_bare : find ⟨files, .ofRoot root⟩ = [] := by
  have report : files.Fileless ((Layout.ofRoot root).root / (qualityReport : Path)) :=
    bare.fileless_join ["docs", "quality-grades.md"] (by decide) (by decide) (by decide)
  simp [find, report.isFile_eq_false]

theorem References.agents_of_bare : agents ⟨files, .ofRoot root⟩ = [] := by
  have guide : files.Fileless ((Layout.ofRoot root).root / (agentsFile : Path)) :=
    bare.fileless_join ["AGENTS.md"] (by decide) (by decide) (by decide)
  simp [agents, guide.isFile_eq_false]

theorem Tidiness.strayPlans_of_bare : strayPlans ⟨files, .ofRoot root⟩ = [] := by
  have plans : ExposedDir root (Layout.ofRoot root).plans :=
    (ExposedDir.self root).join bare.nonempty ["thoughts", "shared", "plans"] (by decide) (by decide) (by decide)
  simp [strayPlans, listFiles, bare.collectFiles_eq_nil plans]

theorem Coverage.untestedRisks_of_bare {layer : String} (kind : String) (proper : IsName layer ∧ layer ∉ alwaysSkipped) :
    untestedRisks ⟨files, .ofRoot root⟩ layer kind = [] := by
  have dir : ExposedDir root ((Layout.ofRoot root).layer layer) :=
    exposedDir_layer bare.nonempty [layer] (by simp) (by simp) (by simpa using proper)
  simp [untestedRisks, listFiles, bare.collectFiles_eq_nil dir]

theorem Coverage.untestedRepositories_of_bare : untestedRepositories ⟨files, .ofRoot root⟩ = [] := by
  have dir : ExposedDir root ((Layout.ofRoot root).layer "repositories") :=
    exposedDir_layer bare.nonempty ["repositories"] (by decide) (by decide) (by decide)
  simp [untestedRepositories, listFiles, bare.collectFiles_eq_nil dir]

theorem Scripts.scripts_of_bare : scripts files root = [] := by
  have dirs : ∀ dir ∈ ["hooks", "scripts"], ExposedDir root (root / (dir : Path)) := by
    intro dir member
    have each : ∀ d ∈ ["hooks", "scripts"], IsName d ∧ d ∉ alwaysSkipped := by decide
    exact (ExposedDir.self root).join bare.nonempty [dir] (by simp) (by simp) (by simpa using each dir member)
  have marked : (["hooks", "scripts"].flatMap fun (dir : String) =>
      (files.collectFiles walkRules (fun name => !Text.endsWith name.toList ".sh") (root / dir)).filter
        (startsAsScript files)) = [] := by
    refine List.flatMap_eq_nil_iff.mpr fun dir member => ?_
    rw [bare.collectFiles_eq_nil (dirs dir member), List.filter_nil]
  unfold scripts
  dsimp only
  rw [marked, bare.collectFiles_eq_nil (.self root), List.append_nil, List.mergeSort_nil]

/-- Without the directory of the functions, the check of the endpoints asks for nothing; with it, it misses the
manifest. -/
theorem Endpoints.find_of_bare : ∃ missing, find ⟨files, .ofRoot root⟩ =
    .ok (if files.isDir (Layout.ofRoot root).functions then [missing] else []) := by
  have manifest : files.Fileless ((Layout.ofRoot root).functions / (Endpoint.Manifest.fileName : Path)) :=
    bare.fileless _ ((exposedDir_functions bare.nonempty).join bare.nonempty ["endpoint-manifest.ts"] (by decide)
      (by decide) (by decide))
  obtain ⟨cause, unread⟩ : ∃ cause, (Endpoint.Manifest.read files (.ofRoot root)).run = .ok (.error cause) := by
    obtain ⟨cause, unread⟩ := manifest.exists_read_eq_error
    unfold Endpoint.Manifest.read
    dsimp only
    rw [unread]
    split
    · exact ⟨_, rfl⟩
    · exact ⟨_, rfl⟩
  refine ⟨plain cause.message, ?_⟩
  unfold find
  dsimp only
  rw [unread]
  cases files.isDir (Layout.ofRoot root).functions <;> rfl

end Bare

section DirsOnly

variable {tree : Node} (leads : files.node? root = some tree) (wellFormed : tree.WellFormed) (only : tree.DirsOnly)
  (free : ∀ above name inner, tree.at? (above ++ [name]) = some (.dir inner) → Tidiness.isArchiveName name = true →
    ∃ dir ∈ above, dir ∈ alwaysSkipped ∨ dir.toList.head? = some '.')

include leads wellFormed only free

theorem Tidiness.archives_of_free : archives ⟨files, .ofRoot root⟩ = [] := by
  obtain ⟨_, nonempty, _⟩ := reach_of_node? leads
  obtain ⟨entries, rfl⟩ := only.exists_entries
  obtain ⟨_, _, _, met, _⟩ := walk_exact leads wellFormed { skipped := alwaysSkipped, skipsHidden := true } fun _ => true
  unfold archives
  refine List.map_eq_nil_iff.mpr (List.filter_eq_nil_iff.mpr fun dir member => ?_)
  obtain ⟨above, name, rfl, ⟨inner, held⟩, admitted, _⟩ := (met dir).mp member
  rw [fileName?_below nonempty (wellFormed.isName held), Option.any_some]
  intro isArchive
  obtain ⟨dir, inside, closed⟩ := free above name inner held isArchive
  obtain ⟨entered, visible⟩ := admitted dir (by simp [inside])
  exact closed.elim entered (visible rfl)

theorem find_of_dirsOnly {check : Check} (registered : check ∈ registry) (other : check ≠ endpoints) :
    check.find ⟨files, .ofRoot root⟩ = .ok [] := by
  have bare := Bare.of_dirsOnly leads wellFormed only
  have scanned : ∀ scan ∈ scans, scan.check.find ⟨files, .ofRoot root⟩ = .ok [] := fun _ => find_of_scan bare
  simp only [scans, List.forall_mem_cons] at scanned
  obtain ⟨layers, validated, printed, network, typed, schemas, skipped, focused, factories, responses, bodies,
    features, mapped, linked, -⟩ := scanned
  simp only [registry, List.mem_cons, List.not_mem_nil, or_false] at registered
  rcases registered with rfl | rfl | rfl | rfl | rfl | rfl | rfl | rfl | rfl | rfl | rfl | rfl | rfl | rfl | rfl |
    rfl | rfl | rfl | rfl | rfl | rfl | rfl | rfl | rfl
  · exact layers
  · exact validated
  · exact congrArg Except.ok (Placement.repeatedTypes_of_bare bare)
  · exact absurd rfl other
  · have proper : ∀ rule ∈ App.rules, IsName rule.declared ∧ rule.declared ∉ alwaysSkipped := by decide
    exact congrArg Except.ok (List.flatMap_eq_nil_iff.mpr fun rule member =>
      App.inspectRule_of_bare bare (proper rule member))
  · exact mapped
  · exact congrArg Except.ok (Debt.find_of_bare bare)
  · exact congrArg Except.ok (References.agents_of_bare bare)
  · exact features
  · exact congrArg Except.ok (Tidiness.strayPlans_of_bare bare)
  · exact printed
  · exact network
  · exact typed
  · exact schemas
  · exact skipped
  · refine congrArg Except.ok (List.append_eq_nil_iff.mpr ⟨?_, ?_⟩)
    · exact Coverage.untestedRisks_of_bare bare "handler" (by decide)
    · exact Coverage.untestedRisks_of_bare bare "service" (by decide)
  · exact factories
  · exact responses
  · exact focused
  · exact bodies
  · exact congrArg Except.ok (Coverage.untestedRepositories_of_bare bare)
  · exact linked
  · exact congrArg Except.ok (Tidiness.archives_of_free leads wellFormed only free)
  · refine congrArg Except.ok ?_
    change Repository.inspectFiles _ (Scripts.scripts files root) _ = []
    rw [Scripts.scripts_of_bare bare]
    rfl

/-- In a repository of nothing but directories, none of them an archive outside the skipped and hidden ones,
every check passes if the functions have no directory. If they have one, the check of the endpoints finds one
violation and every other check passes. -/
theorem run_of_dirsOnly :
    (files.isDir (Layout.ofRoot root).functions = false →
      ∀ check ∈ registry, (run ⟨files, .ofRoot root⟩ check).passed = true) ∧
    (files.isDir (Layout.ofRoot root).functions = true →
      (∃ missing, run ⟨files, .ofRoot root⟩ endpoints = ⟨endpoints.name, false, [missing]⟩) ∧
      ∀ check ∈ registry, check ≠ endpoints → (run ⟨files, .ofRoot root⟩ check).passed = true) := by
  obtain ⟨missing, found⟩ : ∃ missing, endpoints.find ⟨files, .ofRoot root⟩ =
      .ok (if files.isDir (Layout.ofRoot root).functions then [missing] else []) :=
    Endpoints.find_of_bare (.of_dirsOnly leads wellFormed only)
  have others : ∀ check ∈ registry, check ≠ endpoints → (run ⟨files, .ofRoot root⟩ check).passed = true := by
    intro check registered other
    rw [run, find_of_dirsOnly leads wellFormed only free registered other]
    rfl
  refine ⟨fun absent check registered => ?_, fun there => ⟨⟨missing.render, ?_⟩, others⟩⟩
  · by_cases own : check = endpoints
    · rw [absent] at found
      rw [own, run, found]
      rfl
    · exact others check registered own
  · rw [there] at found
    rw [run, found]
    rfl

end DirsOnly

/-- Directories that are called like the files that checks look for, and a hidden archive. -/
def mockEntries : List (String × Node) :=
  [(".git", .dir [("archive", .dir [])]), ("AGENTS.md", .dir []), ("docs", .dir [("quality-grades.md", .dir [])]),
    ("packages", .dir [("functions", .dir [("src", .dir [("endpoint-manifest.ts", .dir [])])])])]

theorem mockEntries_wellFormed : (Node.dir mockEntries).WellFormed := by
  decide

theorem mockEntries_dirsOnly : (Node.dir mockEntries).DirsOnly := by
  have empty : (Node.dir []).DirsOnly := .dir (by simp)
  have single {name : String} {node : Node} (inner : node.DirsOnly) : (Node.dir [(name, node)]).DirsOnly :=
    .dir (by simpa using inner)
  refine .dir ?_
  simp only [mockEntries, List.forall_mem_cons]
  exact ⟨single empty, empty, single empty, single (single (single empty)), by simp⟩

theorem mockEntries_free : ∀ above name inner, (Node.dir mockEntries).at? (above ++ [name]) = some (.dir inner) →
    Tidiness.isArchiveName name = true → ∃ dir ∈ above, dir ∈ alwaysSkipped ∨ dir.toList.head? = some '.' := by
  intro above name inner held isArchive
  have met : ⟨above, name, true⟩ ∈ placesIn {} mockEntries :=
    (mem_placesIn_dir mockEntries_wellFormed).mpr ⟨⟨inner, held⟩, by simp [WalkRules.enters], .inr rfl⟩
  have each : ∀ p ∈ placesIn {} mockEntries, Tidiness.isArchiveName p.name = true →
      ∃ dir ∈ p.above, dir ∈ alwaysSkipped ∨ dir.toList.head? = some '.' := by
    decide +kernel
  exact each _ met isArchive

theorem mockEntries_run :
    let repo : Repository := ⟨⟨.dir [("repo", .dir mockEntries)], []⟩, .ofRoot "/repo"⟩
    (∃ missing, run repo endpoints = ⟨endpoints.name, false, [missing]⟩) ∧
      ∀ check ∈ registry, check ≠ endpoints → (run repo check).passed = true := by
  intro repo
  have leads : repo.files.node? "/repo" = some (.dir mockEntries) := by rfl
  exact (run_of_dirsOnly leads mockEntries_wellFormed mockEntries_dirsOnly mockEntries_free).2 (by decide +kernel)

end Check

end Conformance
