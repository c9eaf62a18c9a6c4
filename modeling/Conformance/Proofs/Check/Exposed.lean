import Conformance.Check.Registry
import Conformance.Proofs.Check.Scan

namespace Conformance

open Path FileSystem

def ExposedDir (root p : Path) : Prop :=
  ∃ names, p = root.below names ∧ ∀ n ∈ names, IsName n ∧ n ∉ alwaysSkipped

def Exposed (root p : Path) : Prop :=
  ∃ names, p = root.below names ∧ (∀ n ∈ names, IsName n) ∧ ∀ dir ∈ names.dropLast, dir ∉ alwaysSkipped

namespace ExposedDir

theorem self (root : Path) : ExposedDir root root :=
  ⟨[], rfl, by simp⟩

variable {root p : Path}

theorem exposed (h : ExposedDir root p) : Exposed root p := by
  obtain ⟨names, same, each⟩ := h
  exact ⟨names, same, fun n member => (each n member).1, fun n member => (each n (List.dropLast_subset _ member)).2⟩

theorem join (nonempty : root.raw ≠ "") (h : ExposedDir root p) {text : String} (names : List String)
    (spelled : text = "/".intercalate names) (visible : names ≠ [])
    (each : ∀ n ∈ names, IsName n ∧ n ∉ alwaysSkipped) : ExposedDir root (p / ⟨text⟩) := by
  obtain ⟨above, rfl, outer⟩ := h
  have start : (root.below above).raw ≠ "" := raw_below_ne_empty nonempty fun n member => (outer n member).1
  refine ⟨above ++ names, ?_, fun n member => (List.mem_append.mp member).elim (outer n) (each n)⟩
  rw [spelled, join_intercalate start visible fun n member => (each n member).1, below_append]

/-- A walk collects only exposed files if it enters no skipped directory or does not go deeper. -/
theorem collectFiles {files : FileSystem} (wellFormed : files.root.WellFormed) (h : ExposedDir root p)
    {rules : WalkRules} (skips : rules.recursive = false ∨ ∀ dir, rules.enters dir = true → dir ∉ alwaysSkipped)
    (accepts : String → Bool) : ∀ q ∈ files.collectFiles rules accepts p, Exposed root q := by
  obtain ⟨above, rfl, outer⟩ := h
  obtain ⟨list, same, _, each⟩ := exists_names_collectFiles wellFormed rules accepts (root.below above)
  intro q member
  rw [same] at member
  obtain ⟨names, inside, rfl⟩ := List.mem_map.mp member
  obtain ⟨_, proper, walked⟩ := each names inside
  refine ⟨above ++ names, (below_append root above names).symm, fun n member => ?_, ?_⟩
  · exact (List.mem_append.mp member).elim (fun m => (outer n m).1) (proper n)
  · cases walked with
    | here _ => exact fun n member => (outer n (by simpa using List.dropLast_subset _ member)).2
    | @below between name entered deep _ =>
      intro dir member
      rw [← List.append_assoc, List.dropLast_concat] at member
      rcases List.mem_append.mp member with outside | inside
      · exact (outer dir outside).2
      · rcases skips with shallow | skips
        · rcases deep with none | recursive
          · simp [none] at inside
          · simp [shallow] at recursive
        · exact skips dir (entered dir inside)

end ExposedDir

theorem WalkRules.skips_of_append (more : List String) {rules : WalkRules} (skipped : rules.skipped = skipping more) :
    ∀ dir, rules.enters dir = true → dir ∉ alwaysSkipped := by
  intro dir entered member
  have listed : dir ∈ rules.skipped := by
    rw [skipped]
    exact List.mem_append_left _ member
  simp [enters, listed] at entered

section Dirs

variable {root : Path} (nonempty : root.raw ≠ "")

include nonempty

theorem exposedDir_functions : ExposedDir root (Layout.ofRoot root).functions :=
  (ExposedDir.self root).join nonempty ["packages", "functions", "src"] (by decide) (by decide) (by decide)

theorem exposedDir_layer {text : String} (names : List String) (spelled : text = "/".intercalate names)
    (visible : names ≠ []) (each : ∀ n ∈ names, IsName n ∧ n ∉ alwaysSkipped) :
    ExposedDir root ((Layout.ofRoot root).layer text) :=
  (exposedDir_functions nonempty).join nonempty names spelled visible each

theorem exposedDir_handlers : ExposedDir root (Layout.ofRoot root).handlers :=
  exposedDir_layer nonempty ["handlers"] (by decide) (by decide) (by decide)

theorem exposedDir_architecture : ExposedDir root (Layout.ofRoot root).architecture :=
  (ExposedDir.self root).join nonempty ["docs", "architecture"] (by decide) (by decide) (by decide)

theorem exposedDir_app : ExposedDir root (Layout.ofRoot root).app :=
  (ExposedDir.self root).join nonempty ["ios", "BradOS", "BradOS"] (by decide) (by decide) (by decide)

end Dirs

section Collected

variable {root start : Path} {files : FileSystem} (wellFormed : files.root.WellFormed) (h : ExposedDir root start)

include wellFormed h

theorem exposed_sourceFiles (more : List String) : ∀ p ∈ files.sourceFiles (skipping more) start, Exposed root p :=
  h.collectFiles wellFormed (.inr (WalkRules.skips_of_append _ rfl)) _

theorem exposed_testFiles : ∀ p ∈ files.testFiles start, Exposed root p :=
  h.collectFiles wellFormed (.inr (WalkRules.skips_of_append _ rfl)) _

theorem exposed_listFiles (accepts : String → Bool) : ∀ p ∈ files.listFiles accepts start, Exposed root p :=
  h.collectFiles wellFormed (.inl rfl) accepts

end Collected

namespace Check

section Scans

variable {root : Path} {files : FileSystem} (nonempty : root.raw ≠ "") (wellFormed : files.root.WellFormed)

include nonempty wellFormed

theorem exposed_layerSources : ∀ p ∈ Repository.layerSources ⟨files, .ofRoot root⟩ Placement.scannedLayers,
    Exposed root p := by
  intro p member
  obtain ⟨layer, listed, inside⟩ := List.mem_flatMap.mp member
  have each : ∀ l ∈ Placement.scannedLayers, IsName l ∧ l ∉ alwaysSkipped := by decide
  exact exposed_listFiles wellFormed
    (exposedDir_layer nonempty [layer] (by simp) (by simp) (by simpa using each layer listed)) _ p inside

theorem exposed_testsInside {names : List String} (places : List (List String))
    (spelled : names = places.map ("/".intercalate ·))
    (proper : ∀ place ∈ places, place ≠ [] ∧ ∀ n ∈ place, IsName n ∧ n ∉ alwaysSkipped) :
    ∀ p ∈ Repository.testsInside ⟨files, .ofRoot root⟩ (names.map (Layout.ofRoot root).layer), Exposed root p := by
  intro p member
  obtain ⟨dir, listed, inside⟩ := List.mem_flatMap.mp member
  subst spelled
  simp only [List.map_map, List.mem_map, Function.comp_apply] at listed
  obtain ⟨place, own, rfl⟩ := listed
  obtain ⟨visible, each⟩ := proper place own
  exact exposed_listFiles wellFormed (exposedDir_layer nonempty place rfl visible each) _ p inside

theorem exposed_documents : ∀ p ∈ References.documents ⟨files, .ofRoot root⟩, Exposed root p := by
  intro p member
  rw [References.documents_eq] at member
  obtain ⟨⟨place, isTree⟩, listed, inside⟩ := List.mem_flatMap.mp (List.mem_of_mem_filter member)
  have each : ∀ start ∈ References.documentStarts, start.1 ≠ [] ∧ ∀ n ∈ start.1, IsName n ∧ n ∉ alwaysSkipped := by
    decide
  obtain ⟨visible, proper⟩ := each _ listed
  have start : ExposedDir root (root / ⟨"/".intercalate place⟩) :=
    (ExposedDir.self root).join nonempty place rfl visible proper
  cases isTree with
  | true =>
    unfold References.documentsFrom markdownFiles at inside
    exact start.collectFiles wellFormed (.inr (WalkRules.skips_of_append [] rfl)) _ p inside
  | false =>
    obtain rfl := List.mem_singleton.mp (List.mem_of_mem_filter inside)
    exact start.exposed

/-- Only the scan of the application reads files that are not exposed. -/
theorem exposed_of_mem_paths {scan : Scan} (listed : scan ∈ scans) (outside : scan.check ≠ networkAccess) :
    ∀ p ∈ scan.paths ⟨files, .ofRoot root⟩, Exposed root p := by
  simp only [scans, List.mem_cons, List.not_mem_nil, or_false] at listed
  rcases listed with rfl | rfl | rfl | rfl | rfl | rfl | rfl | rfl | rfl | rfl | rfl | rfl | rfl | rfl
  all_goals dsimp only [layeringScan, validationScan, consoleScan, networkScan, typeScan, schemaScan, testScan, factoryScan,
    responseScan, layerTestScan, featureScan, mapScan, linkScan]
  · intro p member
    exact exposed_sourceFiles wellFormed (exposedDir_functions nonempty) _ p (List.mem_of_mem_filter member)
  · exact exposed_listFiles wellFormed (exposedDir_handlers nonempty) _
  · exact exposed_sourceFiles wellFormed (exposedDir_functions nonempty) _
  · exact absurd rfl outside
  · exact exposed_layerSources nonempty wellFormed
  · exact exposed_layerSources nonempty wellFormed
  · exact exposed_testFiles wellFormed (.self root)
  · exact exposed_testFiles wellFormed (.self root)
  · exact exposed_testsInside nonempty wellFormed [["handlers"], ["services"], ["repositories"]] (by decide) (by decide)
  · exact exposed_testsInside nonempty wellFormed
      [["handlers"], ["services"], ["repositories"], ["__tests__", "integration"]] (by decide) (by decide)
  · exact exposed_testFiles wellFormed (.self root)
  · exact exposed_listFiles wellFormed (exposedDir_handlers nonempty) _
  · exact exposed_listFiles wellFormed (exposedDir_architecture nonempty) (Text.endsWith ·.toList ".md")
  · exact exposed_documents nonempty wellFormed

end Scans

end Check

end Conformance
