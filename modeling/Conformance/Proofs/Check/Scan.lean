import Conformance.Check.App
import Conformance.Check.Features
import Conformance.Check.TestBodies
import Conformance.Check.Tests
import Conformance.Check.Tidiness
import Conformance.Proofs.Check.Faults
import Conformance.Proofs.Check.LinkReading
import Conformance.Proofs.FileSystem.Shape
import Conformance.Proofs.Layout.Distinct

namespace Conformance

open Path FileSystem

/-- A check that looks at one file after the other: the paths it reads, and what it finds at a path,
given the name that messages show and the text. -/
structure Scan where
  check : Check
  paths : Repository → List Path
  inspect : Repository → Path → String → List Char → List Violation
  find_eq : ∀ repo, check.find repo = .ok ((paths repo).flatMap fun p => repo.inspectFile (inspect repo p) p)
  blind : ∀ {files other : FileSystem}, files.shape = other.shape → ∀ layout,
    paths ⟨files, layout⟩ = paths ⟨other, layout⟩ ∧ inspect ⟨files, layout⟩ = inspect ⟨other, layout⟩
  apart : ∀ {files : FileSystem}, files.root.WellFormed → ∀ root, files.SpellApart (paths ⟨files, .ofRoot root⟩)

namespace Repository

variable {files other : FileSystem} {layout : Layout}

theorem inspectFile_congr {p : Path} (read : files.read p = other.read p) (inspect : String → List Char → List Violation) :
    inspectFile ⟨files, layout⟩ inspect p = inspectFile ⟨other, layout⟩ inspect p := by
  unfold inspectFile relative
  dsimp only
  rw [read]

theorem inspectFiles_congr {paths : List Path} (read : ∀ p ∈ paths, files.read p = other.read p)
    (inspect : String → List Char → List Violation) :
    inspectFiles ⟨files, layout⟩ paths inspect = inspectFiles ⟨other, layout⟩ paths inspect :=
  List.flatMap_congr fun p member => inspectFile_congr (read p member) inspect

end Repository

namespace Scan

def run (scan : Scan) (repo : Repository) (p : Path) : List Violation :=
  repo.inspectFile (scan.inspect repo p) p

theorem run_congr (scan : Scan) {files other : FileSystem} (same : files.shape = other.shape) (layout : Layout) {p : Path}
    (read : files.read p = other.read p) : scan.run ⟨files, layout⟩ p = scan.run ⟨other, layout⟩ p := by
  have inspect := congrFun (scan.blind same layout).2 p
  unfold run
  rw [inspect]
  exact Repository.inspectFile_congr read _

theorem find_congr (scan : Scan) {files other : FileSystem} (same : files.shape = other.shape) (layout : Layout)
    (read : ∀ p ∈ scan.paths ⟨files, layout⟩, files.read p = other.read p) :
    scan.check.find ⟨files, layout⟩ = scan.check.find ⟨other, layout⟩ := by
  rw [scan.find_eq, scan.find_eq, ← (scan.blind same layout).1]
  exact congrArg Except.ok (List.flatMap_congr fun p member => scan.run_congr same layout (read p member))

end Scan

namespace FileSystem

variable {files : FileSystem} (wellFormed : files.root.WellFormed)

include wellFormed

theorem spellApart_starts {α : Type} (base : Path) {starts : List α} {place : α → List String}
    {collected : α → List Path} (proper : ∀ a ∈ starts, place a ≠ [] ∧ ∀ n ∈ place a, IsName n)
    (apart : starts.Pairwise fun a b => Apart (place a) (place b))
    (own : ∀ a ∈ starts, ∃ rules accepts,
      collected a = files.collectFiles rules accepts (base / ⟨"/".intercalate (place a)⟩)) :
    files.SpellApart (starts.flatMap collected) := by
  refine spellApart_flatMap (files.spelledPlace base) apart (fun a member => ?_) fun a member p inside => ?_
  · obtain ⟨rules, accepts, same⟩ := own a member
    rw [same]
    exact spellApart_collectFiles wellFormed rules accepts _
  · obtain ⟨rules, accepts, same⟩ := own a member
    obtain ⟨visible, named⟩ := proper a member
    rw [← spelledPlace_join files base visible named]
    exact prefix_of_mem_collectFiles wellFormed rules accepts _ p (same ▸ inside)

theorem spellApart_layers (layout : Layout) (accepts : String → Bool) {places : List (List String)}
    (proper : ∀ place ∈ places, place ≠ [] ∧ ∀ n ∈ place, IsName n) (apart : places.Pairwise Apart) :
    files.SpellApart ((places.map ("/".intercalate ·)).flatMap fun name => files.listFiles accepts (layout.layer name)) := by
  rw [List.flatMap_map]
  exact spellApart_starts wellFormed layout.functions proper apart fun place _ => ⟨_, _, rfl⟩

end FileSystem

namespace Check

theorem flatMap_filter_of_eq_nil {α β : Type} {items : List α} {keeps : α → Bool} {f : α → List β}
    (none : ∀ a ∈ items, keeps a = false → f a = []) : (items.filter keeps).flatMap f = items.flatMap f := by
  induction items with
  | nil => rfl
  | cons a items ih =>
    have rest := ih fun b member => none b (by simp [member])
    cases kept : keeps a with
    | true => simp [kept, rest]
    | false => simp [kept, rest, none a (by simp) kept]

def layeringScan : Scan where
  check := layering
  paths repo := (repo.files.sourceFiles (skipping ["__tests__", "test-utils"]) repo.layout.functions).filter fun p =>
    (Layer.ofPath? repo.layout.functions p).isSome
  inspect repo p := match Layer.ofPath? repo.layout.functions p with
    | some layer => Layering.inspect repo.layout.functions p layer
    | none => fun _ _ => []
  find_eq repo := by
    refine congrArg Except.ok ?_
    unfold Layering.find
    refine Eq.trans (flatMap_filter_of_eq_nil fun p _ outside => ?_).symm (List.flatMap_congr fun p member => ?_)
    · have none : Layer.ofPath? repo.layout.functions p = none := by simpa using outside
      simp only [none]
    · have inside := (List.mem_filter.mp member).2
      obtain ⟨layer, inside⟩ := Option.isSome_iff_exists.mp inside
      simp only [inside]
  blind same layout := ⟨by simp [sourceFiles, collectFiles_of_shape same], rfl⟩
  apart wellFormed root := (spellApart_collectFiles wellFormed _ _ _).filter _

def validationScan : Scan where
  check := validation
  paths := Validation.modules
  inspect _ _ file text := (Validation.lacking text).map (Validation.violation file)
  find_eq := Validation.find_eq
  blind same layout := ⟨by simp [Validation.modules, listFiles_of_shape same], rfl⟩
  apart wellFormed root := spellApart_collectFiles wellFormed _ _ _

def consoleScan : Scan where
  check := consoleUse
  paths repo := repo.files.sourceFiles (skipping ["__tests__", "test-utils", "scripts"]) repo.layout.functions
  inspect _ _ file text := (codeHits Tidiness.consoleCall text).map (Tidiness.printing file)
  find_eq _ := rfl
  blind same layout := ⟨by simp [sourceFiles, collectFiles_of_shape same], rfl⟩
  apart wellFormed root := spellApart_collectFiles wellFormed _ _ _

def networkScan : Scan where
  check := networkAccess
  paths repo := (repo.files.swiftFiles repo.layout.app).filter fun p => p.fileName?.any (!App.mayUseNetwork ·)
  inspect _ _ file text := (codeHits App.networkSession text).map (App.rawSession file)
  find_eq _ := rfl
  blind same layout := ⟨by simp [swiftFiles, collectFiles_of_shape same], rfl⟩
  apart wellFormed root := (spellApart_collectFiles wellFormed _ _ _).filter _

theorem spellApart_layerSources {files : FileSystem} (wellFormed : files.root.WellFormed) (layout : Layout) :
    files.SpellApart (Repository.layerSources ⟨files, layout⟩ Placement.scannedLayers) := by
  have places : Placement.scannedLayers = [["services"], ["handlers"], ["repositories"]].map ("/".intercalate ·) := by
    decide
  unfold Repository.layerSources
  rw [places]
  exact spellApart_layers wellFormed layout _ (by decide) (by decide)

def typeScan : Scan where
  check := typesInPlace
  paths repo := repo.layerSources Placement.scannedLayers
  inspect _ _ file text := (Source.ExportedType.ofText text).map (Placement.strayType file)
  find_eq _ := rfl
  blind same layout := ⟨by simp [Repository.layerSources, listFiles_of_shape same], rfl⟩
  apart wellFormed root := spellApart_layerSources wellFormed (.ofRoot root)

def schemaScan : Scan where
  check := schemasInPlace
  paths repo := repo.layerSources Placement.scannedLayers
  inspect _ _ file text := ((codeHits Placement.schemaBuilder text).filter fun hit =>
    !Placement.namesSchemaType text hit.line).map (Placement.straySchema file)
  find_eq repo := by
    change Except.ok (Placement.straySchemas repo) = _
    unfold Placement.straySchemas
    rfl
  blind same layout := ⟨by simp [Repository.layerSources, listFiles_of_shape same], rfl⟩
  apart wellFormed root := spellApart_layerSources wellFormed (.ofRoot root)

def testScan (check : Check) (inspect : String → List Char → List Violation)
    (find_eq : ∀ repo, check.find repo = .ok (repo.inspectFiles (repo.files.testFiles repo.layout.root) inspect)) :
    Scan where
  check := check
  paths repo := repo.files.testFiles repo.layout.root
  inspect _ _ := inspect
  find_eq := find_eq
  blind same layout := ⟨by simp [testFiles, collectFiles_of_shape same], rfl⟩
  apart wellFormed root := spellApart_collectFiles wellFormed _ _ _

def layerTestScan (check : Check) (inspect : String → List Char → List Violation) (names : List String)
    (places : List (List String)) (spelled : names = places.map ("/".intercalate ·))
    (proper : ∀ place ∈ places, place ≠ [] ∧ ∀ n ∈ place, IsName n) (apart : places.Pairwise Apart)
    (find_eq : ∀ repo, check.find repo = .ok (repo.inspectFiles
      (repo.testsInside (names.map repo.layout.layer)) inspect)) : Scan where
  check := check
  paths repo := repo.testsInside (names.map repo.layout.layer)
  inspect _ _ := inspect
  find_eq := find_eq
  blind same layout := ⟨by simp [Repository.testsInside, listFiles_of_shape same], rfl⟩
  apart wellFormed root := by
    unfold Repository.testsInside
    rw [spelled, List.flatMap_map]
    exact spellApart_layers wellFormed _ _ proper apart

def factoryScan : Scan :=
  layerTestScan sharedFactories (fun file text => ((Tests.ownFactory? text).map (Tests.unshared file)).toList)
    ["handlers", "services", "repositories"] [["handlers"], ["services"], ["repositories"]] (by decide) (by decide)
    (by decide) fun repo => by
      change Except.ok (Tests.unsharedFactories repo) = _
      unfold Tests.unsharedFactories
      rfl

def responseScan : Scan :=
  layerTestScan sharedResponse
    (fun file text => ((Tests.responseType.find? text).map fun m =>
      Tests.ownResponseType file ((Text.LineIndex.ofText text).lineOf m.start.offset)).toList)
    ["handlers", "services", "repositories", "__tests__/integration"]
    [["handlers"], ["services"], ["repositories"], ["__tests__", "integration"]] (by decide) (by decide)
    (by decide) fun repo => by
      change Except.ok (Tests.ownResponseTypes repo) = _
      unfold Tests.ownResponseTypes
      rfl

theorem documented_of_shape {files other : FileSystem} (same : files.shape = other.shape) (layout : Layout) :
    Features.documented ⟨files, layout⟩ = Features.documented ⟨other, layout⟩ := by
  simp [Features.documented, listFiles_of_shape same]

def featureScan : Scan where
  check := features
  paths repo := repo.files.listFiles isSourceName repo.layout.handlers
  inspect repo p := Features.inspect (Features.documented repo) (p.fileName?.getD "")
  find_eq _ := rfl
  blind same layout := ⟨by simp [listFiles_of_shape same], by rw [documented_of_shape same]⟩
  apart wellFormed root := spellApart_collectFiles wellFormed _ _ _

theorem isDangling_of_shape {files other : FileSystem} (same : files.shape = other.shape) (layout : Layout) :
    References.isDangling ⟨files, layout⟩ = References.isDangling ⟨other, layout⟩ := by
  funext path
  simp [References.isDangling, pathExists_of_shape same]

def mapScan : Scan where
  check := mapReferences
  paths repo := repo.files.listFiles (Text.endsWith ·.toList ".md") repo.layout.architecture
  inspect repo _ file text :=
    ((References.onProse (Document.rootedPaths References.mapRoots true) text).filter fun (_, path) =>
      References.isDangling repo path).map fun (line, path) => References.danglingFile file line path
  find_eq repo := by
    change Except.ok (References.mapFiles repo) = _
    unfold References.mapFiles
    rfl
  blind same layout := ⟨by simp [listFiles_of_shape same], by rw [isDangling_of_shape same]⟩
  apart wellFormed root := spellApart_collectFiles wellFormed _ _ _

namespace References

/-- Where documents are looked for, as places below the root: the documents outside the document trees,
each itself, and the document trees. -/
def documentStarts : List (List String × Bool) :=
  rootPlaces.map (·, false) ++ treePlaces.map fun tree => (tree.1 ++ [tree.2], true)

def documentsFrom (files : FileSystem) (root : Path) : List String × Bool → List Path
  | (place, true) => files.markdownFiles alwaysSkipped (root / ⟨"/".intercalate place⟩)
  | (place, false) => [root / ⟨"/".intercalate place⟩].filter files.isFile

theorem documents_eq (files : FileSystem) (layout : Layout) :
    documents ⟨files, layout⟩ =
      (documentStarts.flatMap (documentsFrom files layout.root)).filter (isCurrent layout.root) := by
  have single : ∀ paths : List Path, paths.filter files.isFile = paths.flatMap fun p => [p].filter files.isFile := by
    intro paths
    induction paths with
    | nil => rfl
    | cons p paths ih => cases isFile : files.isFile p <;> simp [isFile, ih]
  unfold documents documentStarts
  rw [rootDocuments_eq, documentTrees_eq]
  dsimp only
  rw [single]
  simp only [List.flatMap_append, List.flatMap_map, List.map_map]
  rfl

theorem documentStarts_proper : ∀ start ∈ documentStarts, start.1 ≠ [] ∧ ∀ n ∈ start.1, IsName n := by
  decide

theorem documentStarts_apart : documentStarts.Pairwise fun a b => Apart a.1 b.1 := by
  decide

theorem spellApart_documents {files : FileSystem} (wellFormed : files.root.WellFormed) (layout : Layout) :
    files.SpellApart (documents ⟨files, layout⟩) := by
  rw [documents_eq]
  refine SpellApart.filter (spellApart_flatMap (files.spelledPlace layout.root) documentStarts_apart ?_ ?_) _
  · rintro ⟨place, isTree⟩ _
    cases isTree with
    | true =>
      unfold documentsFrom markdownFiles
      exact spellApart_collectFiles wellFormed _ _ _
    | false => exact SpellApart.filter (by simp [SpellApart]) _
  · rintro ⟨place, isTree⟩ member p inside
    obtain ⟨visible, proper⟩ := documentStarts_proper _ member
    rw [← spelledPlace_join files layout.root visible proper]
    cases isTree with
    | true =>
      unfold documentsFrom markdownFiles at inside
      exact prefix_of_mem_collectFiles wellFormed _ _ _ p inside
    | false =>
      obtain rfl := List.mem_singleton.mp (List.mem_of_mem_filter inside)
      exact List.prefix_rfl

theorem documentsFrom_of_shape {files other : FileSystem} (same : files.shape = other.shape) :
    documentsFrom files = documentsFrom other := by
  funext root ⟨place, isTree⟩
  cases isTree with
  | true => simp [documentsFrom, markdownFiles, collectFiles_of_shape same]
  | false => simp [documentsFrom, isFile_of_shape same]

theorem isBroken_of_shape {files other : FileSystem} (same : files.shape = other.shape) :
    isBroken files = isBroken other := by
  funext document path
  simp [isBroken, pathExists_of_shape same]

end References

def linkScan : Scan where
  check := documentLinks
  paths := References.documents
  inspect repo document file text :=
    ((References.onProse References.localTargets text).filter fun (_, target) =>
      References.isBroken repo.files document target).map fun (line, target) => References.brokenLink file line target
  find_eq repo := by
    change Except.ok (References.links repo) = _
    unfold References.links
    rfl
  blind same layout := ⟨by rw [References.documents_eq, References.documents_eq, References.documentsFrom_of_shape same],
    by rw [References.isBroken_of_shape same]⟩
  apart wellFormed root := References.spellApart_documents wellFormed (.ofRoot root)

def scans : List Scan :=
  [layeringScan, validationScan, consoleScan, networkScan, typeScan, schemaScan,
    testScan skippedTests (fun file text => (codeHits Tests.skippedTest text).map (Tests.skipped file)) fun _ => rfl,
    testScan focusedTests (fun file text => (codeHits Tests.focusedTest text).map (Tests.focused file)) fun _ => rfl,
    factoryScan, responseScan, testScan testBodies TestBodies.inspect fun _ => rfl, featureScan, mapScan, linkScan]

end Check

end Conformance
