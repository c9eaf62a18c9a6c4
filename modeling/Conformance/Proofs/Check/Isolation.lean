import Conformance.Proofs.Check.Scan
import Conformance.Proofs.FileSystem.Overwrite

namespace Conformance

open Path FileSystem

theorem Repository.inspectFile_of_unreadable {repo : Repository} {p : Path} {cause : ReadError}
    (unread : repo.files.read p = .error cause) (inspect : String → List Char → List Violation) :
    repo.inspectFile inspect p = [unreadable (repo.relative p) cause] := by
  unfold Repository.inspectFile
  rw [unread]

theorem Repository.unreadable_notUtf8 (name : String) : unreadable name .notUtf8 =
    { headline := s!"{name} could not be read: stream did not contain valid UTF-8" } := by
  have message : toString ReadError.notUtf8 = "stream did not contain valid UTF-8" := rfl
  rw [unreadable, message, Violation.mk.injEq, ← String.toList_inj]
  simp [toString]

theorem Repository.inspectFile_of_read {repo : Repository} {p : Path} {text : List Char}
    (read : repo.files.read p = .ok text) (inspect : String → List Char → List Violation) :
    repo.inspectFile inspect p = inspect (repo.relative p) text := by
  unfold Repository.inspectFile
  rw [read]

theorem FileSystem.read_of_invalid {fs : FileSystem} {p : Path} {place : List String} {bytes : ByteArray}
    (resolved : fs.resolve? p = some place) (held : fs.root.at? place = some (.file bytes))
    (invalid : String.fromUTF8? bytes = none) : fs.read p = .error .notUtf8 := by
  have leads : fs.node? p = some (.file bytes) := by
    rw [node?_eq_at?_resolve?, resolved, Option.bind_some, held]
  rw [read_of_node? leads, textOf, invalid]

namespace Scan

theorem find_eq_append (scan : Scan) {repo : Repository} {before behind : List Path} {p : Path}
    (cut : scan.paths repo = before ++ p :: behind) :
    scan.check.find repo =
      .ok (before.flatMap (scan.run repo) ++ (scan.run repo p ++ behind.flatMap (scan.run repo))) := by
  rw [scan.find_eq, cut, List.flatMap_append, List.flatMap_cons]
  rfl

section Unreadable

variable (scan : Scan) {files other : FileSystem} {root : Path} (wellFormed : files.root.WellFormed)
  (free : files.root.linkFree = true) {place : List String} (alike : files.AlikeOutside (· = place) other)
  {p : Path} (resolved : files.resolve? p = some place)

include wellFormed free alike resolved

/-- A file whose bytes change is found once among the paths of a scan, and the others are read as before. -/
theorem exists_cut (read : p ∈ scan.paths ⟨files, .ofRoot root⟩) : ∃ before behind,
    scan.paths ⟨files, .ofRoot root⟩ = before ++ p :: behind ∧ p ∉ before ∧ p ∉ behind ∧
      ∀ q ∈ before ++ behind, files.read q = other.read q := by
  obtain ⟨before, behind, cut⟩ := List.append_of_mem read
  have apart := scan.apart wellFormed root
  -- no other path of the scan leads to the place of the file
  have elsewhere : ∀ q ∈ before ++ behind, files.spelledPlace q ≠ files.spelledPlace p := by
    unfold SpellApart at apart
    rw [cut, List.map_append, List.map_cons, List.nodup_middle, List.nodup_cons] at apart
    intro q member same
    refine apart.1 ?_
    rw [← same, ← List.map_append]
    exact List.mem_map_of_mem member
  refine ⟨before, behind, cut, fun member => ?_, fun member => ?_, fun q member => alike.read_eq ?_⟩
  · exact elsewhere p (List.mem_append_left _ member) rfl
  · exact elsewhere p (List.mem_append_right _ member) rfl
  · rintro reached leads same
    have spelled := spelledPlace_of_resolve? free resolved
    exact elsewhere q member ((spelledPlace_of_resolve? free leads).trans (same.trans spelled.symm))

end Unreadable

end Scan

namespace Check

/-- When the bytes of one file that such a check reads become no text, the violations found in the file
are replaced by the one that it cannot be read, and those of all files before and behind it stay. -/
theorem find_of_unreadable : scans.map Scan.check = [layering, validation, consoleUse, networkAccess, typesInPlace,
      schemasInPlace, skippedTests, focusedTests, sharedFactories, sharedResponse, testBodies, features, mapReferences,
      documentLinks] ∧
    ∀ scan ∈ scans, ∀ (files other : FileSystem) (root : Path) (place : List String) (bytes : ByteArray) (p : Path),
      files.root.WellFormed → files.root.linkFree = true →
      files.AlikeOutside (· = place) other → other.root.at? place = some (.file bytes) →
      String.fromUTF8? bytes = none →
      p ∈ scan.paths ⟨files, .ofRoot root⟩ → files.resolve? p = some place →
      ∃ before behind, scan.paths ⟨files, .ofRoot root⟩ = before ++ p :: behind ∧ p ∉ before ∧ p ∉ behind ∧
        scan.check.find ⟨files, .ofRoot root⟩ = .ok (before.flatMap (scan.run ⟨files, .ofRoot root⟩) ++
          (scan.run ⟨files, .ofRoot root⟩ p ++ behind.flatMap (scan.run ⟨files, .ofRoot root⟩))) ∧
        scan.check.find ⟨other, .ofRoot root⟩ = .ok (before.flatMap (scan.run ⟨files, .ofRoot root⟩) ++
          ({ headline := s!"{(Layout.ofRoot root).relative p} could not be read: stream did not contain valid UTF-8" } ::
            behind.flatMap (scan.run ⟨files, .ofRoot root⟩))) := by
  refine ⟨rfl, fun scan _ files other root place bytes p wellFormed free alike held invalid read resolved => ?_⟩
  obtain ⟨before, behind, cut, once, once', kept⟩ := scan.exists_cut wellFormed free alike resolved read
  have cut' : scan.paths ⟨other, .ofRoot root⟩ = before ++ p :: behind := by
    rw [← (scan.blind alike.shape (.ofRoot root)).1, cut]
  have same : ∀ part ⊆ before ++ behind,
      part.flatMap (scan.run ⟨other, .ofRoot root⟩) = part.flatMap (scan.run ⟨files, .ofRoot root⟩) :=
    fun part inside => List.flatMap_congr fun q member => (scan.run_congr alike.shape _ (kept q (inside member))).symm
  have unread : other.read p = .error .notUtf8 :=
    read_of_invalid (resolve?_of_shape alike.shape p ▸ resolved) held invalid
  have own : scan.run ⟨other, .ofRoot root⟩ p =
      [{ headline := s!"{(Layout.ofRoot root).relative p} could not be read: stream did not contain valid UTF-8" }] := by
    have found : (⟨other, .ofRoot root⟩ : Repository).files.read p = .error .notUtf8 := unread
    rw [← Repository.unreadable_notUtf8]
    exact Repository.inspectFile_of_unreadable found _
  refine ⟨before, behind, cut, once, once', scan.find_eq_append cut, ?_⟩
  rw [scan.find_eq_append cut', own, same before (List.subset_append_left _ _), same behind (List.subset_append_right _ _),
    List.singleton_append]

def printingFiles : FileSystem :=
  ⟨.dir [("repo", .dir [("packages", .dir [("functions", .dir [("src", .dir [("a.ts", .file "console.log(1)".toUTF8),
    ("b.ts", .file "console.log(2)".toUTF8), ("c.ts", .file "console.log(3)".toUTF8)])])])])], []⟩

def printingPlace : List String :=
  ["repo", "packages", "functions", "src", "b.ts"]

theorem printing_wellFormed : printingFiles.root.WellFormed := by
  decide

def printingPath : Path :=
  "/repo/packages/functions/src/b.ts"

theorem printing_isolated :
    (consoleScan.run ⟨printingFiles, .ofRoot "/repo"⟩ printingPath).isEmpty = false ∧
    ∃ before behind : List Path,
      consoleScan.paths ⟨printingFiles, .ofRoot "/repo"⟩ = before ++ printingPath :: behind ∧
      printingPath ∉ before ∧ printingPath ∉ behind ∧
      consoleUse.find ⟨printingFiles, .ofRoot "/repo"⟩ =
        .ok (before.flatMap (consoleScan.run ⟨printingFiles, .ofRoot "/repo"⟩) ++
          (consoleScan.run ⟨printingFiles, .ofRoot "/repo"⟩ printingPath ++
            behind.flatMap (consoleScan.run ⟨printingFiles, .ofRoot "/repo"⟩))) ∧
      consoleUse.find ⟨printingFiles.overwrite printingPlace ⟨#[0xff]⟩, .ofRoot "/repo"⟩ =
        .ok (before.flatMap (consoleScan.run ⟨printingFiles, .ofRoot "/repo"⟩) ++
          ({ headline := "packages/functions/src/b.ts could not be read: stream did not contain valid UTF-8" } ::
            behind.flatMap (consoleScan.run ⟨printingFiles, .ofRoot "/repo"⟩))) := by
  have held : printingFiles.root.at? printingPlace = some (.file "console.log(2)".toUTF8) := rfl
  have shown : (Layout.ofRoot "/repo").relative printingPath = "packages/functions/src/b.ts" := by decide +kernel
  have isolated := find_of_unreadable.2 consoleScan (by simp [scans]) printingFiles _ "/repo" printingPlace
    ⟨#[0xff]⟩ printingPath printing_wellFormed (by decide +kernel) (alikeOutside_overwrite _ _ _)
    (Node.at?_overwrite _ held) (by decide +kernel) (by decide +kernel) (by decide +kernel)
  rw [shown] at isolated
  exact ⟨by decide +kernel, isolated⟩

end Check

end Conformance
