import Conformance.Proofs.Check.RepeatedTypes

namespace Conformance.Check

open Placement Source ExportedType

/-- The text declares a type of this name and kind on a line of this number, in a form that is listed. -/
def Placement.Lists (text : List Char) (number : Nat) (name : String) (kind : TypeKind) : Prop :=
  ∃ line params, (number, line) ∈ Text.numberedLines text ∧ BeginsDeclaration kind name.toList params line ∧
    IsParameterList params ∧ name ≠ "" ∧ (∀ c ∈ name.toList, Text.isWord c = true) ∧ (kind = .interface ∨ params = [])

theorem Placement.mem_ofText_of_lists {text : List Char} {number : Nat} {name : String} {kind : TypeKind}
    (lists : Lists text number name kind) : ⟨name, number, kind⟩ ∈ ofText text := by
  obtain ⟨line, params, listed, begins, list, some, both⟩ := lists
  exact (mem_ofText_iff listed).mpr ((ofLine?_eq_some_iff some list begins).mpr both)

section Repeated

variable {files : FileSystem} {root p : Path} {name : String} {number : Nat}

theorem Placement.exists_site (wellFormed : files.root.WellFormed) (scanned : p ∈ typeSources ⟨files, .ofRoot root⟩)
    (declares : DeclaresIn ⟨files, .ofRoot root⟩ p name number) : ∃ n ≤ number,
      (Repository.relative ⟨files, .ofRoot root⟩ p, n) ∈
        sitesOf ((typeSources ⟨files, .ofRoot root⟩).flatMap (sitesIn ⟨files, .ofRoot root⟩)) name := by
  have here := mem_sites_iff.mpr ⟨p, scanned, rfl, declares⟩
  obtain ⟨n, member⟩ := exists_mem_sitesOf.mpr ⟨number, here⟩
  exact ⟨n, ((mem_sitesOf_iff_isLeast (inLineOrder_sites wellFormed root)).mp member).2 here, member⟩

end Repeated

/-- Every declaration of an interface, and every alias without type parameters, is listed with its name, the number of
its line and its kind, if its name is made of word characters; no other declaration is. Two scanned files that declare a
type so are both named in the violation of a repeated type, and each such declaration directly inside a layer that
imports its types has a violation of its own. -/
theorem find_declared (files : FileSystem) (root : Path) (wellFormed : files.root.WellFormed) :
    let repo : Repository := ⟨files, .ofRoot root⟩
    (∀ text number line kind name params, (number, line) ∈ Text.numberedLines text → name ≠ "" → IsParameterList params →
      BeginsDeclaration kind name.toList params line →
        (⟨name, number, kind⟩ ∈ ofText text ↔
          (∀ c ∈ name.toList, Text.isWord c = true) ∧ (kind = .interface ∨ params = []))) ∧
    (∃ found, uniqueTypes.find repo = .ok found ∧ ∀ p ∈ typeSources repo, ∀ q ∈ typeSources repo, p ≠ q →
      ∀ text text' number number' name kind kind', files.read p = .ok text → files.read q = .ok text' →
        Lists text number name kind → Lists text' number' name kind' →
          ∃ sites, repeatedType name sites ∈ found ∧ (∃ n ≤ number, (repo.relative p, n) ∈ sites) ∧
            ∃ n ≤ number', (repo.relative q, n) ∈ sites) ∧
    ∃ found, typesInPlace.find repo = .ok found ∧ ∀ p ∈ repo.layerSources scannedLayers, ∀ text number name kind,
      files.read p = .ok text → Lists text number name kind →
        strayType (repo.relative p) ⟨name, number, kind⟩ ∈ found := by
  intro repo
  refine ⟨?_, ⟨_, congrArg Except.ok (repeatedTypes_eq repo), ?_⟩, _, rfl, ?_⟩
  · intro text number line kind name params listed some list begins
    exact (mem_ofText_iff listed).trans (ofLine?_eq_some_iff some list begins)
  · intro p scanned q scanned' differ text text' number number' name kind kind' read read' lists lists'
    obtain ⟨n, before, site⟩ := exists_site wellFormed scanned ⟨text, read, _, mem_ofText_of_lists lists, rfl, rfl⟩
    obtain ⟨n', before', site'⟩ := exists_site wellFormed scanned' ⟨text', read', _, mem_ofText_of_lists lists', rfl, rfl⟩
    have apart : repo.relative p ≠ repo.relative q := fun same => differ (relative_inj wellFormed root scanned scanned' same)
    have several := one_lt_length_sitesOf.mpr ⟨_, site, _, site', apart⟩
    exact ⟨_, List.mem_append_right _ (List.mem_map.mpr ⟨(name, _), mem_repeatedAmong.mpr ⟨rfl, several⟩, rfl⟩),
      ⟨n, before, site⟩, n', before', site'⟩
  · intro p scanned text number name kind read lists
    refine List.mem_flatMap.mpr ⟨p, scanned, ?_⟩
    rw [Repository.inspectFile, read]
    exact List.mem_map_of_mem (mem_ofText_of_lists lists)

/-- The source of a service that declares a page with and without type parameters. -/
def pageSource : String :=
  "import x from 'y';\nexport interface  Page<T, U> \x7b items: T[] \x7d\n"

def pageFiles : FileSystem :=
  ⟨.dir [("repo", .dir [("packages", .dir [("functions", .dir [("src", .dir [
    ("services", .dir [("a.ts", .file pageSource.toUTF8)]),
    ("types", .dir [("page.ts", .file "export type Page= string[];".toUTF8)])])])])])], []⟩

theorem pageFiles_wellFormed : pageFiles.root.WellFormed := by
  decide

theorem pageFiles_declared : pageFiles.root.WellFormed ∧
    let repo : Repository := ⟨pageFiles, .ofRoot "/repo"⟩
    ⟨"Page", 2, .interface⟩ ∈ ofText pageSource.toList ∧
    (∃ found sites, uniqueTypes.find repo = .ok found ∧ repeatedType "Page" sites ∈ found ∧
      (∃ n ≤ 2, ("packages/functions/src/services/a.ts", n) ∈ sites) ∧
      ∃ n ≤ 1, ("packages/functions/src/types/page.ts", n) ∈ sites) ∧
    ∃ found, typesInPlace.find repo = .ok found ∧
      strayType "packages/functions/src/services/a.ts" ⟨"Page", 2, .interface⟩ ∈ found := by
  let service : Path := "/repo/packages/functions/src/services/a.ts"
  let types : Path := "/repo/packages/functions/src/types/page.ts"
  have wellFormed := pageFiles_wellFormed
  obtain ⟨listed, ⟨found, finds, repeated⟩, found', finds', stray⟩ := find_declared pageFiles "/repo" wellFormed
  have read : pageFiles.read "/repo/packages/functions/src/services/a.ts" = .ok pageSource.toList :=
    FileSystem.read_of_toUTF8 (by rfl)
  have read' : pageFiles.read "/repo/packages/functions/src/types/page.ts" = .ok "export type Page= string[];".toList :=
    FileSystem.read_of_toUTF8 (by rfl)
  have shown : Repository.relative ⟨pageFiles, .ofRoot "/repo"⟩ service = "packages/functions/src/services/a.ts" := by
    decide +kernel
  have shown' : Repository.relative ⟨pageFiles, .ofRoot "/repo"⟩ types = "packages/functions/src/types/page.ts" := by
    decide +kernel
  have line : (2, "export interface  Page<T, U> \x7b items: T[] \x7d".toList) ∈ Text.numberedLines pageSource.toList := by
    decide +kernel
  have line' : (1, "export type Page= string[];".toList) ∈ Text.numberedLines "export type Page= string[];".toList := by
    decide +kernel
  have begins : BeginsDeclaration .interface "Page".toList "<T, U>".toList
      "export interface  Page<T, U> \x7b items: T[] \x7d".toList :=
    ⟨[' '], [' ', ' '], [], [' '], " items: T[] \x7d".toList, by decide⟩
  have begins' : BeginsDeclaration .typeAlias "Page".toList [] "export type Page= string[];".toList :=
    ⟨[' '], [' '], [], [], " string[];".toList, by decide⟩
  have inWord : ∀ c ∈ "Page".toList, Text.isWord c = true := by decide
  have list : IsParameterList "<T, U>".toList := .inr ⟨"T, U".toList, rfl⟩
  have lists : Lists pageSource.toList 2 "Page" .interface := ⟨_, _, line, begins, list, by decide, inWord, .inl rfl⟩
  have lists' : Lists "export type Page= string[];".toList 1 "Page" .typeAlias :=
    ⟨_, _, line', begins', .inl rfl, by decide, inWord, .inr rfl⟩
  obtain ⟨sites, member, site, site'⟩ := repeated service (by decide +kernel) types (by decide +kernel) (by decide) _ _ 2 1
    "Page" _ _ read read' lists lists'
  have alone := stray service (by decide +kernel) _ 2 "Page" _ read lists
  rw [shown] at site alone
  rw [shown'] at site'
  exact ⟨wellFormed, (listed _ _ _ .interface "Page" _ line (by decide) list begins).mpr ⟨inWord, .inl rfl⟩,
    ⟨found, sites, finds, member, site, site'⟩, found', finds', alone⟩

theorem genericAlias_unlisted : let line := "export type Box<T> = T[];".toList
    (1, line) ∈ Text.numberedLines (line ++ ['\n']) ∧ BeginsDeclaration .typeAlias "Box".toList "<T>".toList line ∧
      IsParameterList "<T>".toList ∧ (∀ c ∈ "Box".toList, Text.isWord c = true) ∧ ofText (line ++ ['\n']) = [] := by
  have begins : BeginsDeclaration .typeAlias "Box".toList "<T>".toList "export type Box<T> = T[];".toList :=
    ⟨[' '], [' '], [], [' '], " T[];".toList, by decide⟩
  exact ⟨by decide +kernel, begins, .inr ⟨['T'], rfl⟩, by decide, by decide +kernel⟩

end Conformance.Check
