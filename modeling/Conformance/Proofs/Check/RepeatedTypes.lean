import Conformance.Check.Placement
import Conformance.Proofs.Layout.Distinct
import Conformance.Proofs.Repeats
import Conformance.Proofs.Source.TypeDeclarations
import Mathlib.Data.List.Sort
import Mathlib.Order.Bounds.Basic

namespace Conformance

open FileSystem Path

namespace Check.Placement

/-- The types that several files declare, as far as the sites tell, each with its files and lines. -/
def repeatedAmong (sites : List Site) : List (String × List (String × Nat)) :=
  (sortedTexts (sites.map Site.name)).filterMap fun name =>
    let own := sitesOf sites name
    if own.length > 1 then some (name, own) else none

def unread? (repo : Repository) (p : Path) : Option Violation :=
  match repo.files.read p with
  | .ok _ => none
  | .error cause => some (Repository.unreadable (repo.relative p) cause)

theorem repeatedTypes_eq (repo : Repository) : repeatedTypes repo = (typeSources repo).filterMap (unread? repo) ++
    (repeatedAmong ((typeSources repo).flatMap (sitesIn repo))).map fun x => repeatedType x.1 x.2 := by
  have unread : ∀ paths : List Path, repo.inspectFiles paths (fun _ _ => []) = paths.filterMap (unread? repo) := by
    intro paths
    induction paths with
    | nil => rfl
    | cons p paths ih =>
      have own : repo.inspectFile (fun _ _ => []) p = (unread? repo p).toList := by
        rw [Repository.inspectFile, unread?]
        cases repo.files.read p <;> rfl
      rw [Repository.inspectFiles, List.flatMap_cons, own]
      cases first : unread? repo p with
      | none => rw [List.filterMap_cons_none first, ← ih]; rfl
      | some v => rw [List.filterMap_cons_some first, ← ih]; rfl
  have found : ∀ names : List String, ∀ sites : List Site, (names.filterMap fun name =>
      if (sitesOf sites name).length > 1 then some (repeatedType name (sitesOf sites name)) else none) =
      (names.filterMap fun name => if (sitesOf sites name).length > 1 then some (name, sitesOf sites name) else none).map
        fun x => repeatedType x.1 x.2 := by
    intro names sites
    rw [List.map_filterMap]
    refine List.filterMap_congr fun name _ => ?_
    split <;> rfl
  simp only [repeatedTypes, unread]
  exact congrArg _ (found _ _)

/-- Repeated types with their files and the first line in each, when `declared` says which name which file declares on
which line. Nothing here depends on an order in which files or declarations are listed. -/
structure Repeated (declared : String → String → Nat → Prop) (found : List (String × List (String × Nat))) : Prop where
  names_increase : found.Pairwise fun x y => Text.bytes x.1 < Text.bytes y.1
  mem_names : ∀ name, name ∈ found.map Prod.fst ↔
    ∃ file line file' line', declared name file line ∧ declared name file' line' ∧ file ≠ file'
  files_increase : ∀ x ∈ found, x.2.Pairwise fun s t => Text.bytes s.1 < Text.bytes t.1
  mem_sites : ∀ x ∈ found, ∀ file line, (file, line) ∈ x.2 ↔ IsLeast {n | declared x.1 file n} line

theorem eq_of_increasing {α : Type} {l l' : List (String × α)}
    (increase : l.Pairwise fun x y => Text.bytes x.1 < Text.bytes y.1)
    (increase' : l'.Pairwise fun x y => Text.bytes x.1 < Text.bytes y.1) (same : ∀ x, x ∈ l ↔ x ∈ l') : l = l' := by
  let before (x y : String × α) : Prop := Text.bytes x.1 < Text.bytes y.1
  have irrefl : Std.Irrefl before := ⟨fun x => List.lt_irrefl (Text.bytes x.1)⟩
  have antisymm : Std.Antisymm before := ⟨fun _ _ first second => absurd second (List.lt_asymm first)⟩
  exact List.Pairwise.eq_of_mem_iff (r := before) increase increase' same

theorem Repeated.unique {declared : String → String → Nat → Prop} {found other : List (String × List (String × Nat))}
    (here : Repeated declared found) (there : Repeated declared other) : other = found := by
  have within : ∀ {l l' : List (String × List (String × Nat))}, Repeated declared l → Repeated declared l' →
      ∀ x ∈ l, x ∈ l' := by
    intro l l' first second x member
    have named := (second.mem_names x.1).mpr ((first.mem_names x.1).mp (List.mem_map_of_mem member))
    obtain ⟨y, member', same⟩ := List.mem_map.mp named
    have sites : y.2 = x.2 := by
      refine eq_of_increasing (second.files_increase y member') (first.files_increase x member) fun site => ?_
      rw [second.mem_sites y member', first.mem_sites x member, same]
    rwa [show x = y from Prod.ext same.symm sites.symm]
  exact eq_of_increasing there.names_increase here.names_increase fun x => ⟨within there here x, within here there x⟩

def InLineOrder (sites : List Site) : Prop :=
  sites.Pairwise fun a b => a.name = b.name → a.file = b.file → a.line ≤ b.line

section Sites

variable {sites : List Site} {name file : String} {line : Nat}

theorem mem_sitesOf : (file, line) ∈ sitesOf sites name ↔
    (sites.find? fun site => site.name == name && site.file == file).map Site.line = some line := by
  have own : ∀ f : String, (sites.filter (·.name == name)).find? (·.file == f) =
      sites.find? fun site => site.name == name && site.file == f := fun f => by
    rw [List.find?_filter]
    simp only [Bool.decide_and, Bool.decide_eq_true]
  rw [sitesOf, List.mem_filterMap]
  simp only [own, mem_sortedTexts]
  constructor
  · rintro ⟨f, _, found⟩
    obtain ⟨site, first, same⟩ := Option.map_eq_some_iff.mp found
    cases same
    rw [first, Option.map_some]
  · intro found
    obtain ⟨site, first, rfl⟩ := Option.map_eq_some_iff.mp found
    have member := List.mem_of_find?_eq_some first
    have fits : site.name = name ∧ site.file = file := by simpa using List.find?_some first
    refine ⟨file, List.mem_map.mpr ⟨site, List.mem_filter.mpr ⟨member, by simp [fits.1]⟩, fits.2⟩, ?_⟩
    rw [first, Option.map_some]

theorem exists_mem_sitesOf : (∃ line, (file, line) ∈ sitesOf sites name) ↔ ∃ line, ⟨name, file, line⟩ ∈ sites := by
  simp only [mem_sitesOf]
  constructor
  · rintro ⟨line, found⟩
    obtain ⟨site, first, rfl⟩ := Option.map_eq_some_iff.mp found
    obtain ⟨rfl, rfl⟩ : site.name = name ∧ site.file = file := by simpa using List.find?_some first
    exact ⟨site.line, List.mem_of_find?_eq_some first⟩
  · rintro ⟨line, member⟩
    cases first : sites.find? fun site => site.name == name && site.file == file with
    | none => exact absurd (List.find?_eq_none.mp first _ member) (by simp)
    | some site => exact ⟨site.line, rfl⟩

/-- If the declarations in a file are listed by their lines, the first one has the smallest line. -/
theorem mem_sitesOf_iff_isLeast (ordered : InLineOrder sites) :
    (file, line) ∈ sitesOf sites name ↔ IsLeast {n | ⟨name, file, n⟩ ∈ sites} line := by
  have least : ∀ n, (file, n) ∈ sitesOf sites name → IsLeast {n | ⟨name, file, n⟩ ∈ sites} n := by
    intro n member
    obtain ⟨site, first, rfl⟩ := Option.map_eq_some_iff.mp (mem_sitesOf.mp member)
    obtain ⟨fits, front, back, cut, others⟩ := List.find?_eq_some_iff_append.mp first
    obtain ⟨rfl, rfl⟩ : site.name = name ∧ site.file = file := by simpa using fits
    refine ⟨List.mem_of_find?_eq_some first, fun n (declared : _ ∈ sites) => ?_⟩
    rw [cut, List.mem_append, List.mem_cons] at declared
    rcases declared with before | own | behind
    · exact absurd (others _ before) (by simp)
    · exact Nat.le_of_eq (congrArg Site.line own).symm
    · rw [InLineOrder, cut, List.pairwise_append, List.pairwise_cons] at ordered
      exact ordered.2.1.1 _ behind rfl rfl
  refine ⟨least line, fun isLeast => ?_⟩
  obtain ⟨n, member⟩ := exists_mem_sitesOf.mpr ⟨line, isLeast.1⟩
  rwa [isLeast.unique (least n member)]

theorem pairwise_sitesOf (sites : List Site) (name : String) :
    (sitesOf sites name).Pairwise fun s t => Text.bytes s.1 < Text.bytes t.1 := by
  refine (pairwise_sortedTexts _).filterMap _ ?_
  intro file file' before s found t found'
  obtain ⟨_, _, rfl⟩ := Option.map_eq_some_iff.mp found
  obtain ⟨_, _, rfl⟩ := Option.map_eq_some_iff.mp found'
  exact before

theorem one_lt_length_sitesOf : 1 < (sitesOf sites name).length ↔
    ∃ s ∈ sitesOf sites name, ∃ t ∈ sitesOf sites name, s.1 ≠ t.1 := by
  have increase := pairwise_sitesOf sites name
  constructor
  · intro several
    match own : sitesOf sites name with
    | [] | [_] => simp [own] at several
    | s :: t :: rest =>
      rw [own] at increase
      have before := (List.pairwise_cons.mp increase).1 t (by simp)
      exact ⟨s, by simp, t, by simp, fun same => List.lt_irrefl _ (same ▸ before)⟩
  · rintro ⟨s, member, t, member', differ⟩
    match own : sitesOf sites name with
    | [] => simp [own] at member
    | [only] =>
      rw [own, List.mem_singleton] at member member'
      exact absurd (member'.symm ▸ member ▸ rfl) differ
    | _ :: _ :: _ => simp

theorem mem_repeatedAmong {x : String × List (String × Nat)} :
    x ∈ repeatedAmong sites ↔ x.2 = sitesOf sites x.1 ∧ 1 < (sitesOf sites x.1).length := by
  rw [repeatedAmong, List.mem_filterMap]
  constructor
  · rintro ⟨name, _, found⟩
    dsimp only at found
    split at found
    · cases found
      exact ⟨rfl, ‹_›⟩
    · cases found
  · rintro ⟨same, several⟩
    obtain ⟨s, member, _⟩ := one_lt_length_sitesOf.mp several
    obtain ⟨line, declared⟩ := exists_mem_sitesOf.mp ⟨s.2, member⟩
    refine ⟨x.1, mem_sortedTexts.mpr (List.mem_map.mpr ⟨_, declared, rfl⟩), ?_⟩
    dsimp only
    rw [if_pos several, ← same]

end Sites

def DeclaresIn (repo : Repository) (p : Path) (name : String) (line : Nat) : Prop :=
  ∃ text, repo.files.read p = .ok text ∧ ∃ t ∈ Source.ExportedType.ofText text, t.name = name ∧ t.line = line

/-- A scanned file of this name in messages declares a type of this name on this line. -/
def Declared (repo : Repository) (name file : String) (line : Nat) : Prop :=
  ∃ p ∈ typeSources repo, file = repo.relative p ∧ DeclaresIn repo p name line

theorem mem_sitesIn {repo : Repository} {p : Path} {site : Site} :
    site ∈ sitesIn repo p ↔ site.file = repo.relative p ∧ DeclaresIn repo p site.name site.line := by
  obtain ⟨name, file, line⟩ := site
  rw [sitesIn, DeclaresIn]
  cases read : repo.files.read p with
  | error cause => simp
  | ok text =>
    simp only [List.mem_map, Site.mk.injEq, Except.ok.injEq, exists_eq_left']
    constructor
    · rintro ⟨t, member, rfl, rfl, rfl⟩
      exact ⟨rfl, t, member, rfl, rfl⟩
    · rintro ⟨rfl, t, member, rfl, rfl⟩
      exact ⟨t, member, rfl, rfl, rfl⟩

theorem mem_sites_iff {repo : Repository} {name file : String} {line : Nat} :
    ⟨name, file, line⟩ ∈ (typeSources repo).flatMap (sitesIn repo) ↔ Declared repo name file line := by
  simp only [List.mem_flatMap, mem_sitesIn, Declared]

section Repo

variable {files : FileSystem} (wellFormed : files.root.WellFormed) (root : Path)

include wellFormed

theorem relative_inj {p q : Path} (scanned : p ∈ typeSources ⟨files, .ofRoot root⟩)
    (scanned' : q ∈ typeSources ⟨files, .ofRoot root⟩)
    (same : Repository.relative ⟨files, .ofRoot root⟩ p = Repository.relative ⟨files, .ofRoot root⟩ q) : p = q :=
  have some : ["packages", "functions", "src"] ≠ [] := List.cons_ne_nil _ _
  relativeTo_inj_of_mem_collectFiles wellFormed _ _ root some (by decide) scanned scanned' same

theorem inLineOrder_sites :
    InLineOrder ((typeSources ⟨files, .ofRoot root⟩).flatMap (sitesIn ⟨files, .ofRoot root⟩)) := by
  have nodup : (typeSources ⟨files, .ofRoot root⟩).Nodup := (spellApart_collectFiles wellFormed _ _ _).of_map _
  refine List.pairwise_flatMap.mpr ⟨fun p _ => ?_, nodup.imp_of_mem fun {p q} scanned scanned' differ => ?_⟩
  · rw [sitesIn]
    cases files.read p with
    | error cause => exact .nil
    | ok text =>
      refine List.pairwise_map.mpr ((Source.ExportedType.pairwise_ofText text).imp ?_)
      exact fun before _ _ => Nat.le_of_lt before
  · -- declarations in different files have different names of files
    intro a own b own' _ same
    rw [(mem_sitesIn.mp own).1, (mem_sitesIn.mp own').1] at same
    exact absurd (relative_inj wellFormed root scanned scanned' same) differ

end Repo

end Check.Placement

namespace Check

open Placement

end Check

end Conformance
