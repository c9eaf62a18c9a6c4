import Conformance.Check.Basic
import Conformance.Proofs.FileSystem.Names
import Conformance.Proofs.Pattern.Places
import Conformance.Proofs.Report.Plain

namespace Conformance

structure Repository.NamesOneLine (repo : Repository) : Prop where
  root : OneLine repo.layout.root.raw
  functions : OneLine repo.layout.functions.raw
  tree : repo.files.root.NamesOneLine

def AllPlain (violations : List Violation) : Prop :=
  ∀ v ∈ violations, v.IsPlain

namespace AllPlain

theorem nil : AllPlain [] := by
  rintro _ ⟨⟩

theorem single {v : Violation} (plain : v.IsPlain) : AllPlain [v] := by
  intro v' member
  exact List.mem_singleton.mp member ▸ plain

theorem append {first second : List Violation} (plain : AllPlain first) (plain' : AllPlain second) :
    AllPlain (first ++ second) := by
  intro v member
  exact (List.mem_append.mp member).elim (plain v) (plain' v)

theorem flatMap {α : Type} {items : List α} {find : α → List Violation} (each : ∀ x ∈ items, AllPlain (find x)) :
    AllPlain (items.flatMap find) := by
  intro v member
  obtain ⟨x, inside, own⟩ := List.mem_flatMap.mp member
  exact each x inside v own

theorem map {α : Type} {items : List α} {violation : α → Violation} (each : ∀ x ∈ items, (violation x).IsPlain) :
    AllPlain (items.map violation) := by
  intro v member
  obtain ⟨x, inside, rfl⟩ := List.mem_map.mp member
  exact each x inside

theorem filterMap {α : Type} {items : List α} {violation? : α → Option Violation}
    (each : ∀ x ∈ items, ∀ v, violation? x = some v → v.IsPlain) : AllPlain (items.filterMap violation?) := by
  intro v member
  obtain ⟨x, inside, own⟩ := List.mem_filterMap.mp member
  exact each x inside v own

end AllPlain

namespace Repository

variable {repo : Repository}

theorem isPlain_unreadable {name : String} (free : OneLine name) (cause : ReadError) : (unreadable name cause).IsPlain := by
  have shown : OneLine cause.message := by cases cause <;> exact .literal (by decide)
  refine Violation.isPlain_mk_iff.mpr ?_
  simp only [OneLine.append_iff, OneLine.toString_iff, free, true_and]
  exact ⟨.literal (by decide), shown⟩

theorem oneLine_relative {p : Path} (free : OneLine p.raw) : OneLine (repo.relative p) :=
  Path.oneLine_relativeTo free _

theorem allPlain_inspectFile {inspect : String → List Char → List Violation} {p : Path} (free : OneLine p.raw)
    (each : ∀ text, repo.files.read p = .ok text → AllPlain (inspect (repo.relative p) text)) :
    AllPlain (repo.inspectFile inspect p) := by
  unfold inspectFile
  split
  · exact each _ ‹_›
  · exact .single (isPlain_unreadable (oneLine_relative free) _)

theorem allPlain_inspectFiles {inspect : String → List Char → List Violation} {paths : List Path}
    (free : ∀ p ∈ paths, OneLine p.raw) (each : ∀ file text, OneLine file → AllPlain (inspect file text)) :
    AllPlain (repo.inspectFiles paths inspect) :=
  .flatMap fun p member => allPlain_inspectFile (free p member) fun text _ => each _ text (oneLine_relative (free p member))

namespace NamesOneLine

variable (plain : repo.NamesOneLine)

include plain

theorem layer {name : String} (free : OneLine name) : OneLine (repo.layout.layer name).raw :=
  Path.oneLine_join plain.functions free

theorem handlers : OneLine repo.layout.handlers.raw :=
  plain.layer (.literal (by decide))

theorem below {path : String} (free : OneLine path) : OneLine (repo.layout.root / (path : Path)).raw :=
  Path.oneLine_join plain.root free

theorem app : OneLine repo.layout.app.raw :=
  plain.below (.literal (by decide))

theorem collectFiles {rules : WalkRules} {accepts : String → Bool} {start : Path} (free : OneLine start.raw) :
    ∀ p ∈ repo.files.collectFiles rules accepts start, OneLine p.raw :=
  fun _ => FileSystem.oneLine_of_mem_collectFiles plain.tree free

theorem testsInside {dirs : List Path} (free : ∀ dir ∈ dirs, OneLine dir.raw) :
    ∀ p ∈ repo.testsInside dirs, OneLine p.raw := by
  intro p member
  obtain ⟨dir, inside, own⟩ := List.mem_flatMap.mp member
  exact plain.collectFiles (free dir inside) p own

theorem layerSources {layers : List String} (free : ∀ layer ∈ layers, OneLine layer) :
    ∀ p ∈ repo.layerSources layers, OneLine p.raw := by
  intro p member
  obtain ⟨layer, inside, own⟩ := List.mem_flatMap.mp member
  exact plain.collectFiles (plain.layer (free layer inside)) p own

end NamesOneLine

end Repository

namespace Pattern

theorem newline_not_mem_group? {p : Pattern} {line kept : List Char} {m : Match} {number : Nat}
    (free : '\n' ∉ line) (follows : m.Follows p (.ofText line)) (found : m.group? number = some kept) : '\n' ∉ kept :=
  fun inside => free (follows.mem_group? (p.keeps_any number) found _ inside).2

theorem newline_not_mem_text {p : Pattern} {line : List Char} {m : Match} (free : '\n' ∉ line)
    (follows : m.Follows p (.ofText line)) : '\n' ∉ m.text :=
  fun inside => free (follows.mem_text inside)

end Pattern

namespace Check

theorem oneLine_matched {pattern : Pattern} {text : List Char} {hit : Hit} (member : hit ∈ codeHits pattern text) :
    OneLine hit.matched := by
  obtain ⟨⟨number, line⟩, inside, found⟩ := List.mem_filterMap.mp member
  obtain ⟨m, own, rfl⟩ := Option.map_eq_some_iff.mp found
  have free := Text.newline_not_mem_of_mem_numberedLines (List.mem_of_mem_filter inside)
  have follows := Pattern.follows_of_find? own
  refine OneLine.ofList_iff.mpr ?_
  cases group : m.group? 1 with
  | none => exact Pattern.newline_not_mem_text free follows
  | some kept => exact Pattern.newline_not_mem_group? free follows group

end Check

end Conformance
