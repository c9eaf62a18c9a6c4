import Conformance.Proofs.Pattern.Sightings
import Conformance.Proofs.Text.LineNumbers
import Conformance.Source.Import

namespace Conformance.Source.Import

open Text

variable {text line : List Char} {form : Pattern} {x : Nat × Import}

theorem lt_byteLength_of_mem_found (known : form ∈ [fromClause, sideEffect, call])
    (member : x ∈ found text (.ofText text) form) : x.1 < byteLength text := by
  have passes : ∀ form ∈ [fromClause, sideEffect, call], form.passesSome = true := by decide
  obtain ⟨m, inside, kept⟩ := List.mem_filterMap.mp member
  obtain ⟨specifier, _, rfl⟩ := Option.map_eq_some_iff.mp kept
  exact Pattern.start_lt_of_mem_findAll (passes form known) inside

theorem line_of_mem_found {index : LineIndex} (member : x ∈ found text index form) : x.2.line = index.lineOf x.1 := by
  obtain ⟨m, _, kept⟩ := List.mem_filterMap.mp member
  obtain ⟨specifier, _, rfl⟩ := Option.map_eq_some_iff.mp kept
  rfl

theorem mem_ofText {i : Import} : i ∈ ofText text ↔
    ∃ form ∈ [fromClause, sideEffect, call], ∃ offset, (offset, i) ∈ found text (.ofText text) form ∧
      i.onCodeLine (lines text) = true := by
  simp only [ofText, mem_dropRepeats, List.mem_map, List.mem_mergeSort, List.mem_filter, List.mem_flatMap, Prod.exists]
  constructor
  · rintro ⟨offset, _, ⟨⟨form, known, member⟩, counts⟩, rfl⟩
    exact ⟨form, known, offset, member, counts⟩
  · rintro ⟨form, known, offset, member, counts⟩
    exact ⟨offset, i, ⟨⟨form, known, member⟩, counts⟩, rfl⟩

theorem mem_ofText_iff_onCodeLine (known : form ∈ [fromClause, sideEffect, call])
    (member : x ∈ found text (.ofText text) form) : x.2 ∈ ofText text ↔ x.2.onCodeLine (lines text) = true := by
  rw [mem_ofText]
  constructor
  · rintro ⟨_, _, _, _, counts⟩
    exact counts
  · exact fun counts => ⟨form, known, x.1, member, counts⟩

theorem onCodeLine_of_getElem? {i : Import} {lines : List (List Char)} (held : lines[i.line - 1]? = some line) :
    i.onCodeLine lines = !isCommentLine line := by
  rw [onCodeLine, held, Option.all_some]

/-- The number of the line at an offset is one more than the number of line feeds among the bytes below it. Below the end
of the text there is a line of that number, and the byte stands on it; so the line that decides whether a reference counts
is there, and the reference begins on it. -/
theorem line_numbers_agree (t : String) :
    (∀ o, (LineIndex.ofText t.toList).lineOf o = 1 + ((bytes t).take o).count 0x0A) ∧
    (∀ o < (bytes t).length, ∃ line, (lines t.toList)[(LineIndex.ofText t.toList).lineOf o - 1]? = some line ∧
      StandsOn t.toList o ((LineIndex.ofText t.toList).lineOf o - 1) line) ∧
    ∀ form ∈ [fromClause, sideEffect, call], ∀ x ∈ found t.toList (.ofText t.toList) form, ∃ line,
      (lines t.toList)[x.2.line - 1]? = some line ∧ StandsOn t.toList x.1 (x.2.line - 1) line ∧
      x.2.onCodeLine (lines t.toList) = !isCommentLine line ∧
      (x.2 ∈ ofText t.toList ↔ isCommentLine line = false) := by
  refine ⟨lineOf_eq_count_bytes t, fun o inside => exists_line (length_bytes t ▸ inside), fun form known x member => ?_⟩
  obtain ⟨line, held, stands⟩ := exists_line (lt_byteLength_of_mem_found known member)
  rw [← line_of_mem_found member] at held stands
  have code := onCodeLine_of_getElem? held
  refine ⟨line, held, stands, code, ?_⟩
  rw [mem_ofText_iff_onCodeLine known member, code, Bool.not_eq_true']

theorem line_numbers_agree_commented :
    let t := "import './a'\n// import('./b')\r\n"
    (LineIndex.ofText t.toList).lineOf 50 = 3 ∧
    (∃ line, (lines t.toList)[1]? = some line ∧ StandsOn t.toList 30 1 line) ∧
    (⟨"./a", 1⟩ : Import) ∈ ofText t.toList ∧ (⟨"./b", 2⟩ : Import) ∉ ofText t.toList := by
  intro t
  obtain ⟨numbers, stands, filter⟩ := line_numbers_agree t
  have second : (LineIndex.ofText t.toList).lineOf 30 = 2 := by decide +kernel
  have here := stands 30 (by decide +kernel)
  rw [second] at here
  refine ⟨(numbers 50).trans (by decide +kernel), here, ?_, ?_⟩
  · obtain ⟨line, held, _, _, counts⟩ := filter sideEffect (by simp) (0, ⟨"./a", 1⟩) (by decide +kernel)
    obtain rfl : "import './a'".toList = line := Option.some.inj (by rw [← held]; decide +kernel)
    exact counts.mpr (by decide +kernel)
  · obtain ⟨line, held, _, _, counts⟩ := filter call (by simp) (16, ⟨"./b", 2⟩) (by decide +kernel)
    obtain rfl : "// import('./b')".toList = line := Option.some.inj (by rw [← held]; decide +kernel)
    exact fun member => Bool.false_ne_true ((counts.mp member).symm.trans (by decide +kernel))

end Conformance.Source.Import
