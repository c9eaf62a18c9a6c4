import Conformance.Report.Render
import Conformance.Text.Plain

namespace Conformance

namespace Text

/-- The text behind a part of an escape sequence, without such sequences: what an escape character begins is left out up to
where it ends, and nothing else is. -/
def unescapedFrom : Control → List Char → List Char
  | _, [] => []
  | .ground, c :: rest => if c = '\x1b' then unescapedFrom .escape rest else c :: unescapedFrom .ground rest
  | s, c :: rest => unescapedFrom (s.next c) rest

def unescaped (text : List Char) : List Char :=
  unescapedFrom .ground text

theorem unescaped_append {s : List Char} (free : '\x1b' ∉ s) (t : List Char) : unescaped (s ++ t) = s ++ unescaped t := by
  induction s with
  | nil => rfl
  | cons c s ih =>
    have other : c ≠ '\x1b' := fun same => free (by simp [same])
    have later := ih fun member => free (List.mem_cons_of_mem c member)
    rw [List.cons_append, unescaped, unescapedFrom, if_neg other]
    exact congrArg (c :: ·) later

theorem escape_not_mem_toDigits (n : Nat) : '\x1b' ∉ Nat.toDigits 10 n := by
  intro inside
  have digit := Nat.isDigit_of_mem_toDigits (by decide) (by decide) inside
  exact absurd digit (by decide)

end Text

namespace Style

theorem unescaped_escape (style : Style) (t : List Char) :
    Text.unescaped (style.escape.toList ++ t) = Text.unescaped t := by
  cases style <;> rfl

theorem unescaped_reset (t : List Char) : Text.unescaped (reset.toList ++ t) = Text.unescaped t := rfl

end Style

namespace Piece

variable {pieces : List Piece}

theorem unescaped_render {piece : Piece} (free : '\x1b' ∉ piece.text.toList) (t : List Char) :
    Text.unescaped ((piece.render true).toList ++ t) = piece.text.toList ++ Text.unescaped t := by
  obtain ⟨text, style⟩ := piece
  cases style with
  | none => exact Text.unescaped_append free t
  | some style =>
    simp only [render, String.toList_append, List.append_assoc]
    rw [style.unescaped_escape, Text.unescaped_append free, Style.unescaped_reset]

@[simp] theorem render_false (piece : Piece) : piece.render false = piece.text := by
  obtain ⟨text, style⟩ := piece
  cases style <;> rfl

theorem toList_renderAll (colored : Bool) (pieces : List Piece) :
    (renderAll colored pieces).toList = pieces.flatMap fun piece => (piece.render colored).toList := by
  simp [renderAll, List.flatMap_map]

theorem unescaped_renderAll (free : ∀ piece ∈ pieces, '\x1b' ∉ piece.text.toList) :
    Text.unescaped (renderAll true pieces).toList = (renderAll false pieces).toList := by
  simp only [toList_renderAll]
  induction pieces with
  | nil => rfl
  | cons piece pieces ih =>
    obtain ⟨own, others⟩ := List.forall_mem_cons.mp free
    rw [List.flatMap_cons, List.flatMap_cons, unescaped_render own, ih others, render_false]

theorem escape_not_mem_renderAll (free : ∀ piece ∈ pieces, '\x1b' ∉ piece.text.toList) :
    '\x1b' ∉ (renderAll false pieces).toList := by
  rw [toList_renderAll]
  intro inside
  obtain ⟨piece, listed, member⟩ := List.mem_flatMap.mp inside
  rw [render_false] at member
  exact free piece listed member

end Piece

structure CheckResult.EscapeFree (r : CheckResult) : Prop where
  name : '\x1b' ∉ r.name.toList
  violations : ∀ v ∈ r.violations, '\x1b' ∉ v.toList

namespace Report

theorem free_header : ∀ piece ∈ header, '\x1b' ∉ piece.text.toList := by
  simp [header]

theorem free_result {r : CheckResult} (free : r.EscapeFree) : ∀ piece ∈ result r, '\x1b' ∉ piece.text.toList := by
  have name := free.name
  cases passed : r.passed with
  | true => simp [result, passed, name, toString]
  | false =>
    simp only [result, passed, Bool.false_eq_true, if_false, List.forall_mem_append]
    refine ⟨⟨?_, ?_⟩, ?_⟩
    · simp [name, toString, Text.escape_not_mem_toDigits]
    · intro piece member
      obtain ⟨v, inside, own⟩ := List.mem_flatMap.mp member
      have text := free.violations v inside
      simp only [List.mem_cons, List.not_mem_nil, or_false] at own
      rcases own with rfl | rfl | rfl
      · decide
      · exact text
      · decide
    · simp

theorem free_warning {f : Freshness} (free : '\x1b' ∉ f.message.toList) :
    ∀ piece ∈ warning f, '\x1b' ∉ piece.text.toList := by
  unfold warning
  split
  · simp [free]
  · simp

theorem free_summary (results : List CheckResult) : ∀ piece ∈ summary results, '\x1b' ∉ piece.text.toList := by
  by_cases passed : CheckResult.failures results = 0
  · simp [summary, passed, toString, Text.escape_not_mem_toDigits]
  · simp [summary, passed, toString, Text.escape_not_mem_toDigits]

theorem free_pieces {results : List CheckResult} {freshness : Freshness} (free : ∀ r ∈ results, r.EscapeFree)
    (message : '\x1b' ∉ freshness.message.toList) : ∀ piece ∈ pieces results freshness, '\x1b' ∉ piece.text.toList := by
  simp only [pieces, List.forall_mem_append]
  refine ⟨⟨⟨free_header, fun piece member => ?_⟩, free_warning message⟩, free_summary results⟩
  obtain ⟨r, listed, own⟩ := List.mem_flatMap.mp member
  exact free_result (free r listed) piece own

/-- Colour adds escape sequences and nothing else: without them the report in colour is the plain one, which has no escape
character. -/
theorem unescaped_colored {results : List CheckResult} {freshness : Freshness} (free : ∀ r ∈ results, r.EscapeFree)
    (message : '\x1b' ∉ freshness.message.toList) :
    Text.unescaped (render true results freshness).toList = (render false results freshness).toList ∧
      '\x1b' ∉ (render false results freshness).toList :=
  ⟨Piece.unescaped_renderAll (free_pieces free message), Piece.escape_not_mem_renderAll (free_pieces free message)⟩

def sampleResults : List CheckResult :=
  [.ofViolations "Layers" [], .ofViolations "Tests" ["a.ts:1 bad\n    Rule: no", "b.ts:2 bad"]]

theorem sampleResults_colored :
    (∀ r ∈ sampleResults, r.EscapeFree) ∧
      Text.unescaped (render true sampleResults (.outdated "Too old")).toList =
        (render false sampleResults (.outdated "Too old")).toList ∧
      '\x1b' ∉ (render false sampleResults (.outdated "Too old")).toList := by
  have free : ∀ r ∈ sampleResults, r.EscapeFree := by
    simp only [sampleResults, List.forall_mem_cons]
    exact ⟨⟨by decide, by decide⟩, ⟨by decide, by decide⟩, by simp⟩
  exact ⟨free, unescaped_colored free (by decide)⟩

end Report

end Conformance
