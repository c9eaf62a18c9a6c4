import Conformance.Source.Script
import Mathlib.Data.List.TakeWhile

namespace Conformance

namespace Text

theorem takeWhile_of_edge {p : Char → Bool} {s t : List Char} (inside : ∀ c ∈ s, p c = true)
    (edge : ∀ c ∈ t.head?, p c = false) : (s ++ t).takeWhile p = s := by
  rw [List.takeWhile_append_of_pos inside]
  cases t with
  | nil => simp
  | cons c t => simp [edge c rfl]

/-- What stands behind the last stop: it is free of stops, and what stands in front of it is nothing or ends with one. -/
theorem afterLast_eq_iff {stops : Char → Bool} {s name : List Char} :
    afterLast stops s = name ↔
      (∀ c ∈ name, stops c = false) ∧ ∃ front, s = front ++ name ∧ ∀ c ∈ front.getLast?, stops c = true := by
  unfold afterLast
  constructor
  · rintro rfl
    refine ⟨fun c member => ?_, (s.reverse.dropWhile (!stops ·)).reverse, ?_, fun c last => ?_⟩
    · simpa using List.mem_takeWhile_imp (List.mem_reverse.mp member)
    · rw [← List.reverse_append, List.takeWhile_append_dropWhile, List.reverse_reverse]
    · rw [List.getLast?_reverse] at last
      have stop := List.head?_dropWhile_not (!stops ·) s.reverse
      rw [Option.mem_def.mp last] at stop
      simpa using stop
  · rintro ⟨free, front, rfl, edge⟩
    rw [List.reverse_append, takeWhile_of_edge, List.reverse_reverse]
    · intro c member
      simp [free c (List.mem_reverse.mp member)]
    · intro c first
      rw [List.head?_reverse] at first
      simp [edge c first]

end Text

namespace Source.Script

def NamesShell (word : List Char) : Prop :=
  ∃ front name, word = front ++ name ∧ (∀ c ∈ front.getLast?, c = '/') ∧ '/' ∉ name ∧
    String.ofList (name.map Char.toLower) ∈ interpreters

theorem isInterpreter_iff {word : List Char} : isInterpreter word = true ↔ NamesShell word := by
  unfold isInterpreter
  rw [List.contains_iff_mem]
  constructor
  · intro listed
    obtain ⟨free, front, whole, edge⟩ := Text.afterLast_eq_iff.mp (Eq.refl (Text.afterLast (· == '/') word))
    refine ⟨front, _, whole, fun c last => beq_iff_eq.mp (edge c last), fun slash => ?_, listed⟩
    simpa using free '/' slash
  · rintro ⟨front, name, whole, edge, free, listed⟩
    have last : Text.afterLast (· == '/') word = name := by
      refine Text.afterLast_eq_iff.mpr ⟨fun c member => ?_, front, whole, fun c last => beq_iff_eq.mpr (edge c last)⟩
      rw [beq_eq_false_iff_ne]
      rintro rfl
      exact free member
    rwa [last]

def Shebang (line : List Char) : Prop :=
  ∃ command program arguments, line = "#!".toList ++ command ∧ Text.words command = program :: arguments ∧
    (NamesShell program ∨ "/env".toList <:+ program ∧ ∃ word ∈ arguments, NamesShell word)

theorem isShebang_iff {line : List Char} : isShebang line = true ↔ Shebang line := by
  unfold isShebang Shebang
  cases lead : Text.afterLead? "#!".toList line with
  | none =>
    refine iff_of_false nofun ?_
    rintro ⟨command, _, _, whole, _⟩
    rw [Text.afterLead?_eq_some_iff.mpr whole] at lead
    cases lead
  | some command =>
    obtain rfl := Text.afterLead?_eq_some_iff.mp lead
    dsimp only
    cases cut : Text.words command with
    | nil =>
      refine iff_of_false nofun ?_
      rintro ⟨other, _, _, same, words, _⟩
      rw [← List.append_cancel_left same, cut] at words
      cases words
    | cons program arguments =>
      simp only [Bool.or_eq_true, Bool.and_eq_true, List.any_eq_true, isInterpreter_iff, Text.endsWith,
        List.isSuffixOf_iff_suffix]
      constructor
      · intro asked
        exact ⟨command, program, arguments, rfl, cut, asked⟩
      · rintro ⟨other, program', arguments', same, words, asked⟩
        rw [← List.append_cancel_left same, cut] at words
        cases words
        exact asked

end Source.Script

end Conformance
