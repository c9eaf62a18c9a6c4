import Conformance.Text.Blank
import Mathlib.Data.List.TakeWhile

namespace Conformance.Text

structure Trimmed (s : List Char) : Prop where
  first : ∀ c ∈ s.head?, isBlank c = false
  last : ∀ c ∈ s.getLast?, isBlank c = false

theorem dropWhile_of_head? {p : Char → Bool} {s : List Char} (kept : ∀ c ∈ s.head?, p c = false) : s.dropWhile p = s := by
  cases s with
  | nil => rfl
  | cons c s =>
    have refused : p c = false := kept c rfl
    exact List.dropWhile_cons_of_neg (by simp [refused])

theorem Trimmed.trim_eq {s : List Char} (h : Trimmed s) : trim s = s := by
  have back : ∀ c ∈ s.reverse.head?, isBlank c = false := by simpa using h.last
  rw [trim, trimStart, dropWhile_of_head? h.first, trimEnd, dropWhile_of_head? back, List.reverse_reverse]

theorem trim_of_solid {s : List Char} (solid : ∀ c ∈ s, isBlank c = false) : trim s = s :=
  Trimmed.trim_eq ⟨fun c first => solid c (List.mem_of_mem_head? first), fun c last => solid c (List.mem_of_mem_getLast? last)⟩

theorem not_blank_of_head?_dropWhile {s : List Char} {c : Char} (first : c ∈ (s.dropWhile isBlank).head?) :
    isBlank c = false := by
  have stop := List.head?_dropWhile_not isBlank s
  rw [Option.mem_def.mp first] at stop
  simpa using stop

theorem trimmed_trim (s : List Char) : Trimmed (trim s) where
  first c first := by
    -- what is left of the text turned round ends as that text does
    obtain ⟨dropped, whole⟩ := List.dropWhile_suffix (l := (trimStart s).reverse) isBlank
    have own : c ∈ ((trimStart s).reverse.dropWhile isBlank).getLast? := by simpa [trim, trimEnd] using first
    have turned : c ∈ (trimStart s).reverse.getLast? := by
      rw [← whole, List.getLast?_append, Option.mem_def.mp own]
      rfl
    rw [List.getLast?_reverse] at turned
    exact not_blank_of_head?_dropWhile turned
  last c last := by
    rw [trim, trimEnd, List.getLast?_reverse] at last
    exact not_blank_of_head?_dropWhile last

theorem trim_eq_nil_iff {s : List Char} : trim s = [] ↔ ∀ c ∈ s, isBlank c = true := by
  constructor
  · intro none c member
    have later : ∀ d ∈ s.dropWhile isBlank, isBlank d = true := by
      simpa [trim, trimStart, trimEnd, List.dropWhile_eq_nil_iff] using none
    rw [← List.takeWhile_append_dropWhile (p := isBlank) (l := s), List.mem_append] at member
    exact member.elim List.mem_takeWhile_imp (later c)
  · intro blank
    rw [trim, trimStart, List.dropWhile_eq_nil_iff.mpr blank]
    rfl

theorem trim_trim (s : List Char) : trim (trim s) = trim s :=
  (trimmed_trim s).trim_eq

end Conformance.Text
