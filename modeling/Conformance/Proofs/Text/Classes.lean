import Conformance.Text.Blank
import Conformance.Text.Word
import Mathlib.Data.List.Basic

namespace Conformance.Text

def blankCodes : List Nat :=
  blankRanges.flatMap fun r => List.range' r.first (r.last + 1 - r.first)

theorem of_isBlank {p : Char → Bool} (all : ∀ n ∈ blankCodes, p (Char.ofNat n) = false) {c : Char}
    (blank : isBlank c = true) : p c = false := by
  have listed : c.toNat ∈ blankCodes := by
    obtain ⟨r, member, holds⟩ := List.any_eq_true.mp blank
    rw [CodeRange.holds_iff] at holds
    refine List.mem_flatMap.mpr ⟨r, member, ?_⟩
    rw [List.mem_range'_1]
    omega
  rw [← Char.ofNat_toNat c]
  exact all _ listed

theorem of_ascii {p : Char → Bool} (all : ∀ n < 128, p (Char.ofNat n) = true) {c : Char} (small : c.toNat < 128) :
    p c = true := by
  have own := all c.toNat small
  rwa [Char.ofNat_toNat] at own

theorem inRanges_of_apart {rs ss : List CodeRange} {c : Char}
    (apart : (rs.all fun r => ss.all fun s => Nat.blt r.last s.first || Nat.blt s.last r.first) = true)
    (inside : inRanges rs c = true) : inRanges ss c = false := by
  obtain ⟨r, listed, holds⟩ := List.any_eq_true.mp inside
  rw [Bool.eq_false_iff]
  intro inside'
  obtain ⟨s, listed', holds'⟩ := List.any_eq_true.mp inside'
  have away := List.all_eq_true.mp (List.all_eq_true.mp apart r listed) s listed'
  rw [Bool.or_eq_true, Nat.blt_eq, Nat.blt_eq] at away
  rw [CodeRange.holds_iff] at holds holds'
  omega

theorem isWord_of_isBlank {c : Char} (blank : isBlank c = true) : isWord c = false := by
  rw [isWord]
  split
  · exact of_isBlank (p := fun c => c.isAlphanum || c == '_') (by decide) blank
  · exact inRanges_of_apart (by decide +kernel) blank

theorem isDecimal_of_isBlank {c : Char} (blank : isBlank c = true) : isDecimal c = false := by
  rw [isDecimal]
  split
  · exact of_isBlank (p := Char.isDigit) (by decide) blank
  · exact inRanges_of_apart (by decide +kernel) blank

theorem isBlank_of_isDecimal {c : Char} (decimal : isDecimal c = true) : isBlank c = false := by
  rw [Bool.eq_false_iff]
  intro blank
  exact Bool.false_ne_true ((isDecimal_of_isBlank blank).symm.trans decimal)

theorem isBlank_of_isWord {c : Char} (word : isWord c = true) : isBlank c = false := by
  rw [Bool.eq_false_iff]
  intro blank
  rw [isWord_of_isBlank blank] at word
  cases word

theorem toNat_lt_of_isAlphanum {c : Char} (letter : c.isAlphanum = true) : c.toNat < 128 := by
  change ((decide (65 ≤ c.val ∧ c.val ≤ 90) || (decide (97 ≤ c.val) && decide (c.val ≤ 122))) ||
    (decide (48 ≤ c.val) && decide (c.val ≤ 57))) = true at letter
  simp only [Bool.or_eq_true, Bool.and_eq_true, decide_eq_true_eq, UInt32.le_iff_toNat_le] at letter
  change ((65 ≤ c.toNat ∧ c.toNat ≤ 90) ∨ (97 ≤ c.toNat ∧ c.toNat ≤ 122)) ∨ (48 ≤ c.toNat ∧ c.toNat ≤ 57) at letter
  omega

theorem isWord_of_isAlphanum {c : Char} (letter : c.isAlphanum = true) : isWord c = true := by
  rw [isWord, if_pos (toNat_lt_of_isAlphanum letter), letter]
  rfl

end Conformance.Text
