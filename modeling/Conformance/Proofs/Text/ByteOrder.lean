import Mathlib.Data.List.Basic

namespace Conformance.Text

def bytes (s : String) : List UInt8 :=
  s.toUTF8.data.toList

theorem bytes_eq (s : String) : bytes s = s.toList.flatMap String.utf8EncodeChar := by
  have whole : s.toUTF8 = s.toList.utf8Encode := by
    rw [String.toUTF8_eq_toByteArray, ← String.toByteArray_ofList, String.ofList_toList]
  rw [bytes, whole, List.utf8Encode, List.toList_data_toByteArray]

/-- A smaller character has smaller bytes, whatever stands behind the two. -/
theorem utf8EncodeChar_append_lt {a b : Char} (smaller : a < b) (x y : List UInt8) :
    String.utf8EncodeChar a ++ x < String.utf8EncodeChar b ++ y := by
  have below : a.val.toNat < b.val.toNat := smaller
  have bound : b.val.toNat < 0x110000 := by
    have valid := b.valid
    simp only [UInt32.isValidChar, Nat.isValidChar] at valid
    omega
  have digits : ∀ v : Nat, v / 4096 = v / 64 / 64 ∧ v / 262144 = v / 64 / 64 / 64 := fun v => by omega
  unfold String.utf8EncodeChar
  generalize a.val.toNat = m at *
  generalize b.val.toNat = n at *
  dsimp only
  simp only [(digits m).1, (digits m).2, (digits n).1, (digits n).2]
  -- one case for each pair of lengths
  split_ifs <;> simp only [List.cons_append, List.nil_append, List.cons_lt_cons_iff, UInt8.lt_iff_toNat_lt,
    ← UInt8.toNat_inj, UInt8.toNat_ofNat']
  all_goals omega

theorem flatMap_utf8EncodeChar_lt {s t : List Char} (smaller : s < t) :
    s.flatMap String.utf8EncodeChar < t.flatMap String.utf8EncodeChar := by
  induction smaller with
  | @nil c t =>
    obtain ⟨b, more, own⟩ := List.exists_cons_of_ne_nil (String.utf8EncodeChar_ne_nil (c := c))
    rw [List.flatMap_cons, own]
    exact .nil
  | rel smaller => exact utf8EncodeChar_append_lt smaller _ _
  | cons _ ih => exact List.append_left_lt ih

theorem bytes_lt_iff {s t : String} : bytes s < bytes t ↔ s < t := by
  have mono : ∀ {s t : String}, s < t → bytes s < bytes t := by
    intro s t smaller
    rw [bytes_eq, bytes_eq]
    exact flatMap_utf8EncodeChar_lt smaller
  refine ⟨fun smaller => ?_, mono⟩
  rcases Decidable.em (s < t) with below | notBelow
  · exact below
  · rcases Decidable.em (t < s) with above | notAbove
    · exact absurd smaller (List.lt_asymm (mono above))
    · rw [String.le_antisymm notAbove notBelow] at smaller
      exact absurd smaller (List.lt_irrefl _)

end Conformance.Text
