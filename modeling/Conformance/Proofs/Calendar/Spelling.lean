import Conformance.Proofs.Calendar.Succession
import Mathlib.Data.List.TakeWhile

namespace Conformance

def padded : Nat → Nat → List Char
  | 0, _ => []
  | width + 1, n => padded width (n / 10) ++ [Nat.digitChar (n % 10)]

def Fits : Nat → Nat → Prop
  | 0, n => n = 0
  | width + 1, n => Fits width (n / 10)

section Padded

variable {width n : Nat}

theorem isDigit_digitChar {d : Nat} (small : d < 10) : (Nat.digitChar d).isDigit = true := by
  revert small
  revert d
  decide

@[simp] theorem length_padded (width n : Nat) : (padded width n).length = width := by
  induction width generalizing n with
  | zero => rfl
  | succ width ih => rw [padded, List.length_append, ih, List.length_singleton]

theorem isDigit_of_mem_padded {c : Char} (member : c ∈ padded width n) : c.isDigit = true := by
  induction width generalizing n with
  | zero => cases member
  | succ width ih =>
    rcases List.mem_append.mp member with front | last
    · exact ih front
    · obtain rfl := List.mem_singleton.mp last
      exact isDigit_digitChar (Nat.mod_lt n (by decide))

theorem foldl_padded (fits : Fits width n) :
    (padded width n).foldl (fun k c => 10 * k + (c.toNat - '0'.toNat)) 0 = n := by
  induction width generalizing n with
  | zero => exact Eq.symm fits
  | succ width ih =>
    have last : (Nat.digitChar (n % 10)).toNat - '0'.toNat = n % 10 := by
      rw [Nat.toNat_digitChar_of_lt_ten (Nat.mod_lt n (by decide)), show '0'.toNat = 48 from rfl, Nat.add_sub_cancel_left]
    rw [padded, List.foldl_append, ih fits, List.foldl_cons, List.foldl_nil, last]
    exact Nat.div_add_mod n 10

end Padded

namespace Date

/-- The parts of the date have no more digits than there is room for. -/
structure Writable (d : Date) : Prop where
  year : 0 ≤ d.year ∧ d.year ≤ 9999
  month : d.month ≤ 99
  day : d.day ≤ 99

instance (d : Date) : Decidable d.Writable :=
  decidable_of_iff ((0 ≤ d.year ∧ d.year ≤ 9999) ∧ d.month ≤ 99 ∧ d.day ≤ 99)
    ⟨fun h => ⟨h.1, h.2.1, h.2.2⟩, fun h => ⟨h.year, h.month, h.day⟩⟩

def written (d : Date) : List Char :=
  padded 4 d.year.toNat ++ '-' :: (padded 2 d.month ++ '-' :: padded 2 d.day)

theorem leadingNumber_padded {width n : Nat} (some : width ≠ 0) (fits : Fits width n) (rest : List Char) :
    leadingNumber width (padded width n ++ rest) = .ok (n, rest) := by
  have front : (padded width n ++ rest).take width = padded width n :=
    List.take_left' (length_padded width n)
  have digits : (padded width n).takeWhile Char.isDigit = padded width n :=
    List.takeWhile_eq_self_iff.mpr fun _ member => isDigit_of_mem_padded member
  have present : (padded width n).isEmpty = false := by
    rw [List.isEmpty_eq_false_iff, ← List.length_pos_iff, length_padded]
    exact Nat.pos_of_ne_zero some
  rw [leadingNumber, front, digits]
  simp only [present, Bool.false_eq_true, if_false, foldl_padded fits, length_padded]
  rw [List.drop_left' (length_padded width n)]

theorem fits_two {n : Nat} (small : n ≤ 99) : Fits 2 n := by
  simp only [Fits]
  omega

theorem fits_four {n : Nat} (small : n ≤ 9999) : Fits 4 n := by
  simp only [Fits]
  omega

theorem within_eq {low high n : Nat} : within low high n = if low ≤ n ∧ n ≤ high then .ok n else .error .outOfRange := by
  simp [within]

theorem monthLength_le (year : Int) (month : Nat) : monthLength year month ≤ 31 := by
  unfold monthLength
  split
  · split <;> omega
  all_goals omega

/-- A written date is read as the date, if the calendar has it. -/
theorem parse_spelled {d : Date} (writable : d.Writable) :
    parse d.written = if d.isValid then .ok d else .error .outOfRange := by
  obtain ⟨year, month, day⟩ := d
  obtain ⟨⟨start, stop⟩, monthFits, dayFits⟩ := writable
  dsimp only at start stop monthFits dayFits
  have readYear := leadingNumber_padded (by decide) (fits_four (n := year.toNat) (by omega))
  have readMonth := leadingNumber_padded (by decide) (fits_two monthFits)
  have readDay := leadingNumber_padded (by decide) (fits_two dayFits) []
  rw [List.append_nil] at readDay
  have same : ((year.toNat : Nat) : Int) = year := Int.toNat_of_nonneg start
  simp only [parse, written, bind, Except.bind, readYear, afterHyphen, readMonth, within_eq]
  by_cases inYear : 1 ≤ month ∧ month ≤ 12
  · rw [if_pos inYear]
    simp only [readDay]
    by_cases inMonth : 1 ≤ day ∧ day ≤ 31
    · rw [if_pos inMonth]
      simp [same, pure, Except.pure, throw, throwThe, MonadExceptOf.throw]
    · have invalid : isValid ⟨year, month, day⟩ = false := by
        refine Bool.eq_false_iff.mpr fun valid => inMonth ?_
        obtain ⟨_, _, begun, ended⟩ := isValid_iff.mp valid
        exact ⟨begun, Nat.le_trans ended (monthLength_le year month)⟩
      rw [if_neg inMonth, invalid]
      rfl
  · have invalid : isValid ⟨year, month, day⟩ = false := by
      refine Bool.eq_false_iff.mpr fun valid => inYear ?_
      obtain ⟨first, last, _, _⟩ := isValid_iff.mp valid
      exact ⟨first, last⟩
    rw [if_neg inYear, invalid]
    rfl

end Date

end Conformance
