import Conformance.Calendar
import Mathlib.Logic.Function.Iterate

namespace Conformance.Date

/-- The day after: the next of the month, or the first of the next month, or the first of the next year. -/
def next (d : Date) : Date :=
  if d.day < monthLength d.year d.month then { d with day := d.day + 1 }
  else if d.month < 12 then ⟨d.year, d.month + 1, 1⟩
  else ⟨d.year + 1, 1, 1⟩

instance : LT Date where
  lt a b := a.year < b.year ∨ a.year = b.year ∧ (a.month < b.month ∨ a.month = b.month ∧ a.day < b.day)

theorem lt_def {a b : Date} :
    a < b ↔ a.year < b.year ∨ a.year = b.year ∧ (a.month < b.month ∨ a.month = b.month ∧ a.day < b.day) :=
  Iff.rfl

instance (a b : Date) : Decidable (a < b) :=
  decidable_of_iff _ lt_def.symm

theorem isValid_iff {d : Date} :
    d.isValid = true ↔ 1 ≤ d.month ∧ d.month ≤ 12 ∧ 1 ≤ d.day ∧ d.day ≤ monthLength d.year d.month := by
  simp only [isValid, Bool.and_eq_true, decide_eq_true_eq, and_assoc]

theorem monthLength_pos (year : Int) (month : Nat) : 1 ≤ monthLength year month := by
  unfold monthLength
  split
  · split <;> omega
  all_goals omega

theorem monthLength_last (year : Int) : monthLength year 12 = 31 := rfl

theorem daysBeforeMonth_succ (year : Int) {month : Nat} (counted : 1 ≤ month) :
    daysBeforeMonth year (month + 1) = daysBeforeMonth year month + monthLength year month := by
  obtain ⟨m, rfl⟩ := Nat.exists_eq_add_of_le' counted
  simp only [daysBeforeMonth, Nat.add_sub_cancel]
  rw [List.range'_concat, List.map_append, total_append]
  simp [Nat.add_comm]

theorem daysBeforeMonth_last (year : Int) : daysBeforeMonth year 12 = 334 + if isLeap year then 1 else 0 := by
  cases leap : isLeap year <;> simp [daysBeforeMonth, List.range', monthLength, leap]

theorem daysBeforeYear_succ (year : Int) :
    daysBeforeYear (year + 1) = daysBeforeYear year + 365 + if isLeap year then 1 else 0 := by
  have rule : isLeap year = true ↔ year % 4 = 0 ∧ (year % 100 ≠ 0 ∨ year % 400 = 0) := by simp [isLeap]
  simp only [daysBeforeYear, Int.add_sub_cancel]
  split
  · rename_i leap
    have := rule.mp leap
    omega
  · rename_i leap
    have := mt rule.mpr leap
    omega

section Next

variable {d : Date}

theorem isValid_next (valid : d.isValid = true) : d.next.isValid = true := by
  obtain ⟨first, last, begun, ended⟩ := isValid_iff.mp valid
  unfold next
  split
  · exact isValid_iff.mpr ⟨first, last, Nat.le_add_left 1 _, by assumption⟩
  · split
    · exact isValid_iff.mpr ⟨Nat.le_add_left 1 _, by assumption, Nat.le_refl 1, monthLength_pos _ _⟩
    · exact isValid_iff.mpr ⟨Nat.le_refl 1, Nat.le_add_left 1 11, Nat.le_refl 1, monthLength_pos _ _⟩

theorem dayNumber_next (valid : d.isValid = true) : d.next.dayNumber = d.dayNumber + 1 := by
  obtain ⟨first, last, begun, ended⟩ := isValid_iff.mp valid
  unfold next
  split
  · simp only [dayNumber]
    omega
  · rename_i atEnd
    have lastDay : d.day = monthLength d.year d.month := by omega
    split
    · simp only [dayNumber, daysBeforeMonth_succ d.year first, lastDay]
      omega
    · -- behind the 31st of December
      have december : d.month = 12 := by omega
      have opening : daysBeforeMonth (d.year + 1) 1 = 0 := rfl
      have long : d.day = 31 := by rw [lastDay, december, monthLength_last]
      simp only [dayNumber, daysBeforeYear_succ, opening, december, daysBeforeMonth_last, long]
      split <;> omega

theorem isValid_iterate_next (valid : d.isValid = true) (n : Nat) : (next^[n] d).isValid = true := by
  induction n with
  | zero => exact valid
  | succ n ih =>
    rw [Function.iterate_succ_apply']
    exact isValid_next ih

theorem dayNumber_iterate_next (valid : d.isValid = true) (n : Nat) : (next^[n] d).dayNumber = d.dayNumber + n := by
  induction n with
  | zero => simp
  | succ n ih =>
    rw [Function.iterate_succ_apply', dayNumber_next (isValid_iterate_next valid n), ih]
    omega

theorem daysUntil_iterate_next (valid : d.isValid = true) (n : Nat) : d.daysUntil (next^[n] d) = n := by
  rw [daysUntil, dayNumber_iterate_next valid]
  omega

end Next

section Order

variable {a b : Date}

theorem daysBeforeMonth_mono (year : Int) {month later : Nat} (counted : 1 ≤ month) (ordered : month < later) :
    daysBeforeMonth year month + monthLength year month ≤ daysBeforeMonth year later := by
  induction ordered with
  | refl => exact Nat.le_of_eq (daysBeforeMonth_succ year counted).symm
  | step further ih =>
    have passed : 1 ≤ _ := Nat.le_trans (Nat.succ_le_succ (Nat.zero_le _)) further
    rw [Nat.succ_eq_add_one, daysBeforeMonth_succ year passed]
    exact Nat.le_trans ih (Nat.le_add_right _ _)

theorem daysBeforeYear_mono {year later : Int} (ordered : year ≤ later) : daysBeforeYear year ≤ daysBeforeYear later := by
  simp only [daysBeforeYear]
  omega

theorem dayNumber_le (valid : a.isValid = true) : a.dayNumber ≤ daysBeforeYear (a.year + 1) := by
  obtain ⟨first, last, _, ended⟩ := isValid_iff.mp valid
  have whole := daysBeforeMonth_last a.year
  have inMonth : daysBeforeMonth a.year a.month + a.day ≤ daysBeforeMonth a.year 12 + 31 := by
    rcases Nat.lt_or_eq_of_le last with earlier | december
    · have within := daysBeforeMonth_mono a.year first earlier
      omega
    · rw [december, monthLength_last] at ended
      rw [december]
      omega
  rw [daysBeforeYear_succ, dayNumber]
  by_cases leap : isLeap a.year = true
  · rw [if_pos leap] at whole ⊢
    omega
  · rw [if_neg leap] at whole ⊢
    omega

theorem dayNumber_lt_of_lt (valid : a.isValid = true) (valid' : b.isValid = true) (earlier : a < b) :
    a.dayNumber < b.dayNumber := by
  obtain ⟨first, _, _, ended⟩ := isValid_iff.mp valid
  obtain ⟨_, _, begun, _⟩ := isValid_iff.mp valid'
  rcases lt_def.mp earlier with year | ⟨year, month | ⟨month, day⟩⟩
  · have own := dayNumber_le valid
    have between := daysBeforeYear_mono (show a.year + 1 ≤ b.year by omega)
    have behind : daysBeforeYear b.year < b.dayNumber := by
      rw [dayNumber]
      omega
    omega
  · have between := daysBeforeMonth_mono a.year first month
    rw [dayNumber, dayNumber, ← year]
    omega
  · rw [dayNumber, dayNumber, ← year, ← month]
    omega

end Order

end Conformance.Date
