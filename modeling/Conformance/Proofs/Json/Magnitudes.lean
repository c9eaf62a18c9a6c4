import Conformance.Proofs.Json.Ranges

namespace Conformance.Json

open Binary

section Scaling

theorem lt_of_le_bits {x : ℚ} (small : x ≤ 2 * 2 ^ (66 : ℤ)) : x < 2 ^ (1023 : ℤ) := by
  refine small.trans_lt ?_
  rw [mul_comm, ← zpow_add_one₀ (by norm_num), zpow_lt_zpow_iff_right₀ (by norm_num)]
  norm_num

/-- Dividing by powers of ten never overflows. -/
theorem isSome_scale?_of_nonpos (limit : Nat) {b : Binary} {exponent : Int} (down : exponent ≤ 0)
    (small : b.value ≤ 2 ^ (66 : ℤ)) : (scale? limit b exponent).isSome = true := by
  induction limit generalizing b exponent with
  | zero => rfl
  | succ limit ih =>
    have nonneg := b.value_nonneg
    have divides : ∀ {p : Binary}, 2 ≤ p.value → (b.div? p).isSome = true := by
      intro p least
      have smaller := div_le_self nonneg (by linarith only [least])
      exact isSome_div? (by linarith only [least]) (lt_of_le_bits ((smaller.trans small).trans (by norm_num)))
    rw [scale?]
    split
    · rename_i near
      obtain ⟨p, power, least, most⟩ := exists_powerOfTen?_eq near
      simp only [power, Option.bind_eq_bind, Option.bind_some]
      split
      · rename_i up
        have zero : exponent = 0 := by omega
        rw [zero, Int.natAbs_zero, pow_zero, mul_one] at most
        refine isSome_mul? (lt_of_le_bits ?_)
        rw [mul_comm]
        gcongr
      · exact divides (two_le_value_of_powerOfTen (by omega) least)
    · rename_i far
      split
      · rfl
      · rw [if_neg (by omega)]
        obtain ⟨p, power, least, _⟩ := exists_powerOfTen?_eq (Nat.le_refl 308)
        have least := two_le_value_of_powerOfTen (by norm_num) least
        have pos : 0 < p.value := by linarith only [least]
        obtain ⟨c, divided⟩ := Option.isSome_iff_exists.mp (divides least)
        simp only [power, divided, Option.bind_eq_bind, Option.bind_some]
        have halved : 2 * (b.value / p.value) ≤ b.value := by
          rw [← mul_div_assoc, div_le_iff₀ pos, mul_comm]
          gcongr
        exact ih (by omega) (((value_le_of_div? pos divided).trans halved).trans small)

theorem ten_lt_two : (8 : ℚ) * 10 ^ (307 : ℤ) < 2 ^ (1023 : ℤ) := by
  have small : 8 * tenTo 307 < twoTo 1023 := by decide +kernel
  have cast : ((8 * tenTo 307 : Nat) : ℚ) < twoTo 1023 := Nat.cast_lt.mpr small
  rwa [cast_twoTo, Nat.cast_mul, cast_tenTo] at cast

/-- A significand of 64 bits is scaled without overflow if the number is at most `2 * 10 ^ 307`. -/
theorem finite_of_le {significand : Nat} {exponent : Int} (bits : significand ≤ maxNatural)
    (small : (significand : ℚ) * 10 ^ exponent ≤ 2 * 10 ^ (307 : ℤ)) : Finite significand exponent := by
  have width : (significand : ℚ) ≤ 2 ^ (64 : ℤ) := by
    have top : significand ≤ 2 ^ 64 := bits.trans (by decide)
    exact_mod_cast top
  have wide : 2 * (significand : ℚ) ≤ 2 ^ (66 : ℤ) := by
    rw [show (66 : ℤ) = 64 + 2 by norm_num, zpow_add₀ (by norm_num)]
    linarith only [width, zpow_pos (show (0 : ℚ) < 2 by norm_num) 64]
  have room : ((significand : ℚ) / (1 : Nat)) < 2 ^ (1023 : ℤ) := by
    rw [Nat.cast_one, div_one]
    exact lt_of_le_bits (by linarith only [wide, (Nat.cast_nonneg significand : (0 : ℚ) ≤ _)])
  obtain ⟨b, rounded⟩ := Option.isSome_iff_exists.mp (isSome_round? Nat.one_pos room)
  have bound := value_le_of_round? Nat.one_pos rounded
  rw [Nat.cast_one, div_one] at bound
  rw [Finite, rounded, Option.bind_some]
  have limit := ten_lt_two
  have hundredfold : (10 : ℚ) ^ (309 : ℤ) = 10 ^ (307 : ℤ) * 10 ^ (2 : ℤ) := zpow_add₀ (by norm_num) 307 2
  have pos : (0 : ℚ) < 10 ^ (307 : ℤ) := zpow_pos (by norm_num) 307
  generalize (10 : ℚ) ^ (307 : ℤ) = top at small limit hundredfold pos
  by_cases down : exponent ≤ 0
  · exact isSome_scale?_of_nonpos _ down (bound.trans wide)
  · rw [scale?]
    split
    · rename_i near
      obtain ⟨p, power, _, most⟩ := exists_powerOfTen?_eq near
      simp only [power, Option.bind_eq_bind, Option.bind_some]
      rw [if_pos (by omega)]
      refine isSome_mul? (lt_of_le_of_lt ?_ limit)
      have up : (10 : ℚ) ^ exponent.natAbs = 10 ^ exponent := by
        rw [← zpow_natCast, Int.natAbs_of_nonneg (by omega)]
      rw [up] at most
      calc b.value * p.value ≤ 2 * significand * (2 * 10 ^ exponent) :=
            mul_le_mul bound most p.value_nonneg (mul_nonneg zero_le_two significand.cast_nonneg)
        _ = 4 * (significand * 10 ^ exponent) := by ring
        _ ≤ 8 * top := by linarith only [small]
    · rename_i far
      split
      · rfl
      · rename_i nonzero
        -- a significand that is not zero would make the number too large
        have some : 1 ≤ significand := by
          by_contra none
          rw [Nat.lt_one_iff.mp (Nat.lt_of_not_le none), round?, if_pos rfl] at rounded
          obtain rfl := Option.some.inj rounded
          exact nonzero rfl
        have large : (10 : ℚ) ^ (309 : ℤ) ≤ 10 ^ exponent := zpow_le_zpow_right₀ (by norm_num) (by omega)
        have whole : (10 : ℚ) ^ exponent ≤ significand * 10 ^ exponent :=
          le_mul_of_one_le_left (by positivity) (by exact_mod_cast some)
        have bound := (hundredfold ▸ large).trans (whole.trans small)
        norm_num at bound
        linarith only [bound, pos]

end Scaling

section Digits

variable {ds fs es l l' t : List Char}

theorem foldl_digits (n : Nat) (ds : List Char) :
    ds.foldl (fun n c => n * 10 + digitValue c) n = n * 10 ^ ds.length + valueOf ds := by
  induction ds generalizing n with
  | nil => simp [valueOf]
  | cons c ds ih =>
    rw [valueOf, List.foldl_cons, List.foldl_cons, ih, ih (0 * 10 + digitValue c), List.length_cons, pow_succ]
    ring

theorem valueOf_append (ds fs : List Char) : valueOf (ds ++ fs) = valueOf ds * 10 ^ fs.length + valueOf fs := by
  rw [valueOf, List.foldl_append, foldl_digits]
  rfl

theorem digitValue_le {c : Char} (digit : c.isDigit = true) : digitValue c ≤ 9 := by
  simp only [Char.isDigit, Bool.and_eq_true, decide_eq_true_eq] at digit
  have last : c.toNat ≤ 57 := UInt32.le_iff_toNat_le.mp digit.2
  have zero : '0'.toNat = 48 := rfl
  rw [digitValue, zero]
  omega

theorem valueOf_lt (digits : ∀ c ∈ ds, c.isDigit = true) : valueOf ds < 10 ^ ds.length := by
  induction ds with
  | nil => simp [valueOf]
  | cons c ds ih =>
    have more := ih fun d member => digits d (by simp [member])
    have own := digitValue_le (digits c (by simp))
    have cut := valueOf_append [c] ds
    have first : valueOf [c] = digitValue c := by simp [valueOf]
    rw [List.singleton_append, first] at cut
    rw [cut, List.length_cons, pow_succ]
    nlinarith

/-- Digits are taken from the front; one that is not taken would go beyond 64 bits. -/
theorem exists_takeDigits_eq {n : Nat} (fits : n ≤ maxNatural) (taken : Nat) (ds : List Char) :
    ∃ front back, ds = front ++ back ∧ n * 10 ^ front.length + valueOf front ≤ maxNatural ∧
      takeDigits n taken ds = (n * 10 ^ front.length + valueOf front, taken + front.length, back.length) ∧
      ∀ c ∈ back.head?, maxNatural < (n * 10 ^ front.length + valueOf front) * 10 + digitValue c := by
  induction ds generalizing n taken with
  | nil => exact ⟨[], [], rfl, by simpa [valueOf] using fits, by simp [takeDigits, valueOf], by simp⟩
  | cons c ds ih =>
    rw [takeDigits]
    by_cases next : n * 10 + digitValue c ≤ maxNatural
    · obtain ⟨front, back, rfl, small, same, full⟩ := ih next (taken + 1)
      have value : n * 10 ^ (c :: front).length + valueOf (c :: front) =
          (n * 10 + digitValue c) * 10 ^ front.length + valueOf front := by
        rw [← foldl_digits, ← foldl_digits]
        rfl
      refine ⟨c :: front, back, rfl, value ▸ small, ?_, value ▸ full⟩
      rw [value]
      simp only [if_pos next]
      rw [same, List.length_cons]
      congr 2
      omega
    · refine ⟨[], c :: ds, rfl, by simpa [valueOf] using fits, ?_, ?_⟩
      · simp [next, valueOf]
      · simpa [valueOf] using Nat.lt_of_not_le next

theorem taken_le {front back front' : List Char} (digits : ∀ c ∈ back, c.isDigit = true)
    (digits' : ∀ c ∈ front', c.isDigit = true)
    (full : ∀ c ∈ back.head?, maxNatural < valueOf front * 10 + digitValue c) (back' : List Char) :
    (valueOf front * 10 ^ front'.length + valueOf front') * 10 ^ (back.length + back'.length) ≤
      2 * valueOf ((front ++ back) ++ (front' ++ back')) := by
  have tail := valueOf_lt digits'
  simp only [valueOf_append, List.length_append, pow_add]
  cases back with
  | nil =>
    simp only [List.length_nil, pow_zero]
    ring_nf
    omega
  | cons c back =>
    -- the digits taken before the point fill 64 bits, so the rest of them is small
    have some : 1 ≤ valueOf front := by
      have last := digitValue_le (digits c (by simp))
      have beyond : 10 < valueOf front * 10 + digitValue c := lt_trans (by decide) (full c rfl)
      omega
    generalize valueOf front = n at some
    generalize (10 : Nat) ^ front'.length = a at tail
    generalize (10 : Nat) ^ (c :: back).length = b
    generalize (10 : Nat) ^ back'.length = d
    have whole : a ≤ n * a := Nat.le_mul_of_pos_left a some
    calc (n * a + valueOf front') * (b * d) ≤ (n * a + n * a) * (b * d) :=
          Nat.mul_le_mul_right _ (Nat.add_le_add_left (tail.le.trans whole) _)
      _ = 2 * (n * b * (a * d)) := by ring
      _ ≤ 2 * ((n * b + valueOf (c :: back)) * (a * d) + (valueOf front' * d + valueOf back')) := by
        refine Nat.mul_le_mul_left 2 (Nat.le_add_right_of_le (Nat.mul_le_mul_right _ (Nat.le_add_right _ _)))

/-- The digits that are dropped do not make the number twice as large. -/
theorem decimalOf_le (digits : ∀ c ∈ ds, c.isDigit = true) (digits' : ∀ c ∈ fs, c.isDigit = true) :
    (decimalOf ds fs).1 ≤ maxNatural ∧
      ((decimalOf ds fs).1 : ℚ) * 10 ^ (decimalOf ds fs).2 ≤ 2 * (valueOf (ds ++ fs) * 10 ^ (-(fs.length : ℤ))) := by
  obtain ⟨front, back, rfl, small, same, full⟩ := exists_takeDigits_eq (Nat.zero_le _) 0 ds
  obtain ⟨front', back', rfl, small', same', -⟩ := exists_takeDigits_eq small 0 fs
  have parts : decimalOf (front ++ back) (front' ++ back') =
      ((0 * 10 ^ front.length + valueOf front) * 10 ^ front'.length + valueOf front',
        (back.length : ℤ) - (0 + front'.length : Nat)) := by
    rw [decimalOf, same, same']
  rw [parts]
  simp only [Nat.zero_mul, Nat.zero_add] at small' full ⊢
  refine ⟨small', ?_⟩
  have bound := taken_le (fun c member => digits c (List.mem_append_right _ member))
    (fun c member => digits' c (List.mem_append_left _ member)) full back'
  generalize valueOf front * 10 ^ front'.length + valueOf front' = m at bound
  generalize valueOf (front ++ back ++ (front' ++ back')) = v at bound
  have cast : (m : ℚ) * 10 ^ (back.length + back'.length) ≤ 2 * v := by exact_mod_cast bound
  have power : (10 : ℚ) ^ ((back.length : ℤ) - front'.length) =
      10 ^ (back.length + back'.length) * 10 ^ (-((front' ++ back').length : ℤ)) := by
    rw [← zpow_natCast, ← zpow_add₀ (by norm_num)]
    congr 1
    push_cast [List.length_append]
    ring
  rw [power, ← mul_assoc, ← mul_assoc]
  gcongr

theorem FractionDigits.isDigit (h : FractionDigits fs l t) : ∀ c ∈ fs, c.isDigit = true := by
  cases h with
  | none => simp
  | point _ digits => exact digits.2

inductive ExponentIs : ℤ → List Char → List Char → Prop
  | none (t : List Char) : ExponentIs 0 t t
  | letter {c : Char} {sign es : List Char} (t : List Char) (known : c = 'e' ∨ c = 'E')
      (signed : sign = [] ∨ sign = ['-'] ∨ sign = ['+']) (digits : Digits es) :
      ExponentIs (if sign = ['-'] then -valueOf es else valueOf es) (c :: (sign ++ (es ++ t))) t

/-- A number of at most `10 ^ 307` whose exponent fits 31 bits is not too large. -/
theorem numeralInRange_of_le {exponent : ℤ} (digits : Digits ds) (lead : 1 < ds.length → ds.head? ≠ some '0')
    (fraction : FractionDigits fs l l') (own : ExponentIs exponent l' t) (short : exponent ≤ maxExponent)
    (small : (valueOf (ds ++ fs) : ℚ) * 10 ^ (exponent - fs.length) ≤ 10 ^ (307 : ℤ)) : NumeralInRange (ds ++ l) t := by
  refine ⟨digits, lead, fraction, ?_⟩
  obtain ⟨bits, bound⟩ := decimalOf_le digits.2 fraction.isDigit
  generalize decimalOf ds fs = parts at bits bound
  obtain ⟨m, start⟩ := parts
  have finite : ∀ total : ℤ, total = start + exponent → Finite m total := by
    rintro _ rfl
    refine finite_of_le bits ?_
    calc (m : ℚ) * 10 ^ (start + exponent) = m * 10 ^ start * 10 ^ exponent := by
          rw [zpow_add₀ (by norm_num), mul_assoc]
      _ ≤ 2 * (valueOf (ds ++ fs) * 10 ^ (-(fs.length : ℤ))) * 10 ^ exponent :=
          mul_le_mul_of_nonneg_right bound (zpow_nonneg (by norm_num) exponent)
      _ = 2 * (valueOf (ds ++ fs) * 10 ^ (exponent - fs.length)) := by
          rw [sub_eq_neg_add, zpow_add₀ (by norm_num)]
          ring
      _ ≤ 2 * 10 ^ (307 : ℤ) := mul_le_mul_of_nonneg_left small zero_le_two
  cases own with
  | none => exact .none _ (finite start (by ring))
  | @letter c sign es _ known signed digits =>
    by_cases fits : valueOf es ≤ maxExponent
    · exact .letter _ known signed digits fits (finite _ (by split <;> ring))
    · refine .beyond _ known signed digits (Nat.lt_of_not_le fits) (.inl ?_)
      by_contra plus
      rw [if_neg plus] at short
      omega

theorem WholeNumber.inRange {l t : List Char} (h : WholeNumber l t) : InRange l t := by
  have own : ∀ {ds : List Char}, Digits ds → (1 < ds.length → ds.head? ≠ some '0') → valueOf ds ≤ maxNatural →
      NumeralInRange (ds ++ t) t := by
    intro ds digits lead small
    refine numeralInRange_of_le digits lead (.none t) (.none t) (by decide) ?_
    have bits : (valueOf ds : ℚ) ≤ 10 ^ (20 : ℤ) := by
      have top : valueOf ds ≤ 10 ^ 20 := small.trans (by decide)
      exact_mod_cast top
    rw [List.append_nil, List.length_nil, Nat.cast_zero, sub_zero, zpow_zero, mul_one]
    exact bits.trans (zpow_le_zpow_right₀ (by norm_num) (by norm_num))
  cases h with
  | positive digits lead small => exact .positive (own digits lead small)
  | negative digits lead _ small => exact .negative (own digits lead (small.trans (by decide)))

end Digits

end Conformance.Json
