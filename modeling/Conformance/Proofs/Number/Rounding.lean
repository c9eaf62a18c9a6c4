import Conformance.Number.Binary
import Mathlib.Algebra.Order.Field.Power
import Mathlib.Data.Nat.Log
import Mathlib.Tactic.FieldSimp
import Mathlib.Tactic.Linarith
import Mathlib.Tactic.NormNum
import Mathlib.Tactic.Positivity
import Mathlib.Tactic.Ring

namespace Conformance.Binary

def value (b : Binary) : ℚ :=
  b.mantissa * 2 ^ b.exponent

theorem value_nonneg (b : Binary) : 0 ≤ b.value := by
  unfold value
  positivity

theorem cast_twoTo (n : Nat) : (twoTo n : ℚ) = 2 ^ (n : ℤ) := by
  simp [twoTo]

theorem cast_tenTo (n : Nat) : (tenTo n : ℚ) = 10 ^ (n : ℤ) := by
  simp [tenTo]

theorem fraction_pos (b : Binary) : 0 < b.fraction.2 := by
  unfold fraction
  split
  · exact Nat.one_pos
  · exact Nat.two_pow_pos _

theorem fraction_eq_value (b : Binary) : (b.fraction.1 : ℚ) / b.fraction.2 = b.value := by
  unfold fraction value
  split
  · rename_i up
    rw [Nat.cast_mul, cast_twoTo, Int.toNat_of_nonneg up, Nat.cast_one, div_one]
  · rename_i down
    rw [cast_twoTo, Int.toNat_of_nonneg (by omega), zpow_neg, div_inv_eq_mul]

theorem scaled_pos (num : Nat) {den : Nat} (pos : 0 < den) (e : ℤ) : 0 < (scaled num den e).2 := by
  unfold scaled
  split
  · exact Nat.mul_pos pos (Nat.two_pow_pos _)
  · exact pos

theorem scaled_eq (num den : Nat) (e : ℤ) :
    ((scaled num den e).1 : ℚ) / (scaled num den e).2 = num / den * 2 ^ (-e) := by
  unfold scaled
  split
  · rename_i up
    rw [Nat.cast_mul, cast_twoTo, Int.toNat_of_nonneg up, zpow_neg, div_mul_eq_div_div, div_eq_mul_inv]
  · rename_i down
    rw [Nat.cast_mul, cast_twoTo, Int.toNat_of_nonneg (by omega)]
    ring

theorem roundQuotient_mul_le (num den : Nat) : roundQuotient num den * den ≤ 2 * num := by
  have whole := Nat.div_add_mod num den
  rw [Nat.mul_comm] at whole
  unfold roundQuotient
  dsimp only
  split
  · omega
  · split
    · rw [Nat.add_mul]
      omega
    · rcases Nat.mod_two_eq_zero_or_one (num / den) with even | odd
      · rw [even, Nat.add_zero]
        omega
      · rw [odd, Nat.add_mul]
        omega

theorem le_roundQuotient_mul {num den : Nat} (pos : 0 < den) (large : den ≤ num) : num ≤ 2 * (roundQuotient num den * den) := by
  have down : num / den ≤ roundQuotient num den := by
    unfold roundQuotient
    dsimp only
    split <;> [skip; split] <;> omega
  have one : 1 * den ≤ roundQuotient num den * den :=
    Nat.mul_le_mul_right den ((Nat.div_pos large pos).trans_le down)
  have whole : num / den * den ≤ roundQuotient num den * den := Nat.mul_le_mul_right den down
  have rest := Nat.mod_lt num pos
  have same := Nat.div_add_mod num den
  rw [Nat.mul_comm] at same
  omega

theorem cast_roundQuotient_le (num : Nat) {den : Nat} (pos : 0 < den) :
    (roundQuotient num den : ℚ) ≤ 2 * (num / den) := by
  rw [← mul_div_assoc, le_div_iff₀ (by exact_mod_cast pos)]
  exact_mod_cast roundQuotient_mul_le num den

variable {num den : Nat}

/-- A number is rounded at its exponent, or the carry goes into the next one, if that is not too large. -/
theorem exists_round?_eq (nonzero : num ≠ 0) {e : ℤ} {n d : Nat} (exponent : exponentOf num den = e)
    (parts : scaled num den e = (n, d)) :
    ∃ b : Binary, (b.exponent = e ∨ b.exponent = e + 1) ∧ b.value = roundQuotient n d * 2 ^ e ∧
      round? num den = if b.exponent ≤ 971 then some b else none := by
  have rounded : round? num den =
      let b : Binary := if roundQuotient n d = twoTo 53 then ⟨twoTo 52, e + 1⟩ else ⟨roundQuotient n d, e⟩
      if b.exponent ≤ 971 then some b else none := by
    unfold round?
    rw [if_neg nonzero, exponent]
    extract_lets e
    rw [parts]
  rw [rounded]
  generalize roundQuotient n d = m
  by_cases carried : m = twoTo 53
  · refine ⟨⟨twoTo 52, e + 1⟩, .inr rfl, ?_, by rw [if_pos carried]⟩
    rw [value, carried, cast_twoTo, cast_twoTo, ← zpow_add₀ (by norm_num), ← zpow_add₀ (by norm_num)]
    congr 1
    push_cast
    ring
  · exact ⟨⟨m, e⟩, .inl rfl, rfl, by rw [if_neg carried]⟩

theorem value_le_of_round? (pos : 0 < den) {b : Binary} (rounded : round? num den = some b) :
    b.value ≤ 2 * (num / den) := by
  by_cases none : num = 0
  · rw [round?, if_pos none] at rounded
    obtain rfl := Option.some.inj rounded
    simp only [value, zero, Nat.cast_zero, zero_mul]
    positivity
  · generalize exponent : exponentOf num den = e
    have quotient := cast_roundQuotient_le (scaled num den e).1 (scaled_pos num pos e)
    rw [scaled_eq] at quotient
    obtain ⟨b', _, own, result⟩ := exists_round?_eq none exponent (Prod.mk.eta (p := scaled num den e)).symm
    rw [result] at rounded
    split at rounded
    · obtain rfl := Option.some.inj rounded
      calc b'.value ≤ 2 * (num / den * 2 ^ (-e)) * 2 ^ e := by rw [own]; gcongr
        _ = 2 * (num / den) * (2 ^ (-e) * 2 ^ e) := by ring
        _ = 2 * (num / den) := by rw [← zpow_add₀ (by norm_num), neg_add_cancel, zpow_zero, mul_one]
    · cases rounded

theorem scaled_le (pos : 0 < den) (large : den ≤ num) :
    (scaled num den (exponentOf num den)).2 ≤ (scaled num den (exponentOf num den)).1 := by
  have nonzero : num ≠ 0 := by omega
  have logs : den.log2 ≤ num.log2 := (Nat.le_log2 nonzero).mpr ((Nat.log2_self_le (by omega)).trans large)
  have low : exponentOf num den ≤ (num.log2 : ℤ) - den.log2 - 52 := by
    unfold exponentOf
    dsimp only
    split <;> omega
  generalize exponentOf num den = e at low
  have top : (2 : ℚ) ^ (num.log2 : ℤ) ≤ num := by exact_mod_cast Nat.log2_self_le nonzero
  have bottom : (den : ℚ) ≤ 2 ^ ((den.log2 : ℤ) + 1) := by exact_mod_cast Nat.lt_log2_self.le
  have some : (1 : ℚ) ≤ num / den * 2 ^ (-e) := by
    rw [div_mul_eq_mul_div, le_div_iff₀ (by exact_mod_cast pos), one_mul]
    calc (den : ℚ) ≤ 2 ^ ((den.log2 : ℤ) + 1) := bottom
      _ ≤ 2 ^ ((num.log2 : ℤ) + -e) := zpow_le_zpow_right₀ (by norm_num) (by omega)
      _ = 2 ^ (num.log2 : ℤ) * 2 ^ (-e) := zpow_add₀ (by norm_num) _ _
      _ ≤ num * 2 ^ (-e) := by gcongr
  rw [← scaled_eq, le_div_iff₀ (by exact_mod_cast scaled_pos num pos e), one_mul] at some
  exact_mod_cast some

/-- A number of at least one is rounded to at least half of what it is. -/
theorem le_value_of_round? (pos : 0 < den) (large : den ≤ num) {b : Binary} (rounded : round? num den = some b) :
    (num : ℚ) / den ≤ 2 * b.value := by
  have whole := scaled_le pos large
  generalize exponent : exponentOf num den = e at whole
  have positive := scaled_pos num pos e
  have quotient := le_roundQuotient_mul positive whole
  have half : (num : ℚ) / den * 2 ^ (-e) ≤ 2 * roundQuotient (scaled num den e).1 (scaled num den e).2 := by
    rw [← scaled_eq, div_le_iff₀ (by exact_mod_cast positive), mul_assoc]
    exact_mod_cast quotient
  obtain ⟨b', _, own, result⟩ := exists_round?_eq (by omega) exponent (Prod.mk.eta (p := scaled num den e)).symm
  rw [result] at rounded
  split at rounded
  · obtain rfl := Option.some.inj rounded
    calc (num : ℚ) / den = num / den * 2 ^ (-e) * 2 ^ e := by
          rw [mul_assoc, ← zpow_add₀ (by norm_num), neg_add_cancel, zpow_zero, mul_one]
      _ ≤ 2 * roundQuotient (scaled num den e).1 (scaled num den e).2 * 2 ^ e := by gcongr
      _ = 2 * b'.value := by rw [own, mul_assoc]
  · cases rounded

/-- The exponent of a number below `2 ^ 1023` leaves room for a carry. -/
theorem exponentOf_le (nonzero : num ≠ 0) (pos : 0 < den) (small : (num : ℚ) / den < 2 ^ (1023 : ℤ)) :
    exponentOf num den ≤ 970 := by
  have upper : (num : ℚ) < den * 2 ^ (1023 : ℤ) := by
    rw [div_lt_iff₀ (by exact_mod_cast pos)] at small
    linarith
  have logs : num.log2 ≤ den.log2 + 1023 := by
    have room : num < den * 2 ^ 1023 := by exact_mod_cast upper
    have top : den * 2 ^ 1023 < 2 ^ (den.log2 + 1 + 1023) := by
      rw [pow_add]
      exact Nat.mul_lt_mul_of_pos_right Nat.lt_log2_self (by positivity)
    have bits := (Nat.log2_lt nonzero).mpr (room.trans top)
    omega
  unfold exponentOf
  dsimp only
  generalize guessed : (num.log2 : ℤ) - den.log2 - 53 = guess
  by_cases carried : (scaled num den guess).2 * twoTo 53 ≤ (scaled num den guess).1
  · rw [if_pos carried]
    -- at the exponent 970 the number would reach `2 ^ 1023`
    have below : guess < 970 := by
      by_contra reached
      have here : guess = 970 := by omega
      have quotient : (twoTo 53 : ℚ) ≤ num / den * 2 ^ (-guess) := by
        rw [← scaled_eq, le_div_iff₀ (by exact_mod_cast scaled_pos num pos guess)]
        exact_mod_cast (Nat.mul_comm _ _).trans_le carried
      have less : (num : ℚ) / den * 2 ^ (-guess) < 2 ^ (1023 : ℤ) * 2 ^ (-guess) := by gcongr
      rw [← zpow_add₀ (by norm_num), here] at less
      rw [cast_twoTo, here] at quotient
      exact absurd (quotient.trans_lt less) (lt_irrefl _)
    omega
  · rw [if_neg carried]
    omega

theorem isSome_round? (pos : 0 < den) (small : (num : ℚ) / den < 2 ^ (1023 : ℤ)) : (round? num den).isSome = true := by
  by_cases none : num = 0
  · rw [round?, if_pos none, Option.isSome_some]
  · obtain ⟨b, exponent, _, result⟩ := exists_round?_eq none rfl (Prod.mk.eta (p := scaled num den _)).symm
    have room := exponentOf_le none pos small
    have fits : b.exponent ≤ 971 := by omega
    rw [result, if_pos fits, Option.isSome_some]

section Arithmetic

variable {a b c : Binary}

theorem isSome_mul? (small : a.value * b.value < 2 ^ (1023 : ℤ)) : (a.mul? b).isSome = true := by
  refine isSome_round? (Nat.mul_pos a.fraction_pos b.fraction_pos) ?_
  rwa [Nat.cast_mul, Nat.cast_mul, mul_div_mul_comm, fraction_eq_value, fraction_eq_value]

theorem fraction_fst_pos (pos : 0 < b.value) : 0 < b.fraction.1 := by
  rw [← fraction_eq_value] at pos
  by_contra none
  rw [Nat.eq_zero_of_not_pos none, Nat.cast_zero, zero_div] at pos
  exact lt_irrefl _ pos

theorem cast_quotient : ((a.fraction.1 * b.fraction.2 : Nat) : ℚ) / (a.fraction.2 * b.fraction.1 : Nat) = a.value / b.value := by
  rw [Nat.cast_mul, Nat.cast_mul, mul_div_mul_comm, ← fraction_eq_value a, ← fraction_eq_value b, div_eq_mul_inv (_ / _) (_ / _),
    inv_div]

theorem isSome_div? (pos : 0 < b.value) (small : a.value / b.value < 2 ^ (1023 : ℤ)) : (a.div? b).isSome = true := by
  refine isSome_round? (Nat.mul_pos a.fraction_pos (fraction_fst_pos pos)) ?_
  rwa [cast_quotient]

theorem value_le_of_div? (pos : 0 < b.value) (quotient : a.div? b = some c) : c.value ≤ 2 * (a.value / b.value) := by
  rw [← cast_quotient]
  exact value_le_of_round? (Nat.mul_pos a.fraction_pos (fraction_fst_pos pos)) quotient

theorem tenTo_mono {m n : Nat} (smaller : m ≤ n) : tenTo m ≤ tenTo n :=
  Nat.pow_le_pow_right Nat.ofNat_pos smaller

theorem isSome_powerOfTen? {n : Nat} (known : n ≤ 308) : (powerOfTen? n).isSome = true := by
  rcases Nat.lt_or_eq_of_le known with below | rfl
  · have top : tenTo 307 < twoTo 1023 := by decide +kernel
    have small : (tenTo n : ℚ) < twoTo 1023 := Nat.cast_lt.mpr ((tenTo_mono (Nat.le_of_lt_succ below)).trans_lt top)
    rw [cast_twoTo] at small
    refine isSome_round? Nat.one_pos ?_
    rwa [Nat.cast_one, div_one]
  -- the largest one is beyond `2 ^ 1023`
  · decide +kernel

theorem exists_powerOfTen?_eq {n : Nat} (known : n ≤ 308) :
    ∃ p, powerOfTen? n = some p ∧ 10 ^ n ≤ 2 * p.value ∧ p.value ≤ 2 * 10 ^ n := by
  obtain ⟨p, power⟩ := Option.isSome_iff_exists.mp (isSome_powerOfTen? known)
  have least := le_value_of_round? Nat.one_pos (Nat.pow_pos Nat.ofNat_pos) power
  have most := value_le_of_round? Nat.one_pos power
  exact ⟨p, power, by simpa [tenTo] using least, by simpa [tenTo] using most⟩

theorem two_le_value_of_powerOfTen {n : Nat} {p : Binary} (later : n ≠ 0) (least : 10 ^ n ≤ 2 * p.value) : 2 ≤ p.value := by
  have ten : (10 : ℚ) ≤ 10 ^ n := le_self_pow₀ (by norm_num) later
  linarith

end Arithmetic

end Conformance.Binary
