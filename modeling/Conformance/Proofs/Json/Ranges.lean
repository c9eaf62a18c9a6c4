import Conformance.Proofs.Json.Numerals
import Conformance.Proofs.Number.Rounding

namespace Conformance.Json

open Pattern (Stops stops_cons)

inductive FractionDigits : List Char → List Char → List Char → Prop
  | none (t : List Char) : FractionDigits [] t t
  | point {fs : List Char} (t : List Char) (digits : Digits fs) : FractionDigits fs ('.' :: (fs ++ t)) t

def decimalOf (ds fs : List Char) : Nat × Int :=
  let whole := takeDigits 0 0 ds
  let all := takeDigits whole.1 0 fs
  (all.1, whole.2.2 - all.2.1)

def Finite (significand : Nat) (exponent : Int) : Prop :=
  ((Binary.round? significand 1).bind fun b => scale? (exponent.natAbs / 308 + 1) b exponent).isSome = true

/-- The text begins with an exponent, or with none, that makes a finite number of the significand. An exponent
beyond 31 bits does so if it is negative or the significand is zero. -/
inductive ExponentInRange (significand : Nat) (start : Int) : List Char → List Char → Prop
  | none (t : List Char) (finite : Finite significand start) : ExponentInRange significand start t t
  | letter {c : Char} {sign es : List Char} (t : List Char) (known : c = 'e' ∨ c = 'E')
      (signed : sign = [] ∨ sign = ['-'] ∨ sign = ['+']) (digits : Digits es) (small : valueOf es ≤ maxExponent)
      (finite : Finite significand (if sign = ['-'] then start - valueOf es else start + valueOf es)) :
      ExponentInRange significand start (c :: (sign ++ (es ++ t))) t
  | beyond {c : Char} {sign es : List Char} (t : List Char) (known : c = 'e' ∨ c = 'E')
      (signed : sign = [] ∨ sign = ['-'] ∨ sign = ['+']) (digits : Digits es) (large : maxExponent < valueOf es)
      (vanishes : sign = ['-'] ∨ significand = 0) : ExponentInRange significand start (c :: (sign ++ (es ++ t))) t

inductive NumeralInRange : List Char → List Char → Prop
  | mk {ds fs l l' t : List Char} (digits : Digits ds) (lead : 1 < ds.length → ds.head? ≠ some '0')
      (fraction : FractionDigits fs l l') (exponent : ExponentInRange (decimalOf ds fs).1 (decimalOf ds fs).2 l' t) :
      NumeralInRange (ds ++ l) t

inductive InRange : List Char → List Char → Prop
  | positive {l t : List Char} (numeral : NumeralInRange l t) : InRange l t
  | negative {l t : List Char} (numeral : NumeralInRange l t) : InRange ('-' :: l) t

variable {l l' t ds fs es : List Char} {r : Reader} {significand : Nat} {start : Int}

theorem FractionDigits.fraction (h : FractionDigits fs l t) : Fraction l t := by
  cases h with
  | none => exact .none _
  | point _ digits => exact .point _ digits

theorem ExponentInRange.exponent (h : ExponentInRange significand start l t) : Exponent l t := by
  cases h with
  | none => exact .none _
  | letter _ known signed digits _ _ | beyond _ known signed digits _ _ => exact .letter _ known signed digits

theorem NumeralInRange.numeral (h : NumeralInRange l t) : Numeral l t := by
  obtain ⟨digits, lead, fraction, exponent⟩ := h
  exact ⟨digits, lead, fraction.fraction, exponent.exponent⟩

theorem InRange.signed (h : InRange l t) : SignedNumeral l t := by
  cases h with
  | positive numeral => exact .positive numeral.numeral
  | negative numeral => exact .negative numeral.numeral

section Reading

theorem floatOf_of_finite {exponent : Int} (finite : Finite significand exponent) (positive : Bool) (r : Reader) :
    ∃ n, floatOf positive significand exponent r = .ok (n, r) := by
  obtain ⟨b, scaled⟩ := Option.isSome_iff_exists.mp finite
  exact ⟨.float positive b, by rw [floatOf, scaled]⟩

theorem length_takeDigits (n taken : Nat) (ds : List Char) :
    (takeDigits n taken ds).2.1 + (takeDigits n taken ds).2.2 = taken + ds.length := by
  induction ds generalizing n taken with
  | nil => rfl
  | cons c ds ih =>
    rw [takeDigits]
    split
    · rw [ih, List.length_cons]
      omega
    · rw [List.length_cons]

theorem readExponentDigits_of_le {n : Nat} (small : es.foldl (fun n c => n * 10 + digitValue c) n ≤ maxExponent)
    (ahead : r.rest = es ++ t) :
    ∃ r', readExponentDigits n es r = .ok (es.foldl (fun n c => n * 10 + digitValue c) n, r') ∧ r'.rest = t := by
  induction es generalizing n r with
  | nil => exact ⟨r, rfl, ahead⟩
  | cons c es ih =>
    have next : n * 10 + digitValue c ≤ maxExponent := (le_foldl_digits es _).trans small
    rw [readExponentDigits, List.foldl_cons]
    simp only [if_pos next]
    exact ih small (Reader.eat_rest ahead)

theorem readExponentDigits_of_lt {n : Nat} (fits : n ≤ maxExponent)
    (large : maxExponent < es.foldl (fun n c => n * 10 + digitValue c) n) (ahead : r.rest = es ++ t) :
    ∃ r' more, readExponentDigits n es r = .error r' ∧ r'.rest = more ++ t ∧ more ⊆ es := by
  induction es generalizing n r with
  | nil => exact absurd fits (Nat.not_le_of_lt large)
  | cons c es ih =>
    rw [readExponentDigits]
    by_cases next : n * 10 + digitValue c ≤ maxExponent
    · simp only [if_pos next]
      obtain ⟨r', more, stopped, rest, inside⟩ := ih next large (Reader.eat_rest ahead)
      exact ⟨r', more, stopped, rest, List.subset_cons_of_subset c inside⟩
    · simp only [if_neg next]
      exact ⟨r.eat, es, rfl, Reader.eat_rest ahead, List.subset_cons_self c es⟩

theorem readExponent_eq {positive : Bool} {s s' : Reader}
    (same : (if r.eat.peek? == some '-' || r.eat.peek? == some '+' then r.eat.eat else r.eat) = s)
    (rest : s.rest = es ++ t) (digits : Digits es) (stop : Stops isNumberChar t) :
    (∀ exponent, readExponentDigits 0 es s = .ok (exponent, s') →
      readExponent positive significand start r =
        floatOf positive significand (if r.eat.peek? == some '-' then start - exponent else start + exponent) s') ∧
    (readExponentDigits 0 es s = .error s' →
      readExponent positive significand start r =
        if significand ≠ 0 ∧ !(r.eat.peek? == some '-') then failHere .numberOutOfRange s'
        else .ok (.float positive .zero, s'.skipDigits)) := by
  have own := Reader.digits_eq rest digits (Stops.isDigit stop)
  obtain ⟨d, more, rfl, digit⟩ := digits.cases
  rw [readExponent]
  simp only [same, Reader.peek?_of_rest rest, digit, own, Bool.not_true, Bool.false_eq_true, if_false]
  constructor
  · intro exponent read
    rw [read]
  · intro stopped
    rw [stopped]

/-- Behind its digits, a number that is not too large is read to its end. -/
theorem finishNumber_of_inRange (h : ExponentInRange significand start l t) (stop : Stops isNumberChar t)
    (positive : Bool) (ahead : r.rest = l) :
    ∃ n r', finishNumber positive significand start r = .ok (n, r') ∧ r'.rest = t := by
  cases h with
  | none _ finite =>
    obtain ⟨n, own⟩ := floatOf_of_finite finite positive r
    refine ⟨n, r, ?_, ahead⟩
    rw [finishNumber, no_letter_of_stops stop ahead]
    exact own
  | @letter c sign es _ known signed digits small finite =>
    obtain ⟨s, rest, same, minus⟩ := exists_behind_sign (Reader.eat_rest ahead) signed digits
    obtain ⟨s', read, behind⟩ := readExponentDigits_of_le small rest
    obtain ⟨n, own⟩ := floatOf_of_finite finite positive s'
    refine ⟨n, s', ?_, behind⟩
    rw [finishNumber, letter_of_known known ahead, if_pos rfl, (readExponent_eq same rest digits stop).1 _ read, minus]
    simp only [decide_eq_true_eq]
    exact own
  | @beyond c sign es _ known signed digits large vanishes =>
    obtain ⟨s, rest, same, minus⟩ := exists_behind_sign (Reader.eat_rest ahead) signed digits
    obtain ⟨s', more, stopped, behind, inside⟩ := readExponentDigits_of_lt (Nat.zero_le _) large rest
    refine ⟨.float positive .zero, s'.skipDigits, ?_, ?_⟩
    · have tiny : ¬ (significand ≠ 0 ∧ !(r.eat.peek? == some '-')) := by
        rw [minus]
        rcases vanishes with rfl | rfl <;> simp
      rw [finishNumber, letter_of_known known ahead, if_pos rfl,
        (readExponent_eq same rest digits stop).2 stopped]
      exact if_neg tiny
    · rw [Reader.skipDigits_rest, behind, Reader.dropWhile_of_stops (fun d member => digits.2 d (inside member))
        (Stops.isDigit stop)]

theorem wholeNumber_of_finite (finite : Finite significand 0) (positive : Bool) (r : Reader) :
    ∃ n, wholeNumber positive significand r = .ok (n, r) := by
  unfold wholeNumber
  split
  · exact ⟨_, rfl⟩
  · split
    · exact ⟨_, rfl⟩
    · exact floatOf_of_finite finite false r

/-- Behind the digits of a number stands a fraction, an exponent or neither. -/
theorem readNumber_eq (positive : Bool) (ahead : r.rest = ds ++ l) (digits : Digits ds)
    (lead : 1 < ds.length → ds.head? ≠ some '0') (stop : Stops Char.isDigit l) :
    readNumber positive r =
      if r.skipDigits.peek? == some '.' then
        readFraction positive (takeDigits 0 0 ds).1 (takeDigits 0 0 ds).2.2 r.skipDigits
      else if (takeDigits 0 0 ds).2.2 = 0 ∧ r.skipDigits.peek? ≠ some 'e' ∧ r.skipDigits.peek? ≠ some 'E' then
        wholeNumber positive (takeDigits 0 0 ds).1 r.skipDigits
      else finishNumber positive (takeDigits 0 0 ds).1 (takeDigits 0 0 ds).2.2 r.skipDigits := by
  obtain ⟨c, more, whole, digit⟩ := digits.cases
  have first : r.peek? = some c := Reader.peek?_of_rest (by rw [ahead, whole, List.cons_append])
  have proper : ¬ (c = '0' ∧ ds.length > 1) := by
    rintro ⟨rfl, long⟩
    exact lead long (by rw [whole]; rfl)
  rw [readNumber, first]
  simp only [digit, Bool.not_true, Bool.false_eq_true, if_false, Reader.digits_eq ahead digits stop, if_neg proper]

/-- Without a point, a number that is not too large is read to its end. -/
theorem wholeNumber_or_finishNumber {n left : Nat} (exponent : ExponentInRange n left l t) (stop : Stops isNumberChar t)
    (positive : Bool) (behind : r.rest = l) :
    ∃ number r', (if left = 0 ∧ r.peek? ≠ some 'e' ∧ r.peek? ≠ some 'E' then wholeNumber positive n r
      else finishNumber positive n left r) = .ok (number, r') ∧ r'.rest = t := by
  by_cases plain : left = 0 ∧ r.peek? ≠ some 'e' ∧ r.peek? ≠ some 'E'
  · rw [if_pos plain]
    cases exponent with
    | none _ finite =>
      rw [plain.1] at finite
      obtain ⟨number, own⟩ := wholeNumber_of_finite finite positive r
      exact ⟨number, _, own, behind⟩
    | letter _ known _ _ _ _ | beyond _ known _ _ _ _ =>
      have ahead := Reader.peek?_of_rest behind
      rcases known with rfl | rfl
      · exact absurd ahead plain.2.1
      · exact absurd ahead plain.2.2
  · rw [if_neg plain]
    exact finishNumber_of_inRange exponent stop positive behind

theorem readNumber_of_inRange (h : NumeralInRange l t) (follows : Follows t) (positive : Bool) (ahead : r.rest = l) :
    ∃ n r', readNumber positive r = .ok (n, r') ∧ r'.rest = t := by
  cases h with
  | @mk ds fs l l' _ digits lead fraction exponent =>
    have stopL' := exponent.exponent.stops follows.stops_number
    have digitless : Stops Char.isDigit l' := stops_digits_of_stops stopL'
    cases fraction with
    | none =>
      have behind := Reader.skipDigits_eq ahead digits digitless
      have parts : decimalOf ds [] = ((takeDigits 0 0 ds).1, ((takeDigits 0 0 ds).2.2 : Int)) := by
        simp [decimalOf, takeDigits]
      rw [parts] at exponent
      rw [readNumber_eq positive ahead digits lead digitless, pointless_of_stops stopL' behind, if_neg Bool.false_ne_true]
      exact wholeNumber_or_finishNumber exponent follows.stops_number positive behind
    | @point fs _ digits' =>
      have stop : Stops Char.isDigit ('.' :: (fs ++ l')) := stops_cons.mpr (by decide)
      have behind := Reader.skipDigits_eq ahead digits stop
      have inner := Reader.eat_rest behind
      have some : ¬ (takeDigits (takeDigits 0 0 ds).1 0 fs).2.1 + (takeDigits (takeDigits 0 0 ds).1 0 fs).2.2 = 0 := by
        rw [length_takeDigits, Nat.zero_add]
        exact fun none => digits'.1 (List.length_eq_zero_iff.mp none)
      rw [readNumber_eq positive ahead digits lead stop, Reader.peek?_of_rest behind]
      simp only [BEq.rfl, if_true, readFraction, Reader.digits_eq inner digits' digitless, if_neg some]
      exact finishNumber_of_inRange exponent follows.stops_number positive (Reader.skipDigits_eq inner digits' digitless)

end Reading

end Conformance.Json
