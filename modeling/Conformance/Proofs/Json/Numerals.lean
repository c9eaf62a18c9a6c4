import Conformance.Proofs.Json.Spelling

namespace Conformance.Json

open Pattern (Stops stops_cons)

def Digits (ds : List Char) : Prop :=
  ds ≠ [] ∧ ∀ c ∈ ds, c.isDigit = true

instance (ds : List Char) : Decidable (Digits ds) :=
  inferInstanceAs (Decidable (ds ≠ [] ∧ ∀ c ∈ ds, c.isDigit = true))

inductive Fraction : List Char → List Char → Prop
  | none (t : List Char) : Fraction t t
  | point {ds : List Char} (t : List Char) (digits : Digits ds) : Fraction ('.' :: (ds ++ t)) t

inductive Exponent : List Char → List Char → Prop
  | none (t : List Char) : Exponent t t
  | letter {c : Char} {sign ds : List Char} (t : List Char) (known : c = 'e' ∨ c = 'E')
      (signed : sign = [] ∨ sign = ['-'] ∨ sign = ['+']) (digits : Digits ds) : Exponent (c :: (sign ++ (ds ++ t))) t

inductive Numeral : List Char → List Char → Prop
  | mk {ds l l' t : List Char} (digits : Digits ds) (lead : 1 < ds.length → ds.head? ≠ some '0') (fraction : Fraction l l')
      (exponent : Exponent l' t) : Numeral (ds ++ l) t

variable {r : Reader} {l l' t ds : List Char} {c : Char}

theorem Digits.cases (digits : Digits ds) : ∃ c more, ds = c :: more ∧ c.isDigit = true := by
  obtain ⟨c, more, rfl⟩ := List.exists_cons_of_ne_nil digits.1
  exact ⟨c, more, rfl, digits.2 c (by simp)⟩

theorem ne_of_isDigit {c d : Char} (digit : c.isDigit = true) (other : d.isDigit = false) : c ≠ d := by
  rintro rfl
  exact Bool.false_ne_true (other.symm.trans digit)

theorem Follows.stops (follows : Follows t) {accepts : Char → Bool} (spaces : ∀ c, isSpace c = true → accepts c = false)
    (marks : accepts ',' = false ∧ accepts ']' = false ∧ accepts '\x7d' = false) : Stops accepts t := by
  intro c ahead
  rcases follows c ahead with space | rfl | rfl | rfl
  · exact spaces c space
  · exact marks.1
  · exact marks.2.1
  · exact marks.2.2

def isNumberChar (c : Char) : Bool :=
  c.isDigit || c == '.' || c == 'e' || c == 'E'

theorem Follows.stops_number (follows : Follows t) : Stops isNumberChar t := by
  refine follows.stops ?_ (by decide)
  intro c space
  simp only [isSpace, Bool.or_eq_true, beq_iff_eq] at space
  rcases space with ((rfl | rfl) | rfl) | rfl <;> decide

theorem Stops.isDigit (stop : Stops isNumberChar t) : Stops Char.isDigit t := by
  intro c ahead
  have own := stop c ahead
  simp only [isNumberChar, Bool.or_eq_false_iff] at own
  exact own.1.1.1

theorem Reader.digits_eq (ahead : r.rest = ds ++ t) (digits : Digits ds) (stop : Stops Char.isDigit t) : r.digits = ds := by
  rw [Reader.digits, ahead, takeWhile_of_stops digits.2 stop]

theorem Reader.skipDigits_eq (ahead : r.rest = ds ++ t) (digits : Digits ds) (stop : Stops Char.isDigit t) :
    r.skipDigits.rest = t := by
  rw [skipDigits_rest, ahead, dropWhile_of_stops digits.2 stop]

theorem Exponent.stops (h : Exponent l t) (stop : Stops isNumberChar t) : Stops (fun c => c.isDigit || c == '.') l := by
  cases h with
  | none =>
    intro c ahead
    have own := stop c ahead
    simp only [isNumberChar, Bool.or_eq_false_iff] at own ⊢
    exact own.1.1
  | letter _ known _ _ =>
    rcases known with rfl | rfl <;> exact stops_cons.mpr (by decide)

theorem no_letter_of_stops (stop : Stops isNumberChar t) (ahead : r.rest = t) :
    (r.peek? == some 'e' || r.peek? == some 'E') = false := by
  rw [Reader.peek?, ahead]
  cases t with
  | nil => rfl
  | cons c t =>
    have own := stops_cons.mp stop
    simp only [isNumberChar, Bool.or_eq_false_iff] at own
    simp [own.1.2, own.2]

theorem pointless_of_stops (stop : Stops (fun c => c.isDigit || c == '.') l) (ahead : r.rest = l) :
    (r.peek? == some '.') = false := by
  rw [Reader.peek?, ahead]
  cases l with
  | nil => rfl
  | cons d l => simpa using (Bool.or_eq_false_iff.mp (stops_cons.mp stop)).2

theorem stops_digits_of_stops (stop : Stops (fun c => c.isDigit || c == '.') l) : Stops Char.isDigit l :=
  fun c ahead => (Bool.or_eq_false_iff.mp (stop c ahead)).1

theorem letter_of_known (known : c = 'e' ∨ c = 'E') (ahead : r.rest = c :: t) :
    (r.peek? == some 'e' || r.peek? == some 'E') = true := by
  rw [Reader.peek?_of_rest ahead]
  rcases known with rfl | rfl <;> decide

theorem exists_behind_sign {sign : List Char} (ahead : r.rest = sign ++ (ds ++ t))
    (signed : sign = [] ∨ sign = ['-'] ∨ sign = ['+']) (digits : Digits ds) :
    ∃ s, s.rest = ds ++ t ∧ (if r.peek? == some '-' || r.peek? == some '+' then r.eat else r) = s ∧
      (r.peek? == some '-') = decide (sign = ['-']) := by
  obtain ⟨d, more, rfl, digit⟩ := digits.cases
  rcases signed with rfl | rfl | rfl
  · have minus := ne_of_isDigit digit (show '-'.isDigit = false by decide)
    have plus := ne_of_isDigit digit (show '+'.isDigit = false by decide)
    exact ⟨r, ahead, by simp [Reader.peek?_of_rest ahead, minus, plus], by simp [Reader.peek?_of_rest ahead, minus]⟩
  · exact ⟨r.eat, Reader.eat_rest ahead, by simp [Reader.peek?_of_rest ahead], by simp [Reader.peek?_of_rest ahead]⟩
  · exact ⟨r.eat, Reader.eat_rest ahead, by simp [Reader.peek?_of_rest ahead], by simp [Reader.peek?_of_rest ahead]⟩

theorem skipNumberEnd_of_exponent (h : Exponent l t) (stop : Stops isNumberChar t) (ahead : r.rest = l) :
    ∃ r', skipNumberEnd r = .ok r' ∧ r'.rest = t := by
  cases h with
  | none =>
    refine ⟨r, ?_, ahead⟩
    rw [skipNumberEnd, no_letter_of_stops stop ahead]
    rfl
  | @letter c sign ds _ known signed digits =>
    have behind := Reader.eat_rest ahead
    obtain ⟨s, rest, same, _⟩ := exists_behind_sign behind signed digits
    obtain ⟨d, more, rfl, digit⟩ := digits.cases
    refine ⟨s.skipDigits, ?_, Reader.skipDigits_eq rest digits (Stops.isDigit stop)⟩
    rw [skipNumberEnd, letter_of_known known ahead, if_pos rfl, skipExponent, same]
    simp only [Reader.peek?_of_rest rest, if_pos digit]

theorem skipNumber_of_numeral (h : Numeral l t) (follows : Follows t) (ahead : r.rest = l) :
    ∃ r', skipNumber r = .ok r' ∧ r'.rest = t := by
  cases h with
  | @mk ds l l' _ digits lead fraction exponent =>
    have stopL' := exponent.stops follows.stops_number
    have stopL : Stops Char.isDigit l := by
      cases fraction with
      | none => exact stops_digits_of_stops stopL'
      | point _ _ => exact stops_cons.mpr (by decide)
    have own := Reader.digits_eq ahead digits stopL
    have behind := Reader.skipDigits_eq ahead digits stopL
    obtain ⟨c, more, whole, digit⟩ := digits.cases
    have first : r.peek? = some c := Reader.peek?_of_rest (by rw [ahead, whole, List.cons_append])
    have proper : ¬ (c = '0' ∧ r.digits.length > 1) := by
      rintro ⟨rfl, long⟩
      rw [own] at long
      exact lead long (by rw [whole]; rfl)
    rw [skipNumber, first]
    simp only [digit, Bool.not_true, Bool.false_eq_true, if_false, if_neg proper]
    cases fraction with
    | none =>
      rw [pointless_of_stops stopL' behind]
      exact skipNumberEnd_of_exponent exponent follows.stops_number behind
    | @point ds' _ digits' =>
      have stopD : Stops Char.isDigit l' := stops_digits_of_stops stopL'
      have inner := Reader.eat_rest behind
      have some : r.skipDigits.eat.digits.isEmpty = false := by
        rw [Reader.digits_eq inner digits' stopD]
        simpa using digits'.1
      rw [Reader.peek?_of_rest behind, some]
      exact skipNumberEnd_of_exponent exponent follows.stops_number (Reader.skipDigits_eq inner digits' stopD)

inductive SignedNumeral : List Char → List Char → Prop
  | positive {l t : List Char} (numeral : Numeral l t) : SignedNumeral l t
  | negative {l t : List Char} (numeral : Numeral l t) : SignedNumeral ('-' :: l) t

def valueOf (ds : List Char) : Nat :=
  ds.foldl (fun n c => n * 10 + digitValue c) 0

inductive WholeNumber : List Char → List Char → Prop
  | positive {ds t : List Char} (digits : Digits ds) (lead : 1 < ds.length → ds.head? ≠ some '0')
      (small : valueOf ds ≤ maxNatural) : WholeNumber (ds ++ t) t
  | negative {ds t : List Char} (digits : Digits ds) (lead : 1 < ds.length → ds.head? ≠ some '0')
      (some : 1 ≤ valueOf ds) (small : valueOf ds ≤ twoTo 63) : WholeNumber ('-' :: (ds ++ t)) t

theorem le_foldl_digits (ds : List Char) (n : Nat) : n ≤ ds.foldl (fun n c => n * 10 + digitValue c) n := by
  induction ds generalizing n with
  | nil => exact Nat.le_refl n
  | cons c ds ih =>
    have next : n ≤ n * 10 + digitValue c := by omega
    exact Nat.le_trans next (ih _)

end Conformance.Json
