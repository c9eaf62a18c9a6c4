import Conformance.Json.Value
import Conformance.Proofs.Json.Numerals
import Mathlib.Data.List.TakeWhile

namespace Conformance.Json

open Pattern (Stops stops_cons)

/-- A value, or the items of a list or members of an object that are still to come, at least one. -/
inductive Phrase where
  | value (v : Value)
  | items (vs : List Value)
  | members (ms : List (List Char × Value))

/-- The text begins with a phrase, in which lists and objects are nested at most `d` deep. Items and members
end with the bracket behind them. -/
inductive Written (number : List Char → List Char → Prop) : Nat → Phrase → List Char → List Char → Prop
  | null {d : Nat} {t : List Char} : Written number d (.value .null) ('n' :: 'u' :: 'l' :: 'l' :: t) t
  | yes {d : Nat} {t : List Char} : Written number d (.value (.boolean true)) ('t' :: 'r' :: 'u' :: 'e' :: t) t
  | no {d : Nat} {t : List Char} : Written number d (.value (.boolean false)) ('f' :: 'a' :: 'l' :: 's' :: 'e' :: t) t
  | string {d : Nat} {l chars t : List Char} (spelled : Spells l chars t) :
      Written number d (.value (.string chars)) ('"' :: l) t
  | number {d : Nat} {l t : List Char} (spelled : number l t) : Written number d (.value .number) l t
  | emptyList {d : Nat} {l t : List Char} (ends : Spaces l (']' :: t)) :
      Written number (d + 1) (.value (.list [])) ('[' :: l) t
  | list {d : Nat} {vs : List Value} {l t : List Char} (inner : Written number d (.items vs) l t) :
      Written number (d + 1) (.value (.list vs)) ('[' :: l) t
  | emptyObject {d : Nat} {l t : List Char} (ends : Spaces l ('\x7d' :: t)) :
      Written number (d + 1) (.value (.object [])) ('\x7b' :: l) t
  | object {d : Nat} {ms : List (List Char × Value)} {l t : List Char} (inner : Written number d (.members ms) l t) :
      Written number (d + 1) (.value (.object ms)) ('\x7b' :: l) t
  | lastItem {d : Nat} {v : Value} {l l₁ l₂ t : List Char} (start : Spaces l l₁) (own : Written number d (.value v) l₁ l₂)
      (ends : Spaces l₂ (']' :: t)) : Written number d (.items [v]) l t
  | item {d : Nat} {v : Value} {vs : List Value} {l l₁ l₂ l₃ t : List Char} (start : Spaces l l₁)
      (own : Written number d (.value v) l₁ l₂) (ends : Spaces l₂ (',' :: l₃)) (more : Written number d (.items vs) l₃ t) :
      Written number d (.items (v :: vs)) l t
  | lastMember {d : Nat} {key : List Char} {v : Value} {l l₁ l₂ l₃ l₄ l₅ t : List Char} (start : Spaces l ('"' :: l₁))
      (name : Spells l₁ key l₂) (colon : Spaces l₂ (':' :: l₃)) (gap : Spaces l₃ l₄)
      (own : Written number d (.value v) l₄ l₅) (ends : Spaces l₅ ('\x7d' :: t)) :
      Written number d (.members [(key, v)]) l t
  | member {d : Nat} {key : List Char} {v : Value} {ms : List (List Char × Value)} {l l₁ l₂ l₃ l₄ l₅ l₆ t : List Char}
      (start : Spaces l ('"' :: l₁)) (name : Spells l₁ key l₂) (colon : Spaces l₂ (':' :: l₃)) (gap : Spaces l₃ l₄)
      (own : Written number d (.value v) l₄ l₅) (ends : Spaces l₅ (',' :: l₆)) (more : Written number d (.members ms) l₆ t) :
      Written number d (.members ((key, v) :: ms)) l t

theorem Spells.length_lt {l chars t : List Char} (h : Spells l chars t) : t.length < l.length := by
  induction h with
  | done t => simp
  | plain _ _ _ ih => simp; omega
  | escape _ _ ih => simp; omega
  | code _ _ _ ih => simp; omega
  | pair _ _ _ _ _ ih => simp; omega

theorem length_before_value {l l₁ l₂ l₃ l₄ key : List Char} (start : Spaces l ('"' :: l₁)) (name : Spells l₁ key l₂)
    (colon : Spaces l₂ (':' :: l₃)) (gap : Spaces l₃ l₄) : l₄.length + 3 ≤ l.length := by
  have first := start.length_lt
  have second := name.length_lt
  have third := colon.length_lt
  have fourth := gap.length_le
  omega

def isOpening (c : Char) : Bool :=
  c.isDigit || c == '-' || c == 'n' || c == 't' || c == 'f' || c == '"' || c == '[' || c == '\x7b'

theorem isSpace_of_isOpening {c : Char} (opening : isOpening c = true) : isSpace c = false := by
  rw [Bool.eq_false_iff]
  intro space
  simp only [isSpace, Bool.or_eq_true, beq_iff_eq] at space
  rcases space with ((rfl | rfl) | rfl) | rfl <;> revert opening <;> decide

theorem Numeral.facts {l t : List Char} (h : Numeral l t) :
    t.length < l.length ∧ ∃ c rest, l = c :: rest ∧ c.isDigit = true := by
  obtain ⟨digits, _, fraction, exponent⟩ := h
  obtain ⟨c, more, rfl, digit⟩ := digits.cases
  refine ⟨?_, c, _, rfl, digit⟩
  cases fraction <;> cases exponent <;> simp <;> omega

theorem SignedNumeral.facts {l t : List Char} (h : SignedNumeral l t) :
    t.length < l.length ∧ ∃ c rest, l = c :: rest ∧ (c.isDigit = true ∨ c = '-') := by
  cases h with
  | positive numeral =>
    obtain ⟨shorter, c, rest, whole, digit⟩ := numeral.facts
    exact ⟨shorter, c, rest, whole, Or.inl digit⟩
  | negative numeral =>
    obtain ⟨shorter, _⟩ := numeral.facts
    exact ⟨by simp; omega, '-', _, rfl, Or.inr rfl⟩

namespace Written

variable {number : List Char → List Char → Prop} {d : Nat} {phrase : Phrase} {v : Value} {l t : List Char}

theorem imp {number' : List Char → List Char → Prop} (h : Written number d phrase l t)
    (numbers : ∀ l t, number l t → number' l t) : Written number' d phrase l t := by
  induction h with
  | null => exact .null
  | yes => exact .yes
  | no => exact .no
  | string spelled => exact .string spelled
  | number spelled => exact .number (numbers _ _ spelled)
  | emptyList ends => exact .emptyList ends
  | list _ ih => exact .list ih
  | emptyObject ends => exact .emptyObject ends
  | object _ ih => exact .object ih
  | lastItem start _ ends ih => exact .lastItem start ih ends
  | item start _ ends _ ih ih' => exact .item start ih ends ih'
  | lastMember start name colon gap _ ends ih => exact .lastMember start name colon gap ih ends
  | member start name colon gap _ ends _ ih ih' => exact .member start name colon gap ih ends ih'

theorem opens (h : Written number d (.value v) l t) (numbers : ∀ l t, number l t → SignedNumeral l t) :
    ∃ c rest, l = c :: rest ∧ isOpening c = true := by
  cases h with
  | number spelled =>
    obtain ⟨_, c, rest, rfl, known⟩ := (numbers _ _ spelled).facts
    refine ⟨c, rest, rfl, ?_⟩
    rcases known with digit | rfl
    · simp [isOpening, digit]
    · decide
  | _ => exact ⟨_, _, rfl, by decide⟩

theorem solid (h : Written number d (.value v) l t) (numbers : ∀ l t, number l t → SignedNumeral l t) :
    Stops isSpace l := by
  obtain ⟨c, rest, rfl, opening⟩ := h.opens numbers
  exact stops_cons.mpr (isSpace_of_isOpening opening)

theorem opens_items {vs : List Value} (h : Written number d (.items vs) l t)
    (numbers : ∀ l t, number l t → SignedNumeral l t) : ∃ c rest, Spaces l (c :: rest) ∧ isOpening c = true := by
  cases h with
  | lastItem start own _ | item start own _ _ =>
    obtain ⟨c, rest, rfl, opening⟩ := own.opens numbers
    exact ⟨c, rest, start, opening⟩

theorem opens_members {ms : List (List Char × Value)} (h : Written number d (.members ms) l t) :
    ∃ rest, Spaces l ('"' :: rest) := by
  cases h with
  | lastMember start _ _ _ _ _ | member start _ _ _ _ _ _ => exact ⟨_, start⟩

theorem length_lt (h : Written number d phrase l t) (numbers : ∀ l t, number l t → SignedNumeral l t) :
    t.length < l.length := by
  induction h with
  | null | yes | no => simp; try omega
  | string spelled =>
    have shorter := spelled.length_lt
    simp only [List.length_cons]
    omega
  | number spelled => exact (numbers _ _ spelled).facts.1
  | emptyList ends | emptyObject ends =>
    have shorter := ends.length_lt
    simp only [List.length_cons]
    omega
  | list _ ih | object _ ih =>
    simp only [List.length_cons]
    omega
  | lastItem start _ ends ih =>
    have first := start.length_le
    have last := ends.length_lt
    omega
  | item start _ ends _ ih ih' =>
    have first := start.length_le
    have last := ends.length_lt
    omega
  | lastMember start name colon gap _ ends ih =>
    have first := length_before_value start name colon gap
    have last := ends.length_lt
    omega
  | member start name colon gap _ ends _ ih ih' =>
    have first := length_before_value start name colon gap
    have last := ends.length_lt
    omega

end Written

theorem readWord_of_rest {word t : List Char} {r : Reader} (ahead : r.rest = word ++ t) :
    ∃ r', readWord word r = .ok r' ∧ r'.rest = t := by
  induction word generalizing r with
  | nil => exact ⟨r, rfl, ahead⟩
  | cons c word ih =>
    obtain ⟨r', reads, rest⟩ := ih (Reader.eat_rest ahead)
    refine ⟨r', ?_, rest⟩
    rw [readWord, Reader.peek?_of_rest ahead]
    simp only [if_true, reads]

theorem readColon_of_rest {l t : List Char} {r : Reader} (ahead : r.rest = l) (spaces : Spaces l (':' :: t)) :
    ∃ r', readColon r = .ok r' ∧ r'.rest = t := by
  obtain ⟨rest, next⟩ := Reader.peek?_skipBlanks (ahead ▸ spaces) (by decide)
  refine ⟨r.skipBlanks.eat, ?_, Reader.eat_rest rest⟩
  rw [readColon]
  simp only [next]

section Skipping

def Faces (r : Reader) (l : List Char) : Prop :=
  r.rest.dropWhile isSpace = l.dropWhile isSpace

theorem faces_of_rest {r : Reader} {l : List Char} (ahead : r.rest = l) : Faces r l := by
  rw [Faces, ahead]

theorem Faces.spaces {r : Reader} {l l' : List Char} (faces : Faces r l) (start : Spaces l l') (solid : Stops isSpace l') :
    Spaces r.rest l' := by
  obtain ⟨z, inside, rfl⟩ := start
  rw [Faces, Reader.dropWhile_of_stops inside solid] at faces
  refine ⟨r.rest.takeWhile isSpace, fun c member => List.mem_takeWhile_imp member, ?_⟩
  rw [← faces, List.takeWhile_append_dropWhile]

theorem faces_skipBlanks {r : Reader} {l : List Char} (ahead : r.rest = l) : Faces r.skipBlanks l := by
  have dropped : r.skipBlanks.rest = r.rest.dropWhile isSpace := Reader.skipWhile_rest _ _ _ _
  have stop : Stops isSpace (l.dropWhile isSpace) := by
    intro c ahead
    have ahead : (l.dropWhile isSpace).head? = some c := ahead
    have own := List.head?_dropWhile_not isSpace l
    rw [ahead] at own
    simpa using own
  rw [Faces, dropped, ahead]
  exact Reader.dropWhile_of_stops (z := []) (by simp) stop

def Skips : Phrase → List Char → List Char → Prop
  | .value _, l, t => Follows t → ∀ limit r, l.length ≤ limit + 1 + t.length → Spaces r.rest l →
      ∃ r', skipValue (limit + 1) r = .ok r' ∧ r'.rest = t
  | .items _, l, t => ∀ limit r, l.length ≤ limit + 1 + t.length → Faces r l →
      ∃ r', skipItems (limit + 1) r = .ok r' ∧ r'.rest = t
  | .members _, l, t => ∀ limit r, l.length ≤ limit + 1 + t.length → Faces r l →
      ∃ r', skipMembers (limit + 1) r = .ok r' ∧ r'.rest = t

theorem skipValue_digit {r : Reader} {c : Char} {t : List Char} (limit : Nat) (spaces : Spaces r.rest (c :: t))
    (digit : c.isDigit = true) : skipValue (limit + 1) r = skipNumber r.skipBlanks := by
  have opening : isOpening c = true := by simp [isOpening, digit]
  obtain ⟨_, next⟩ := Reader.peek?_skipBlanks spaces (isSpace_of_isOpening opening)
  have minus := ne_of_isDigit digit (show '-'.isDigit = false by decide)
  rw [skipValue]
  simp only [next]
  split
  case h_1 same => cases same
  case h_8 d _ _ _ _ _ _ same =>
    obtain rfl : c = d := Option.some.inj same
    rw [if_neg minus, if_pos digit]
  all_goals
    rename_i same
    obtain rfl := Option.some.inj same
    exact absurd digit (by decide)

theorem skipItems_step {r s : Reader} {limit : Nat} {c : Char} {t : List Char} (own : skipValue limit r = .ok s)
    (ends : Spaces s.rest (c :: t)) (known : c = ',' ∨ c = ']') :
    s.skipBlanks.eat.rest = t ∧
      skipItems (limit + 1) r = if c = ',' then skipItems limit s.skipBlanks.eat else .ok s.skipBlanks.eat := by
  have solid : isSpace c = false := by rcases known with rfl | rfl <;> decide
  obtain ⟨rest, next⟩ := Reader.peek?_skipBlanks ends solid
  refine ⟨Reader.eat_rest rest, ?_⟩
  rw [skipItems]
  simp only [own, bind, Except.bind, next]
  rcases known with rfl | rfl <;> rfl

theorem skipMembers_step {r : Reader} {limit : Nat} {c : Char} {l l₁ l₂ l₃ l₄ l₅ key t : List Char} (faces : Faces r l)
    (start : Spaces l ('"' :: l₁)) (name : Spells l₁ key l₂) (colon : Spaces l₂ (':' :: l₃)) (gap : Spaces l₃ l₄)
    (own : ∀ s : Reader, Spaces s.rest l₄ → ∃ s', skipValue limit s = .ok s' ∧ s'.rest = l₅)
    (ends : Spaces l₅ (c :: t)) (known : c = ',' ∨ c = '\x7d') :
    ∃ s, s.rest = t ∧ skipMembers (limit + 1) r = if c = ',' then skipMembers limit s else .ok s := by
  have solid : isSpace c = false := by rcases known with rfl | rfl <;> decide
  obtain ⟨behind, first⟩ := Reader.peek?_skipBlanks (faces.spaces start (stops_cons.mpr (by decide))) (by decide)
  obtain ⟨s₁, passed₁, rest₁⟩ := skipString_of_spells name (Reader.eat_rest behind)
  obtain ⟨s₂, passed₂, rest₂⟩ := readColon_of_rest rest₁ colon
  obtain ⟨s₃, passed₃, rest₃⟩ := own s₂ (rest₂ ▸ gap)
  obtain ⟨rest, next⟩ := Reader.peek?_skipBlanks (rest₃ ▸ ends) solid
  refine ⟨s₃.skipBlanks.eat, Reader.eat_rest rest, ?_⟩
  rw [skipMembers]
  simp only [first, passed₁, passed₂, passed₃, bind, Except.bind, next]
  rcases known with rfl | rfl <;> rfl

theorem skipValue_of_numeral {r : Reader} {l t : List Char} (limit : Nat) (numeral : SignedNumeral l t) (follows : Follows t)
    (spaces : Spaces r.rest l) : ∃ r', skipValue (limit + 1) r = .ok r' ∧ r'.rest = t := by
  cases numeral with
  | positive numeral =>
    obtain ⟨_, c, more, rfl, digit⟩ := numeral.facts
    have opening : isOpening c = true := by simp [isOpening, digit]
    rw [skipValue_digit limit spaces digit]
    exact skipNumber_of_numeral numeral follows (Reader.peek?_skipBlanks spaces (isSpace_of_isOpening opening)).1
  | negative numeral =>
    obtain ⟨rest, next⟩ := Reader.peek?_skipBlanks spaces (by decide)
    rw [skipValue]
    simp only [next]
    exact skipNumber_of_numeral numeral follows (Reader.eat_rest rest)

theorem skipValue_list {r : Reader} {c : Char} {l m : List Char} (limit : Nat) (spaces : Spaces r.rest ('[' :: l))
    (first : Spaces l (c :: m)) (opening : isOpening c = true) :
    skipValue (limit + 1) r = skipItems limit r.skipBlanks.eat.skipBlanks ∧ Faces r.skipBlanks.eat.skipBlanks l := by
  obtain ⟨rest, next⟩ := Reader.peek?_skipBlanks spaces (by decide)
  obtain ⟨_, inside⟩ := Reader.peek?_skipBlanks ((Reader.eat_rest rest).symm ▸ first) (isSpace_of_isOpening opening)
  have some : ¬ c = ']' := by
    rintro rfl
    cases opening
  refine ⟨?_, faces_skipBlanks (Reader.eat_rest rest)⟩
  rw [skipValue]
  simp only [next, inside, Option.some.injEq, if_neg some, Option.isNone_some, Bool.false_eq_true, if_false]

theorem skipValue_object {r : Reader} {l m : List Char} (limit : Nat) (spaces : Spaces r.rest ('\x7b' :: l))
    (first : Spaces l ('"' :: m)) :
    skipValue (limit + 1) r = skipMembers limit r.skipBlanks.eat.skipBlanks ∧ Faces r.skipBlanks.eat.skipBlanks l := by
  obtain ⟨rest, next⟩ := Reader.peek?_skipBlanks spaces (by decide)
  obtain ⟨_, inside⟩ := Reader.peek?_skipBlanks ((Reader.eat_rest rest).symm ▸ first) (by decide)
  have some : ¬ some '"' = some '\x7d' := by decide
  refine ⟨?_, faces_skipBlanks (Reader.eat_rest rest)⟩
  rw [skipValue]
  simp only [next, inside, if_neg some]

variable {number : List Char → List Char → Prop}

/-- A phrase is passed over up to the text that follows. -/
theorem Written.skips {d : Nat} {phrase : Phrase} {l t : List Char} (h : Written number d phrase l t)
    (numbers : ∀ l t, number l t → SignedNumeral l t) : Skips phrase l t := by
  induction h with
  | null | yes | no =>
    intro _ limit r _ spaces
    obtain ⟨rest, next⟩ := Reader.peek?_skipBlanks spaces (by decide)
    rw [skipValue]
    simp only [next]
    exact readWord_of_rest (Reader.eat_rest rest)
  | string spelled =>
    intro _ limit r _ spaces
    obtain ⟨rest, next⟩ := Reader.peek?_skipBlanks spaces (by decide)
    rw [skipValue]
    simp only [next]
    exact skipString_of_spells spelled (Reader.eat_rest rest)
  | number spelled =>
    intro follows limit r _ spaces
    exact skipValue_of_numeral limit (numbers _ _ spelled) follows spaces
  | emptyList ends | emptyObject ends =>
    intro _ limit r _ spaces
    obtain ⟨rest, next⟩ := Reader.peek?_skipBlanks spaces (by decide)
    obtain ⟨inside, close⟩ := Reader.peek?_skipBlanks ((Reader.eat_rest rest).symm ▸ ends) (by decide)
    refine ⟨r.skipBlanks.eat.skipBlanks.eat, ?_, Reader.eat_rest inside⟩
    rw [skipValue]
    simp only [next, close, if_true]
  | list inner ih =>
    intro _ limit r enough spaces
    have shorter := inner.length_lt numbers
    simp only [List.length_cons] at enough
    obtain ⟨limit, rfl⟩ : ∃ k, limit = k + 1 := ⟨limit - 1, by omega⟩
    obtain ⟨c, _, first, opening⟩ := inner.opens_items numbers
    obtain ⟨step, faces⟩ := skipValue_list (limit + 1) spaces first opening
    rw [step]
    exact ih limit _ (by omega) faces
  | object inner ih =>
    intro _ limit r enough spaces
    have shorter := inner.length_lt numbers
    simp only [List.length_cons] at enough
    obtain ⟨limit, rfl⟩ : ∃ k, limit = k + 1 := ⟨limit - 1, by omega⟩
    obtain ⟨_, first⟩ := inner.opens_members
    obtain ⟨step, faces⟩ := skipValue_object (limit + 1) spaces first
    rw [step]
    exact ih limit _ (by omega) faces
  | lastItem start own ends ih =>
    intro limit r enough faces
    have shorter := own.length_lt numbers
    have first := start.length_le
    have last := ends.length_lt
    obtain ⟨limit, rfl⟩ : ∃ k, limit = k + 1 := ⟨limit - 1, by omega⟩
    obtain ⟨s, passed, rest⟩ := ih (ends.follows (by simp)) limit r (by omega) (faces.spaces start (own.solid numbers))
    obtain ⟨behind, step⟩ := skipItems_step passed (rest ▸ ends) (by simp)
    exact ⟨_, step, behind⟩
  | item start own ends more ih ih' =>
    intro limit r enough faces
    have shorter := own.length_lt numbers
    have shorter' := more.length_lt numbers
    have first := start.length_le
    have last := ends.length_lt
    obtain ⟨limit, rfl⟩ : ∃ k, limit = k + 1 := ⟨limit - 1, by omega⟩
    obtain ⟨s, passed, rest⟩ := ih (ends.follows (by simp)) limit r (by omega) (faces.spaces start (own.solid numbers))
    obtain ⟨behind, step⟩ := skipItems_step passed (rest ▸ ends) (by simp)
    obtain ⟨r', passed', rest'⟩ := ih' limit _ (by omega) (faces_of_rest behind)
    exact ⟨r', step.trans passed', rest'⟩
  | lastMember start name colon gap own ends ih =>
    intro limit r enough faces
    have shorter := own.length_lt numbers
    have first := length_before_value start name colon gap
    have last := ends.length_lt
    obtain ⟨limit, rfl⟩ : ∃ k, limit = k + 1 := ⟨limit - 1, by omega⟩
    have value := fun s spaces => ih (ends.follows (by simp)) limit s (by omega) spaces
    obtain ⟨s, rest, step⟩ := skipMembers_step faces start name colon gap value ends (by simp)
    exact ⟨s, step, rest⟩
  | member start name colon gap own ends more ih ih' =>
    intro limit r enough faces
    have shorter := own.length_lt numbers
    have shorter' := more.length_lt numbers
    have first := length_before_value start name colon gap
    have last := ends.length_lt
    obtain ⟨limit, rfl⟩ : ∃ k, limit = k + 1 := ⟨limit - 1, by omega⟩
    have value := fun s spaces => ih (ends.follows (by simp)) limit s (by omega) spaces
    obtain ⟨s, rest, step⟩ := skipMembers_step faces start name colon gap value ends (by simp)
    obtain ⟨r', passed, rest'⟩ := ih' limit s (by omega) (faces_of_rest rest)
    exact ⟨r', step.trans passed, rest'⟩

end Skipping

end Conformance.Json
