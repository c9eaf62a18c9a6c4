import Conformance.Json.Literal
import Conformance.Proofs.Pattern.Ways

namespace Conformance.Json

open Pattern (Stops stops_cons)

def isSpace (c : Char) : Bool :=
  c == ' ' || c == '\n' || c == '\t' || c == '\r'

def Spaces (l t : List Char) : Prop :=
  ∃ z, (∀ c ∈ z, isSpace c = true) ∧ l = z ++ t

def Follows (t : List Char) : Prop :=
  ∀ c ∈ t.head?, isSpace c = true ∨ c = ',' ∨ c = ']' ∨ c = '\x7d'

namespace Reader

variable {r : Reader} {c : Char} {l t : List Char}

theorem peek?_of_rest (ahead : r.rest = c :: t) : r.peek? = some c := by
  rw [peek?, ahead]
  rfl

theorem eat_rest (ahead : r.rest = c :: t) : r.eat.rest = t := by
  unfold eat past
  rw [ahead]
  by_cases line : c = '\n' <;> simp [line]

theorem skipWhile_rest (accepts : Char → Bool) (line column : Nat) (l : List Char) :
    (skipWhile accepts line column l).rest = l.dropWhile accepts := by
  induction l generalizing line column with
  | nil => rfl
  | cons c l ih =>
    by_cases accepted : accepts c = true
    · rw [skipWhile, if_pos accepted, ih, List.dropWhile_cons_of_pos accepted]
    · rw [skipWhile, if_neg accepted, List.dropWhile_cons_of_neg accepted]

theorem skipDigits_rest (r : Reader) : r.skipDigits.rest = r.rest.dropWhile Char.isDigit :=
  skipWhile_rest _ _ _ _

theorem dropWhile_of_stops {accepts : Char → Bool} {z t : List Char} (inside : ∀ c ∈ z, accepts c = true)
    (stop : Stops accepts t) : (z ++ t).dropWhile accepts = t := by
  rw [List.dropWhile_append_of_pos inside]
  cases t with
  | nil => rfl
  | cons c t => exact List.dropWhile_cons_of_neg (by simp [stops_cons.mp stop])

theorem takeWhile_of_stops {accepts : Char → Bool} {z t : List Char} (inside : ∀ c ∈ z, accepts c = true)
    (stop : Stops accepts t) : (z ++ t).takeWhile accepts = z := by
  rw [List.takeWhile_append_of_pos inside]
  cases t with
  | nil => exact List.append_nil z
  | cons c t => rw [List.takeWhile_cons_of_neg (by simp [stops_cons.mp stop]), List.append_nil]

theorem skipBlanks_rest (spaces : Spaces r.rest l) (solid : Stops isSpace l) : r.skipBlanks.rest = l := by
  obtain ⟨z, inside, cut⟩ := spaces
  have dropped : r.skipBlanks.rest = r.rest.dropWhile isSpace := skipWhile_rest _ _ _ _
  rw [dropped, cut, dropWhile_of_stops inside solid]

theorem peek?_skipBlanks (spaces : Spaces r.rest (c :: t)) (solid : isSpace c = false) :
    r.skipBlanks.rest = c :: t ∧ r.skipBlanks.peek? = some c := by
  have rest := skipBlanks_rest spaces (stops_cons.mpr solid)
  exact ⟨rest, peek?_of_rest rest⟩

end Reader

theorem Spaces.refl (t : List Char) : Spaces t t :=
  ⟨[], by simp, rfl⟩

theorem Spaces.follows {l t : List Char} {c : Char} (spaces : Spaces l (c :: t)) (ends : c = ',' ∨ c = ']' ∨ c = '\x7d') :
    Follows l := by
  obtain ⟨z, inside, rfl⟩ := spaces
  intro d ahead
  cases z with
  | nil =>
    obtain rfl : c = d := by simpa using ahead
    exact Or.inr ends
  | cons e z =>
    obtain rfl : e = d := by simpa using ahead
    exact Or.inl (inside e (by simp))

theorem Spaces.length_le {l t : List Char} (spaces : Spaces l t) : t.length ≤ l.length := by
  obtain ⟨z, _, rfl⟩ := spaces
  simp

theorem Spaces.length_lt {l t : List Char} {c : Char} (spaces : Spaces l (c :: t)) : t.length < l.length :=
  Nat.lt_of_succ_le spaces.length_le

/-- The text begins with the characters of a string, as they are written, and its quotation mark. -/
inductive Spells : List Char → List Char → List Char → Prop
  | done (t : List Char) : Spells ('"' :: t) [] t
  | plain {c : Char} {l chars t : List Char} (solid : c ≠ '"' ∧ c ≠ '\\') (visible : 0x20 ≤ c.toNat)
      (more : Spells l chars t) : Spells (c :: l) (c :: chars) t
  | escape {mark c : Char} {l chars t : List Char} (known : simpleEscape? mark = some c) (more : Spells l chars t) :
      Spells ('\\' :: mark :: l) (c :: chars) t
  | code {a b c d : Char} {n : Nat} {l chars t : List Char} (digits : fourHex? [a, b, c, d] = some n)
      (single : n < 0xD800 ∨ 0xDFFF < n) (more : Spells l chars t) :
      Spells ('\\' :: 'u' :: a :: b :: c :: d :: l) (Char.ofNat n :: chars) t
  | pair {a b c d a' b' c' d' : Char} {n low : Nat} {l chars t : List Char} (digits : fourHex? [a, b, c, d] = some n)
      (digits' : fourHex? [a', b', c', d'] = some low) (high : 0xD800 ≤ n ∧ n ≤ 0xDBFF)
      (low_ : 0xDC00 ≤ low ∧ low ≤ 0xDFFF) (more : Spells l chars t) :
      Spells ('\\' :: 'u' :: a :: b :: c :: d :: '\\' :: 'u' :: a' :: b' :: c' :: d' :: l)
        (Char.ofNat ((n - 0xD800) * 0x400 + (low - 0xDC00) + 0x10000) :: chars) t

theorem fourHex?_append {a b c d : Char} (l : List Char) : fourHex? (a :: b :: c :: d :: l) = fourHex? [a, b, c, d] := rfl

theorem readHex_of_digits {r : Reader} {a b c d : Char} {n : Nat} {l : List Char} (ahead : r.rest = a :: b :: c :: d :: l)
    (digits : fourHex? [a, b, c, d] = some n) : readHex r = .ok (n, r.eat.eat.eat.eat) ∧ r.eat.eat.eat.eat.rest = l := by
  constructor
  · rw [readHex, ahead, fourHex?_append, digits]
  · exact Reader.eat_rest (Reader.eat_rest (Reader.eat_rest (Reader.eat_rest ahead)))

theorem readEscape_simple {r : Reader} {mark c : Char} {l : List Char} (ahead : r.rest = mark :: l)
    (known : simpleEscape? mark = some c) : readEscape r = .ok (c, r.eat) := by
  have other : mark ≠ 'u' := by
    rintro rfl
    cases known
  rw [readEscape, Reader.peek?_of_rest ahead]
  split
  · rename_i same
    cases same
  · rename_i same
    exact absurd (Option.some.inj same) other
  · rename_i d _ same
    obtain rfl : mark = d := Option.some.inj same
    rw [known]

theorem readEscape_code {r : Reader} {a b c d : Char} {n : Nat} {l : List Char}
    (ahead : r.rest = 'u' :: a :: b :: c :: d :: l) (digits : fourHex? [a, b, c, d] = some n)
    (single : n < 0xD800 ∨ 0xDFFF < n) : ∃ r', readEscape r = .ok (Char.ofNat n, r') ∧ r'.rest = l := by
  obtain ⟨hex, rest⟩ := readHex_of_digits (Reader.eat_rest ahead) digits
  refine ⟨_, ?_, rest⟩
  have noLow : ¬ (0xDC00 ≤ n ∧ n ≤ 0xDFFF) := by omega
  have noHigh : n < 0xD800 ∨ 0xDBFF < n := by omega
  rw [readEscape, Reader.peek?_of_rest ahead]
  simp only [readCodePoint, hex, bind, Except.bind, if_neg noLow, if_pos noHigh]
  rfl

theorem readPairMark_of_rest {r : Reader} {mark : Char} {l : List Char} (ahead : r.rest = mark :: l) :
    readPairMark mark r = .ok r.eat := by
  rw [readPairMark, Reader.peek?_of_rest ahead]
  exact if_pos rfl

theorem readEscape_pair {r : Reader} {a b c d a' b' c' d' : Char} {n low : Nat} {l : List Char}
    (ahead : r.rest = 'u' :: a :: b :: c :: d :: '\\' :: 'u' :: a' :: b' :: c' :: d' :: l)
    (digits : fourHex? [a, b, c, d] = some n) (digits' : fourHex? [a', b', c', d'] = some low)
    (high : 0xD800 ≤ n ∧ n ≤ 0xDBFF) (low_ : 0xDC00 ≤ low ∧ low ≤ 0xDFFF) :
    ∃ r', readEscape r = .ok (Char.ofNat ((n - 0xD800) * 0x400 + (low - 0xDC00) + 0x10000), r') ∧ r'.rest = l := by
  obtain ⟨hex, rest⟩ := readHex_of_digits (Reader.eat_rest ahead) digits
  have slash := readPairMark_of_rest rest
  have letter := readPairMark_of_rest (Reader.eat_rest rest)
  obtain ⟨hex', rest'⟩ := readHex_of_digits (Reader.eat_rest (Reader.eat_rest rest)) digits'
  refine ⟨_, ?_, rest'⟩
  have noLow : ¬ (0xDC00 ≤ n ∧ n ≤ 0xDFFF) := by omega
  have noHigh : ¬ (n < 0xD800 ∨ 0xDBFF < n) := by omega
  have fits : ¬ (low < 0xDC00 ∨ 0xDFFF < low) := by omega
  rw [readEscape, Reader.peek?_of_rest ahead]
  simp only [readCodePoint, hex, slash, letter, hex', bind, Except.bind, if_neg noLow, if_neg noHigh, if_neg fits]
  rfl

theorem readStringBody_escape {r r' : Reader} {c : Char} {l : List Char} (limit : Nat) (ahead : r.rest = '\\' :: l)
    (escape : readEscape r.eat = .ok (c, r')) :
    readStringBody (limit + 1) r = (readStringBody limit r').map fun (more, r) => (c :: more, r) := by
  rw [readStringBody, Reader.peek?_of_rest ahead]
  simp only [escape, bind, Except.bind]
  cases readStringBody limit r' <;> rfl

/-- A string is read up to its end. -/
theorem readStringBody_of_spells {l chars t : List Char} (h : Spells l chars t) (limit : Nat) (r : Reader)
    (enough : l.length ≤ limit) (ahead : r.rest = l) : ∃ r', readStringBody limit r = .ok (chars, r') ∧ r'.rest = t := by
  induction h generalizing limit r with
  | done t =>
    obtain ⟨limit, rfl⟩ : ∃ k, limit = k + 1 := ⟨limit - 1, by simp at enough; omega⟩
    refine ⟨r.eat, ?_, Reader.eat_rest ahead⟩
    rw [readStringBody, Reader.peek?_of_rest ahead]
    rfl
  | @plain c l chars t solid visible more ih =>
    obtain ⟨limit, rfl⟩ : ∃ k, limit = k + 1 := ⟨limit - 1, by simp at enough; omega⟩
    obtain ⟨r', body, rest⟩ := ih limit r.eat (by simpa using enough) (Reader.eat_rest ahead)
    refine ⟨r', ?_, rest⟩
    have control : ¬ c.toNat < 0x20 := by omega
    rw [readStringBody, Reader.peek?_of_rest ahead]
    split
    · rename_i same
      cases same
    · rename_i same
      exact absurd (Option.some.inj same) solid.1
    · rename_i same
      exact absurd (Option.some.inj same) solid.2
    · rename_i d _ _ same
      obtain rfl : c = d := Option.some.inj same
      rw [if_neg control, body]
      rfl
  | escape known more ih =>
    obtain ⟨limit, rfl⟩ : ∃ k, limit = k + 1 := ⟨limit - 1, by simp at enough; omega⟩
    have behind := Reader.eat_rest ahead
    obtain ⟨r', body, rest⟩ := ih limit r.eat.eat (by simp at enough; omega) (Reader.eat_rest behind)
    rw [readStringBody_escape limit ahead (readEscape_simple behind known), body]
    exact ⟨r', rfl, rest⟩
  | code digits single more ih =>
    obtain ⟨limit, rfl⟩ : ∃ k, limit = k + 1 := ⟨limit - 1, by simp at enough; omega⟩
    obtain ⟨s, escape, behind⟩ := readEscape_code (Reader.eat_rest ahead) digits single
    obtain ⟨r', body, rest⟩ := ih limit s (by simp at enough; omega) behind
    rw [readStringBody_escape limit ahead escape, body]
    exact ⟨r', rfl, rest⟩
  | pair digits digits' high low_ more ih =>
    obtain ⟨limit, rfl⟩ : ∃ k, limit = k + 1 := ⟨limit - 1, by simp at enough; omega⟩
    obtain ⟨s, escape, behind⟩ := readEscape_pair (Reader.eat_rest ahead) digits digits' high low_
    obtain ⟨r', body, rest⟩ := ih limit s (by simp at enough; omega) behind
    rw [readStringBody_escape limit ahead escape, body]
    exact ⟨r', rfl, rest⟩

theorem readString_of_spells {l chars t : List Char} (h : Spells l chars t) {r : Reader} (ahead : r.rest = l) :
    ∃ r', readString r = .ok (chars, r') ∧ r'.rest = t :=
  readStringBody_of_spells h _ r (by simp [ahead]) ahead

theorem skipEscape_simple {r : Reader} {mark c : Char} {l : List Char} (ahead : r.rest = mark :: l)
    (known : simpleEscape? mark = some c) : skipEscape r = .ok r.eat := by
  have other : mark ≠ 'u' := by
    rintro rfl
    cases known
  rw [skipEscape, Reader.peek?_of_rest ahead]
  split
  · rename_i same
    cases same
  · rename_i same
    exact absurd (Option.some.inj same) other
  · rename_i d _ same
    obtain rfl : mark = d := Option.some.inj same
    rw [known]

theorem skipEscape_code {r : Reader} {a b c d : Char} {n : Nat} {l : List Char}
    (ahead : r.rest = 'u' :: a :: b :: c :: d :: l) (digits : fourHex? [a, b, c, d] = some n) :
    ∃ r', skipEscape r = .ok r' ∧ r'.rest = l := by
  obtain ⟨hex, rest⟩ := readHex_of_digits (Reader.eat_rest ahead) digits
  refine ⟨_, ?_, rest⟩
  rw [skipEscape, Reader.peek?_of_rest ahead]
  simp only [hex]
  rfl

theorem skipStringBody_escape {r r' : Reader} {l : List Char} (limit : Nat) (ahead : r.rest = '\\' :: l)
    (escape : skipEscape r.eat = .ok r') : skipStringBody (limit + 1) r = skipStringBody limit r' := by
  rw [skipStringBody, Reader.peek?_of_rest ahead]
  simp only [escape, bind, Except.bind]

/-- A string is passed over up to its end. -/
theorem skipStringBody_of_spells {l chars t : List Char} (h : Spells l chars t) (limit : Nat) (r : Reader)
    (enough : l.length ≤ limit) (ahead : r.rest = l) : ∃ r', skipStringBody limit r = .ok r' ∧ r'.rest = t := by
  induction h generalizing limit r with
  | done t =>
    obtain ⟨limit, rfl⟩ : ∃ k, limit = k + 1 := ⟨limit - 1, by simp at enough; omega⟩
    refine ⟨r.eat, ?_, Reader.eat_rest ahead⟩
    rw [skipStringBody, Reader.peek?_of_rest ahead]
    rfl
  | @plain c l chars t solid visible more ih =>
    obtain ⟨limit, rfl⟩ : ∃ k, limit = k + 1 := ⟨limit - 1, by simp at enough; omega⟩
    obtain ⟨r', body, rest⟩ := ih limit r.eat (by simpa using enough) (Reader.eat_rest ahead)
    refine ⟨r', ?_, rest⟩
    have control : ¬ c.toNat < 0x20 := by omega
    rw [skipStringBody, Reader.peek?_of_rest ahead]
    split
    · rename_i same
      cases same
    · rename_i same
      exact absurd (Option.some.inj same) solid.1
    · rename_i same
      exact absurd (Option.some.inj same) solid.2
    · rename_i d _ _ same
      obtain rfl : c = d := Option.some.inj same
      rw [if_neg control, body]
  | escape known more ih =>
    obtain ⟨limit, rfl⟩ : ∃ k, limit = k + 1 := ⟨limit - 1, by simp at enough; omega⟩
    have behind := Reader.eat_rest ahead
    rw [skipStringBody_escape limit ahead (skipEscape_simple behind known)]
    exact ih limit r.eat.eat (by simp at enough; omega) (Reader.eat_rest behind)
  | code digits single more ih =>
    obtain ⟨limit, rfl⟩ : ∃ k, limit = k + 1 := ⟨limit - 1, by simp at enough; omega⟩
    obtain ⟨s, escape, behind⟩ := skipEscape_code (Reader.eat_rest ahead) digits
    rw [skipStringBody_escape limit ahead escape]
    exact ih limit s (by simp at enough; omega) behind
  | pair digits digits' high low_ more ih =>
    -- each half of a pair is an escape of its own
    obtain ⟨limit, rfl⟩ : ∃ k, limit = k + 2 := ⟨limit - 2, by simp at enough; omega⟩
    obtain ⟨s, escape, behind⟩ := skipEscape_code (Reader.eat_rest ahead) digits
    obtain ⟨s', escape', behind'⟩ := skipEscape_code (Reader.eat_rest behind) digits'
    rw [skipStringBody_escape (limit + 1) ahead escape, skipStringBody_escape limit behind escape']
    exact ih limit s' (by simp at enough; omega) behind'

theorem skipString_of_spells {l chars t : List Char} (h : Spells l chars t) {r : Reader} (ahead : r.rest = l) :
    ∃ r', skipString r = .ok r' ∧ r'.rest = t :=
  skipStringBody_of_spells h _ r (by simp [ahead]) ahead

end Conformance.Json
