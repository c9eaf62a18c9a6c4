import Conformance.Proofs.Json.Ranges
import Conformance.Proofs.Json.Values

namespace Conformance.Json

open Pattern (Stops stops_cons)

inductive Rows {α : Type} (Row : α → List Char → List Char → Prop) : List α → List Char → List Char → Prop
  | last {a : α} {l l₁ l₂ t : List Char} (start : Spaces l l₁) (own : Row a l₁ l₂) (ends : Spaces l₂ (']' :: t)) :
      Rows Row [a] l t
  | more {a : α} {as : List α} {l l₁ l₂ l₃ t : List Char} (start : Spaces l l₁) (own : Row a l₁ l₂)
      (ends : Spaces l₂ (',' :: l₃)) (others : Rows Row as l₃ t) : Rows Row (a :: as) l t

/-- The text begins with members, at least one, and the brace behind them. Each leads on from one state to
the next. -/
inductive KeyRows {σ : Type} (Step : σ → List Char → σ → List Char → List Char → Prop) : σ → σ → List Char → List Char → Prop
  | last {s s' : σ} {key l l₁ l₂ l₃ t : List Char} (start : Spaces l ('"' :: l₁)) (name : Spells l₁ key l₂)
      (own : Step s key s' l₂ l₃) (ends : Spaces l₃ ('\x7d' :: t)) : KeyRows Step s s' l t
  | more {s s' s'' : σ} {key l l₁ l₂ l₃ l₄ t : List Char} (start : Spaces l ('"' :: l₁)) (name : Spells l₁ key l₂)
      (own : Step s key s' l₂ l₃) (ends : Spaces l₃ (',' :: l₄)) (others : KeyRows Step s' s'' l₄ t) :
      KeyRows Step s s'' l t

section Next

variable {r : Reader} {l t : List Char} {c : Char}

theorem ne_of_isOpening (opening : isOpening c = true) : c ≠ ']' := by
  rintro rfl
  cases opening

theorem nextItem_first (spaces : Spaces r.rest (c :: t)) (opening : isOpening c = true) :
    nextItem true r = .ok (true, r.skipBlanks) := by
  obtain ⟨_, next⟩ := Reader.peek?_skipBlanks spaces (isSpace_of_isOpening opening)
  simp [nextItem, next, ne_of_isOpening opening]

theorem nextItem_comma (comma : Spaces r.rest (',' :: l)) (spaces : Spaces l (c :: t)) (opening : isOpening c = true) :
    nextItem false r = .ok (true, r.skipBlanks.eat.skipBlanks) := by
  obtain ⟨rest, next⟩ := Reader.peek?_skipBlanks comma (by decide)
  obtain ⟨_, next'⟩ := Reader.peek?_skipBlanks ((Reader.eat_rest rest).symm ▸ spaces) (isSpace_of_isOpening opening)
  simp [nextItem, next, next', ne_of_isOpening opening]

theorem nextItem_end (first : Bool) (spaces : Spaces r.rest (']' :: t)) :
    nextItem first r = .ok (false, r.skipBlanks) := by
  obtain ⟨_, next⟩ := Reader.peek?_skipBlanks spaces (by decide)
  rw [nextItem]
  simp only [next]

theorem nextKey_first (spaces : Spaces r.rest ('"' :: t)) : nextKey true r = .ok (true, r.skipBlanks) := by
  obtain ⟨_, next⟩ := Reader.peek?_skipBlanks spaces (by decide)
  rw [nextKey]
  simp only [next]
  rfl

theorem nextKey_comma (comma : Spaces r.rest (',' :: l)) (spaces : Spaces l ('"' :: t)) :
    nextKey false r = .ok (true, r.skipBlanks.eat.skipBlanks) := by
  obtain ⟨rest, next⟩ := Reader.peek?_skipBlanks comma (by decide)
  obtain ⟨_, next'⟩ := Reader.peek?_skipBlanks ((Reader.eat_rest rest).symm ▸ spaces) (by decide)
  simp [nextKey, next, next']

theorem nextKey_end (first : Bool) (spaces : Spaces r.rest ('\x7d' :: t)) :
    nextKey first r = .ok (false, r.skipBlanks) := by
  obtain ⟨_, next⟩ := Reader.peek?_skipBlanks spaces (by decide)
  rw [nextKey]
  simp only [next]

theorem close_leaveList {α : Type} {a : α} (ahead : Spaces r.rest (']' :: t)) :
    ∃ r', close leaveList (.ok (a, r)) = .ok (a, r') ∧ r'.rest = t := by
  obtain ⟨rest, next⟩ := Reader.peek?_skipBlanks ahead (by decide)
  refine ⟨r.skipBlanks.eat, ?_, Reader.eat_rest rest⟩
  simp only [close, leaveList, next]

theorem close_leaveObject {α : Type} {a : α} (ahead : Spaces r.rest ('\x7d' :: t)) :
    ∃ r', close leaveObject (.ok (a, r)) = .ok (a, r') ∧ r'.rest = t := by
  obtain ⟨rest, next⟩ := Reader.peek?_skipBlanks ahead (by decide)
  refine ⟨r.skipBlanks.eat, ?_, Reader.eat_rest rest⟩
  simp only [close, leaveObject, next]

end Next

section Reading

def Before (first : Bool) (r : Reader) (l : List Char) : Prop :=
  if first then r.rest = l else Spaces r.rest (',' :: l)

theorem nextItem_before {first : Bool} {r : Reader} {l t : List Char} {c : Char} (before : Before first r l)
    (spaces : Spaces l (c :: t)) (opening : isOpening c = true) :
    ∃ r', nextItem first r = .ok (true, r') ∧ r'.rest = c :: t := by
  cases first with
  | true =>
    have before : r.rest = l := before
    refine ⟨_, nextItem_first (before ▸ spaces) opening, ?_⟩
    exact (Reader.peek?_skipBlanks (before ▸ spaces) (isSpace_of_isOpening opening)).1
  | false =>
    obtain ⟨rest, _⟩ := Reader.peek?_skipBlanks before (by decide)
    refine ⟨_, nextItem_comma before spaces opening, ?_⟩
    exact (Reader.peek?_skipBlanks ((Reader.eat_rest rest).symm ▸ spaces) (isSpace_of_isOpening opening)).1

theorem nextKey_before {first : Bool} {r : Reader} {l t : List Char} (before : Before first r l)
    (spaces : Spaces l ('"' :: t)) : ∃ r', nextKey first r = .ok (true, r') ∧ r'.rest = '"' :: t := by
  cases first with
  | true =>
    have before : r.rest = l := before
    exact ⟨_, nextKey_first (before ▸ spaces), (Reader.peek?_skipBlanks (before ▸ spaces) (by decide)).1⟩
  | false =>
    obtain ⟨rest, _⟩ := Reader.peek?_skipBlanks before (by decide)
    refine ⟨_, nextKey_comma before spaces, ?_⟩
    exact (Reader.peek?_skipBlanks ((Reader.eat_rest rest).symm ▸ spaces) (by decide)).1

def appending {α : Type} (read : Reader → Except Failure (α × Reader)) (done : List α) (r : Reader) :
    Except Failure (List α × Reader) := do
  let (value, r) ← read r
  pure (done ++ [value], r)

def Reads {α : Type} (read : Reader → Except Failure (α × Reader)) (bound : Nat) (a : α) (l t : List Char) : Prop :=
  Follows t → l.length ≤ bound → ∀ r : Reader, Spaces r.rest l → ∃ r', read r = .ok (a, r') ∧ r'.rest = t

theorem readItems_next {α : Type} {read : Reader → Except Failure (α × Reader)} {limit : Nat} {first : Bool} {done : List α}
    {r s s' : Reader} {a : α} (next : nextItem first r = .ok (true, s)) (own : read s = .ok (a, s')) :
    readItems (appending read) (limit + 1) first done r = readItems (appending read) limit false (done ++ [a]) s' := by
  rw [readItems]
  simp only [next, appending, own, bind, Except.bind, pure, Except.pure, if_true]

theorem readItems_end {α : Type} {item : α → Reader → Except Failure (α × Reader)} {limit : Nat} {first : Bool} {done : α}
    {r s : Reader} (next : nextItem first r = .ok (false, s)) : readItems item (limit + 1) first done r = .ok (done, s) := by
  rw [readItems]
  simp only [next, bind, Except.bind, pure, Except.pure, Bool.false_eq_true, if_false]

/-- Items are read one after another, up to the bracket. -/
theorem readItems_of_rows {α : Type} {Row : α → List Char → List Char → Prop}
    {read : Reader → Except Failure (α × Reader)} {bound : Nat} (sound : ∀ a l t, Row a l t → Reads read bound a l t)
    (opens : ∀ a l t, Row a l t → t.length < l.length ∧ ∃ c rest, l = c :: rest ∧ isOpening c = true) {as : List α}
    {l t : List Char} (rows : Rows Row as l t) {limit : Nat} {first : Bool} {done : List α} {r : Reader}
    (short : l.length ≤ bound) (enough : l.length ≤ limit) (before : Before first r l) :
    ∃ r', readItems (appending read) limit first done r = .ok (done ++ as, r') ∧ Spaces r'.rest (']' :: t) := by
  induction rows generalizing limit first done r with
  | @last a l l₁ l₂ t start own ends =>
    obtain ⟨shorter, c, rest, rfl, opening⟩ := opens a l₁ l₂ own
    have lead := start.length_le
    have tail := ends.length_lt
    simp only [List.length_cons] at shorter lead
    obtain ⟨limit, rfl⟩ : ∃ k, limit = k + 2 := ⟨limit - 2, by omega⟩
    obtain ⟨s, next, here⟩ := nextItem_before before start opening
    obtain ⟨s', value, behind⟩ := sound _ _ _ own (ends.follows (by simp)) (by simp only [List.length_cons]; omega) s
      (here ▸ Spaces.refl _)
    refine ⟨s'.skipBlanks, ?_, ?_⟩
    · rw [readItems_next next value, readItems_end (nextItem_end false (behind ▸ ends))]
    · rw [(Reader.peek?_skipBlanks (behind ▸ ends) (by decide)).1]
      exact Spaces.refl _
  | @more a as l l₁ l₂ l₃ t start own ends others ih =>
    obtain ⟨shorter, c, rest, rfl, opening⟩ := opens a l₁ l₂ own
    have lead := start.length_le
    have tail := ends.length_lt
    simp only [List.length_cons] at shorter lead
    obtain ⟨limit, rfl⟩ : ∃ k, limit = k + 1 := ⟨limit - 1, by omega⟩
    obtain ⟨s, next, here⟩ := nextItem_before before start opening
    obtain ⟨s', value, behind⟩ := sound _ _ _ own (ends.follows (by simp)) (by simp only [List.length_cons]; omega) s
      (here ▸ Spaces.refl _)
    have comma : Spaces s'.rest (',' :: l₃) := behind ▸ ends
    obtain ⟨r', items, final⟩ := ih (by omega) (show l₃.length ≤ limit by omega) (show Before false s' l₃ from comma)
    refine ⟨r', ?_, final⟩
    rw [readItems_next next value, items, List.append_assoc, List.singleton_append]

def Leads {σ : Type} (member : σ → List Char → Reader → Except Failure (σ × Reader)) (bound : Nat) (s : σ)
    (key : List Char) (s' : σ) (l t : List Char) : Prop :=
  Follows t → l.length ≤ bound → ∀ r : Reader, r.rest = l → ∃ r', member s key r = .ok (s', r') ∧ r'.rest = t

theorem readMembers_next {σ : Type} {member : σ → List Char → Reader → Except Failure (σ × Reader)} {limit : Nat}
    {first : Bool} {s s' : σ} {key : List Char} {r p p' p'' : Reader} (next : nextKey first r = .ok (true, p))
    (name : readString p.eat = .ok (key, p')) (own : member s key p' = .ok (s', p'')) :
    readMembers member (limit + 1) first s r = readMembers member limit false s' p'' := by
  rw [readMembers]
  simp only [next, name, own, bind, Except.bind, if_true]

theorem readMembers_end {σ : Type} {member : σ → List Char → Reader → Except Failure (σ × Reader)} {limit : Nat}
    {first : Bool} {s : σ} {r p : Reader} (next : nextKey first r = .ok (false, p)) :
    readMembers member (limit + 1) first s r = .ok (s, p) := by
  rw [readMembers]
  simp only [next, bind, Except.bind, pure, Except.pure, Bool.false_eq_true, if_false]

/-- Members are read one after another, up to the brace. -/
theorem readMembers_of_rows {σ : Type} {Step : σ → List Char → σ → List Char → List Char → Prop}
    {member : σ → List Char → Reader → Except Failure (σ × Reader)} {bound : Nat}
    (sound : ∀ s key s' l t, Step s key s' l t → Leads member bound s key s' l t)
    (shrinks : ∀ s key s' l t, Step s key s' l t → t.length ≤ l.length) {s s' : σ} {l t : List Char}
    (rows : KeyRows Step s s' l t) {limit : Nat} {first : Bool} {r : Reader} (short : l.length ≤ bound)
    (enough : l.length ≤ limit) (before : Before first r l) :
    ∃ r', readMembers member limit first s r = .ok (s', r') ∧ Spaces r'.rest ('\x7d' :: t) := by
  induction rows generalizing limit first r with
  | @last s s' key l l₁ l₂ l₃ t start name own ends =>
    have lead := start.length_lt
    have shorter := name.length_lt
    have shorter' := shrinks _ _ _ _ _ own
    have tail := ends.length_lt
    obtain ⟨limit, rfl⟩ : ∃ k, limit = k + 2 := ⟨limit - 2, by omega⟩
    obtain ⟨p, next, here⟩ := nextKey_before before start
    obtain ⟨p', word, behind⟩ := readString_of_spells name (Reader.eat_rest here)
    obtain ⟨p'', value, rest⟩ := sound _ _ _ _ _ own (ends.follows (by simp)) (by omega) p' behind
    refine ⟨p''.skipBlanks, ?_, ?_⟩
    · rw [readMembers_next next word value, readMembers_end (nextKey_end false (rest ▸ ends))]
    · rw [(Reader.peek?_skipBlanks (rest ▸ ends) (by decide)).1]
      exact Spaces.refl _
  | @more s s' s'' key l l₁ l₂ l₃ l₄ t start name own ends others ih =>
    have lead := start.length_lt
    have shorter := name.length_lt
    have shorter' := shrinks _ _ _ _ _ own
    have tail := ends.length_lt
    obtain ⟨limit, rfl⟩ : ∃ k, limit = k + 1 := ⟨limit - 1, by omega⟩
    obtain ⟨p, next, here⟩ := nextKey_before before start
    obtain ⟨p', word, behind⟩ := readString_of_spells name (Reader.eat_rest here)
    obtain ⟨p'', value, rest⟩ := sound _ _ _ _ _ own (ends.follows (by simp)) (by omega) p' behind
    have comma : Spaces p''.rest (',' :: l₄) := rest ▸ ends
    obtain ⟨r', members, final⟩ := ih (by omega) (show l₄.length ≤ limit by omega) (show Before false p'' l₄ from comma)
    refine ⟨r', ?_, final⟩
    rw [readMembers_next next word value, members]

end Reading

section Values

def Appended (limit depth : Nat) (done : List (List Char × Value)) (key : List Char) (done' : List (List Char × Value))
    (l t : List Char) : Prop :=
  ∃ v l₁ l₂, done' = done ++ [(key, v)] ∧ Spaces l (':' :: l₁) ∧ Spaces l₁ l₂ ∧ t.length < l₂.length ∧
    Reads (readValue limit depth) limit v l₂ t

def Read (d : Nat) : Phrase → List Char → List Char → Prop
  | .value v, l, t => ∀ limit depth, d < depth → Reads (readValue limit depth) limit v l t
  | .items vs, l, t => ∀ limit depth, d < depth → Rows (fun v l t => (t.length < l.length ∧
      ∃ c rest, l = c :: rest ∧ isOpening c = true) ∧ Reads (readValue limit depth) limit v l t) vs l t
  | .members ms, l, t => ∀ limit depth, d < depth → ∀ done, KeyRows (Appended limit depth) done (done ++ ms) l t

theorem readValue_digit {r : Reader} {c : Char} {t : List Char} (limit depth : Nat) (spaces : Spaces r.rest (c :: t))
    (digit : c.isDigit = true) :
    readValue (limit + 1) depth r = (readNumber true r.skipBlanks).map fun (_, r) => (Value.number, r) := by
  have opening : isOpening c = true := by simp [isOpening, digit]
  obtain ⟨_, next⟩ := Reader.peek?_skipBlanks spaces (isSpace_of_isOpening opening)
  have minus := ne_of_isDigit digit (show '-'.isDigit = false by decide)
  rw [readValue]
  simp only [next]
  split
  case h_1 same => cases same
  case h_8 d _ _ _ _ _ _ same =>
    obtain rfl : c = d := Option.some.inj same
    rw [if_neg minus, if_pos digit]
    cases readNumber true r.skipBlanks <;> rfl
  all_goals
    rename_i same
    obtain rfl := Option.some.inj same
    exact absurd digit (by decide)

theorem readValue_list {r : Reader} {l t : List Char} {vs : List Value} {limit depth : Nat} (spaces : Spaces r.rest ('[' :: l))
    (deep : 1 < depth)
    (items : ∃ p, readItems (appending (readValue limit (depth - 1))) limit true [] r.skipBlanks.eat = .ok (vs, p) ∧
      Spaces p.rest (']' :: t)) :
    ∃ r', readValue (limit + 1) depth r = .ok (.list vs, r') ∧ r'.rest = t := by
  obtain ⟨_, next⟩ := Reader.peek?_skipBlanks spaces (by decide)
  obtain ⟨p, items, ends⟩ := items
  have shallow : ¬ depth ≤ 1 := by omega
  rw [readValue]
  simp only [next, if_neg shallow]
  change ∃ r', close leaveList ((readItems (appending (readValue limit (depth - 1))) limit true [] r.skipBlanks.eat).bind
    fun x => .ok (Value.list x.1, x.2)) = _ ∧ _
  rw [items]
  exact close_leaveList ends

def appendingMember (limit depth : Nat) (done : List (List Char × Value)) (key : List Char) (r : Reader) :
    Except Failure (List (List Char × Value) × Reader) := do
  let r ← readColon r
  let (value, r) ← readValue limit depth r
  pure (done ++ [(key, value)], r)

theorem readValue_object {r : Reader} {l t : List Char} {ms : List (List Char × Value)} {limit depth : Nat}
    (spaces : Spaces r.rest ('\x7b' :: l)) (deep : 1 < depth)
    (members : ∃ p, readMembers (appendingMember limit (depth - 1)) limit true [] r.skipBlanks.eat = .ok (ms, p) ∧
      Spaces p.rest ('\x7d' :: t)) :
    ∃ r', readValue (limit + 1) depth r = .ok (.object ms, r') ∧ r'.rest = t := by
  obtain ⟨_, next⟩ := Reader.peek?_skipBlanks spaces (by decide)
  obtain ⟨p, members, ends⟩ := members
  have shallow : ¬ depth ≤ 1 := by omega
  rw [readValue]
  simp only [next, if_neg shallow]
  change ∃ r', close leaveObject ((readMembers (appendingMember limit (depth - 1)) limit true [] r.skipBlanks.eat).bind
    fun x => .ok (Value.object x.1, x.2)) = _ ∧ _
  rw [members]
  exact close_leaveObject ends

theorem Appended.leads {limit depth : Nat} {done done' : List (List Char × Value)} {key l t : List Char}
    (h : Appended limit depth done key done' l t) : Leads (appendingMember limit depth) limit done key done' l t := by
  obtain ⟨v, l₁, l₂, rfl, colon, gap, _, reads⟩ := h
  intro follows short r ahead
  have lead := colon.length_lt
  have lead' := gap.length_le
  obtain ⟨p, passed, rest⟩ := readColon_of_rest ahead colon
  obtain ⟨r', value, behind⟩ := reads follows (by omega) p (rest ▸ gap)
  refine ⟨r', ?_, behind⟩
  simp only [appendingMember, passed, value, bind, Except.bind, pure, Except.pure]

theorem Appended.length_le {limit depth : Nat} {done done' : List (List Char × Value)} {key l t : List Char}
    (h : Appended limit depth done key done' l t) : t.length ≤ l.length := by
  obtain ⟨v, l₁, l₂, _, colon, gap, shorter, _⟩ := h
  have lead := colon.length_lt
  have lead' := gap.length_le
  omega

variable {number : List Char → List Char → Prop}

theorem readValue_minus {r : Reader} {t : List Char} (limit depth : Nat) (spaces : Spaces r.rest ('-' :: t)) :
    readValue (limit + 1) depth r = (readNumber false r.skipBlanks.eat).map fun (_, r) => (Value.number, r) := by
  obtain ⟨_, next⟩ := Reader.peek?_skipBlanks spaces (by decide)
  rw [readValue]
  simp only [next]
  cases readNumber false r.skipBlanks.eat <;> rfl

theorem readValue_of_inRange {r : Reader} {l t : List Char} (limit depth : Nat) (inRange : InRange l t) (follows : Follows t)
    (spaces : Spaces r.rest l) : ∃ r', readValue (limit + 1) depth r = .ok (.number, r') ∧ r'.rest = t := by
  cases inRange with
  | positive inRange =>
    obtain ⟨_, c, more, rfl, digit⟩ := inRange.numeral.facts
    have opening : isOpening c = true := by simp [isOpening, digit]
    have rest := (Reader.peek?_skipBlanks spaces (isSpace_of_isOpening opening)).1
    obtain ⟨n, r', value, behind⟩ := readNumber_of_inRange inRange follows true rest
    refine ⟨r', ?_, behind⟩
    rw [readValue_digit limit depth spaces digit, value]
    rfl
  | negative inRange =>
    have rest := (Reader.peek?_skipBlanks spaces (by decide)).1
    obtain ⟨n, r', value, behind⟩ := readNumber_of_inRange inRange follows false (Reader.eat_rest rest)
    refine ⟨r', ?_, behind⟩
    rw [readValue_minus limit depth spaces, value]
    rfl

theorem bind_readWord {word t : List Char} {r : Reader} (v : Value) (ahead : r.rest = word ++ t) :
    ∃ r', ((readWord word r).bind fun r => .ok (v, r)) = .ok (v, r') ∧ r'.rest = t := by
  obtain ⟨r', reads, rest⟩ := readWord_of_rest ahead
  exact ⟨r', by rw [reads]; rfl, rest⟩

/-- A phrase that is not nested too deep is read as it is written. -/
theorem Written.read {d : Nat} {phrase : Phrase} {l t : List Char} (h : Written number d phrase l t)
    (numbers : ∀ l t, number l t → InRange l t) : Read d phrase l t := by
  have signed : ∀ l t, number l t → SignedNumeral l t := fun l t spelled => (numbers l t spelled).signed
  induction h with
  | null | yes | no =>
    intro limit depth _ _ short r spaces
    obtain ⟨limit, rfl⟩ : ∃ k, limit = k + 1 := ⟨limit - 1, by simp at short; omega⟩
    obtain ⟨rest, next⟩ := Reader.peek?_skipBlanks spaces (by decide)
    rw [readValue]
    simp only [next]
    exact bind_readWord _ (Reader.eat_rest rest)
  | string spelled =>
    intro limit depth _ _ short r spaces
    obtain ⟨limit, rfl⟩ : ∃ k, limit = k + 1 := ⟨limit - 1, by simp at short; omega⟩
    obtain ⟨rest, next⟩ := Reader.peek?_skipBlanks spaces (by decide)
    obtain ⟨r', word, behind⟩ := readString_of_spells spelled (Reader.eat_rest rest)
    refine ⟨r', ?_, behind⟩
    rw [readValue]
    simp only [next, word, bind, Except.bind, pure, Except.pure]
  | number spelled =>
    intro limit depth _ follows short r spaces
    have shorter := (signed _ _ spelled).facts.1
    obtain ⟨limit, rfl⟩ : ∃ k, limit = k + 1 := ⟨limit - 1, by omega⟩
    exact readValue_of_inRange limit depth (numbers _ _ spelled) follows spaces
  | emptyList ends =>
    intro limit depth deep _ short r spaces
    obtain ⟨limit, rfl⟩ : ∃ k, limit = k + 2 := ⟨limit - 2, by have := ends.length_lt; simp at short; omega⟩
    have inside := Reader.eat_rest (Reader.peek?_skipBlanks spaces (by decide)).1
    refine readValue_list spaces (by omega) ⟨_, readItems_end (nextItem_end true (inside ▸ ends)), ?_⟩
    rw [(Reader.peek?_skipBlanks (inside ▸ ends) (by decide)).1]
    exact Spaces.refl _
  | list inner ih =>
    intro limit depth deep _ short r spaces
    obtain ⟨limit, rfl⟩ : ∃ k, limit = k + 1 := ⟨limit - 1, by simp at short; omega⟩
    have inside := Reader.eat_rest (Reader.peek?_skipBlanks spaces (by decide)).1
    obtain ⟨p, items, ends⟩ : ∃ p, readItems (appending (readValue limit (depth - 1))) limit true []
        r.skipBlanks.eat = .ok ([] ++ _, p) ∧ Spaces p.rest (']' :: _) :=
      readItems_of_rows (fun _ _ _ row => row.2) (fun _ _ _ row => row.1) (ih limit (depth - 1) (by omega))
        (show _ ≤ limit by simpa using short) (show _ ≤ limit by simpa using short)
        (show Before true r.skipBlanks.eat _ from inside)
    exact readValue_list spaces (by omega) ⟨p, items, ends⟩
  | emptyObject ends =>
    intro limit depth deep _ short r spaces
    obtain ⟨limit, rfl⟩ : ∃ k, limit = k + 2 := ⟨limit - 2, by have := ends.length_lt; simp at short; omega⟩
    have inside := Reader.eat_rest (Reader.peek?_skipBlanks spaces (by decide)).1
    refine readValue_object spaces (by omega) ⟨_, readMembers_end (nextKey_end true (inside ▸ ends)), ?_⟩
    rw [(Reader.peek?_skipBlanks (inside ▸ ends) (by decide)).1]
    exact Spaces.refl _
  | object inner ih =>
    intro limit depth deep _ short r spaces
    obtain ⟨limit, rfl⟩ : ∃ k, limit = k + 1 := ⟨limit - 1, by simp at short; omega⟩
    have inside := Reader.eat_rest (Reader.peek?_skipBlanks spaces (by decide)).1
    obtain ⟨p, members, ends⟩ : ∃ p, readMembers (appendingMember limit (depth - 1)) limit true [] r.skipBlanks.eat =
        .ok (_, p) ∧ Spaces p.rest ('\x7d' :: _) :=
      readMembers_of_rows (fun _ _ _ _ _ row => row.leads) (fun _ _ _ _ _ row => row.length_le)
        (ih limit (depth - 1) (by omega) []) (show _ ≤ limit by simpa using short)
        (show _ ≤ limit by simpa using short) (show Before true r.skipBlanks.eat _ from inside)
    exact readValue_object spaces (by omega) ⟨p, members, ends⟩
  | lastItem start own ends ih =>
    intro limit depth deep
    exact .last start ⟨⟨own.length_lt signed, own.opens signed⟩, ih limit depth deep⟩ ends
  | item start own ends _ ih ih' =>
    intro limit depth deep
    exact .more start ⟨⟨own.length_lt signed, own.opens signed⟩, ih limit depth deep⟩ ends (ih' limit depth deep)
  | lastMember start name colon gap own ends ih =>
    intro limit depth deep done
    exact .last start name ⟨_, _, _, rfl, colon, gap, own.length_lt signed, ih limit depth deep⟩ ends
  | @member _ key v _ _ _ _ _ _ _ _ _ start name colon gap own ends _ ih ih' =>
    intro limit depth deep done
    have others := ih' limit depth deep (done ++ [(key, v)])
    rw [List.append_assoc, List.singleton_append] at others
    exact .more start name ⟨_, _, _, rfl, colon, gap, own.length_lt signed, ih limit depth deep⟩ ends others

end Values

end Conformance.Json
