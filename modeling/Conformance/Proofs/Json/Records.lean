import Conformance.Json.Record
import Conformance.Proofs.Json.Sequences

namespace Conformance.Json

def Takes {α : Type} (read : Reader → Except Failure (α × Reader)) (a : α) (l t : List Char) : Prop :=
  Follows t → ∀ r : Reader, Spaces r.rest l → ∃ r', read r = .ok (a, r') ∧ r'.rest = t

def Opens (l t : List Char) : Prop :=
  t.length < l.length ∧ ∃ c rest, l = c :: rest ∧ isOpening c = true

inductive TextSpelled : String → List Char → List Char → Prop
  | mk {l chars t : List Char} (spelled : Spells l chars t) : TextSpelled (String.ofList chars) ('"' :: l) t

inductive OptionalSpelled {α : Type} (Spelled : α → List Char → List Char → Prop) : Option α → List Char → List Char → Prop
  | null {t : List Char} : OptionalSpelled Spelled none ('n' :: 'u' :: 'l' :: 'l' :: t) t
  | some {a : α} {l t : List Char} (own : Spelled a l t) : OptionalSpelled Spelled (some a) l t

inductive ListSpelled {α : Type} (Spelled : α → List Char → List Char → Prop) : List α → List Char → List Char → Prop
  | empty {l t : List Char} (ends : Spaces l (']' :: t)) : ListSpelled Spelled [] ('[' :: l) t
  | items {as : List α} {l t : List Char} (inner : Rows Spelled as l t) : ListSpelled Spelled as ('[' :: l) t

/-- A member of a record: a field that was not there before, or a value that means nothing to it. -/
inductive MemberSpelled {α : Type} (keys : List String) (Spelled : String → α → α → List Char → List Char → Prop) :
    List String × α → List Char → List String × α → List Char → List Char → Prop
  | field {seen : List String} {a a' : α} {key : String} {l l₁ l₂ t : List Char} (known : key ∈ keys) (new : key ∉ seen)
      (colon : Spaces l (':' :: l₁)) (gap : Spaces l₁ l₂) (own : Spelled key a a' l₂ t) :
      MemberSpelled keys Spelled (seen, a) key.toList (key :: seen, a') l t
  | other {seen : List String} {a : α} {key : List Char} {d : Nat} {v : Value} {l l₁ l₂ t : List Char}
      (unknown : ∀ k ∈ keys, k.toList ≠ key) (colon : Spaces l (':' :: l₁)) (gap : Spaces l₁ l₂)
      (own : Written SignedNumeral d (.value v) l₂ t) : MemberSpelled keys Spelled (seen, a) key (seen, a) l t

inductive RecordSpelled {α : Type} (keys : List String) (Spelled : String → α → α → List Char → List Char → Prop)
    (start : α) : α → List Char → List Char → Prop
  | empty {l t : List Char} (ends : Spaces l ('\x7d' :: t)) : RecordSpelled keys Spelled start start ('\x7b' :: l) t
  | members {seen : List String} {a : α} {l t : List Char}
      (inner : KeyRows (MemberSpelled keys Spelled) ([], start) (seen, a) l t) :
      RecordSpelled keys Spelled start a ('\x7b' :: l) t

section Spelled

variable {α : Type} {Spelled : α → List Char → List Char → Prop} {l t : List Char}

theorem TextSpelled.opens {s : String} (h : TextSpelled s l t) : Opens l t ∧ l.head? ≠ some 'n' := by
  cases h with
  | mk spelled =>
    have shorter := spelled.length_lt
    exact ⟨⟨by simp only [List.length_cons]; omega, '"', _, rfl, by decide⟩, by simp⟩

theorem OptionalSpelled.opens {o : Option α} (h : OptionalSpelled Spelled o l t)
    (opens : ∀ a l t, Spelled a l t → Opens l t) : Opens l t := by
  cases h with
  | null => exact ⟨by simp; omega, 'n', _, rfl, by decide⟩
  | some own => exact opens _ _ _ own

theorem Rows.length_lt {as : List α} (h : Rows Spelled as l t) (opens : ∀ a l t, Spelled a l t → Opens l t) :
    t.length < l.length := by
  induction h with
  | last start own ends =>
    have first := start.length_le
    have shorter := (opens _ _ _ own).1
    have last := ends.length_lt
    omega
  | more start own ends _ ih =>
    have first := start.length_le
    have shorter := (opens _ _ _ own).1
    have last := ends.length_lt
    omega

theorem ListSpelled.opens {as : List α} (h : ListSpelled Spelled as l t) (opens : ∀ a l t, Spelled a l t → Opens l t) :
    Opens l t := by
  cases h with
  | empty ends =>
    have last := ends.length_lt
    exact ⟨by simp only [List.length_cons]; omega, '[', _, rfl, by decide⟩
  | items inner =>
    have shorter := inner.length_lt opens
    exact ⟨by simp only [List.length_cons]; omega, '[', _, rfl, by decide⟩

theorem KeyRows.length_lt {σ : Type} {Step : σ → List Char → σ → List Char → List Char → Prop} {s s' : σ}
    (h : KeyRows Step s s' l t) (shrinks : ∀ s key s' l t, Step s key s' l t → t.length ≤ l.length) :
    t.length < l.length := by
  induction h with
  | last start name own ends =>
    have first := start.length_lt
    have second := name.length_lt
    have third := shrinks _ _ _ _ _ own
    have last := ends.length_lt
    omega
  | more start name own ends _ ih =>
    have first := start.length_lt
    have second := name.length_lt
    have third := shrinks _ _ _ _ _ own
    have last := ends.length_lt
    omega

end Spelled

section Records

variable {α : Type} {keys : List String} {Spelled : String → α → α → List Char → List Char → Prop} {l t : List Char}

theorem MemberSpelled.length_le {s s' : List String × α} {key : List Char} (h : MemberSpelled keys Spelled s key s' l t)
    (opens : ∀ key a a' l t, Spelled key a a' l t → Opens l t) : t.length ≤ l.length := by
  cases h with
  | field _ _ colon gap own =>
    have first := colon.length_lt
    have second := gap.length_le
    have shorter := (opens _ _ _ _ _ own).1
    omega
  | other _ colon gap own =>
    have first := colon.length_lt
    have second := gap.length_le
    have shorter := own.length_lt fun _ _ spelled => spelled
    omega

theorem RecordSpelled.opens {start a : α} (h : RecordSpelled keys Spelled start a l t)
    (opens : ∀ key a a' l t, Spelled key a a' l t → Opens l t) : Opens l t := by
  cases h with
  | empty ends =>
    have last := ends.length_lt
    exact ⟨by simp only [List.length_cons]; omega, '\x7b', _, rfl, by decide⟩
  | members inner =>
    have shorter := inner.length_lt fun _ _ _ _ _ row => row.length_le opens
    exact ⟨by simp only [List.length_cons]; omega, '\x7b', _, rfl, by decide⟩

end Records

section Taking

variable {α : Type} {l t : List Char}

theorem readText_of_spelled {s : String} (h : TextSpelled s l t) : Takes readText s l t := by
  cases h with
  | mk spelled =>
    intro _ r spaces
    obtain ⟨rest, next⟩ := Reader.peek?_skipBlanks spaces (by decide)
    obtain ⟨r', word, behind⟩ := readString_of_spells spelled (Reader.eat_rest rest)
    refine ⟨r', ?_, behind⟩
    rw [readText]
    simp only [next, word]
    rfl

theorem readOptional_of_spelled {Spelled : α → List Char → List Char → Prop}
    {read : Reader → Except Failure (α × Reader)} (takes : ∀ a l t, Spelled a l t → Takes read a l t)
    (opens : ∀ a l t, Spelled a l t → Opens l t ∧ l.head? ≠ some 'n') {o : Option α} (h : OptionalSpelled Spelled o l t) :
    Takes (readOptional read) o l t := by
  cases h with
  | null =>
    intro _ r spaces
    obtain ⟨rest, next⟩ := Reader.peek?_skipBlanks spaces (by decide)
    have inside : r.skipBlanks.eat.rest = "ull".toList ++ t := Reader.eat_rest rest
    obtain ⟨r', word, behind⟩ := readWord_of_rest inside
    refine ⟨r', ?_, behind⟩
    rw [readOptional]
    simp only [next, if_true, word]
    rfl
  | @some a _ _ own =>
    intro follows r spaces
    obtain ⟨⟨_, c, more, rfl, opening⟩, other⟩ := opens a l t own
    obtain ⟨rest, next⟩ := Reader.peek?_skipBlanks spaces (isSpace_of_isOpening opening)
    obtain ⟨r', value, behind⟩ := takes a _ t own follows r.skipBlanks (rest ▸ Spaces.refl _)
    have present : ¬ some c = some 'n' := other
    refine ⟨r', ?_, behind⟩
    rw [readOptional]
    simp only [next, if_neg present, value]
    rfl

theorem readSequence_of_spelled {Spelled : α → List Char → List Char → Prop}
    {read : Reader → Except Failure (α × Reader)} (takes : ∀ a l t, Spelled a l t → Takes read a l t)
    (opens : ∀ a l t, Spelled a l t → Opens l t) {as : List α} (h : ListSpelled Spelled as l t) :
    Takes (readSequence read) as l t := by
  have sound : ∀ bound a l t, Spelled a l t → Reads read bound a l t := fun _ a l t own follows _ => takes a l t own follows
  cases h with
  | empty ends =>
    intro _ r spaces
    obtain ⟨rest, next⟩ := Reader.peek?_skipBlanks spaces (by decide)
    have inside := Reader.eat_rest rest
    have closing : Spaces r.skipBlanks.eat.skipBlanks.rest (']' :: t) :=
      (Reader.peek?_skipBlanks (inside ▸ ends) (by decide)).1 ▸ Spaces.refl _
    obtain ⟨r', left, behind⟩ := close_leaveList (a := ([] : List α)) closing
    refine ⟨r', ?_, behind⟩
    rw [readSequence]
    simp only [next]
    change close leaveList (readItems (appending read) _ true [] r.skipBlanks.eat) = _
    rw [readItems_end (nextItem_end true (inside ▸ ends)), left]
  | items inner =>
    intro _ r spaces
    obtain ⟨rest, next⟩ := Reader.peek?_skipBlanks spaces (by decide)
    have inside := Reader.eat_rest rest
    obtain ⟨p, items, closing⟩ : ∃ p, readItems (appending read) (r.skipBlanks.rest.length + 1) true []
        r.skipBlanks.eat = .ok ([] ++ as, p) ∧ Spaces p.rest (']' :: t) :=
      readItems_of_rows (sound r.skipBlanks.rest.length) opens inner (by rw [rest]; simp) (by rw [rest]; simp; omega)
        (show Before true r.skipBlanks.eat _ from inside)
    obtain ⟨r', left, behind⟩ := close_leaveList (a := as) closing
    refine ⟨r', ?_, behind⟩
    rw [readSequence]
    simp only [next]
    change close leaveList (readItems (appending read) _ true [] r.skipBlanks.eat) = _
    rw [items, List.nil_append, left]

variable {Spelled : String → α → α → List Char → List Char → Prop} {shape : Shape α}

/-- A member of a record leads on from one state to the next. -/
theorem MemberSpelled.leads
    (takes : ∀ field ∈ shape.fields, ∀ a a' l t, Spelled field.key a a' l t → Takes (field.read a) a' l t)
    {s s' : List String × α} {key : List Char} (bound : Nat)
    (h : MemberSpelled (shape.fields.map Field.key) Spelled s key s' l t) : Leads shape.readMember bound s key s' l t := by
  intro follows _ r ahead
  cases h with
  | @field seen a a' key _ l₁ l₂ _ known new colon gap own =>
    obtain ⟨p, passed, rest⟩ := readColon_of_rest ahead colon
    obtain ⟨field, member, same⟩ : ∃ field ∈ shape.fields, field.key = key := by simpa using known
    obtain ⟨found, find⟩ : ∃ found, shape.fields.find? (·.key.toList == key.toList) = some found := by
      rw [← Option.isSome_iff_exists, List.find?_isSome]
      exact ⟨field, member, by simp [same]⟩
    have name : found.key = key := by
      have own := List.find?_some find
      simpa [String.toList_inj] using own
    subst name
    obtain ⟨r', value, behind⟩ := takes found (List.mem_of_find?_eq_some find) a a' l₂ t own follows p (rest ▸ gap)
    refine ⟨r', ?_, behind⟩
    have fresh : seen.contains found.key = false := by simpa using new
    simp only [Shape.readMember, find, fresh, Bool.false_eq_true, if_false, passed, value, bind, Except.bind]
    rfl
  | @other seen a key d v _ l₁ l₂ _ unknown colon gap own =>
    obtain ⟨p, passed, rest⟩ := readColon_of_rest ahead colon
    have none : shape.fields.find? (·.key.toList == key) = none := by
      rw [List.find?_eq_none]
      intro field member same
      exact unknown field.key (List.mem_map_of_mem member) (by simpa using same)
    have size : l₂.length ≤ (2 * p.rest.length + 2) + 1 + t.length := by
      have lead := gap.length_le
      rw [rest]
      omega
    obtain ⟨r', skipped, behind⟩ :=
      own.skips (fun _ _ spelled => spelled) follows (2 * p.rest.length + 2) p size (rest ▸ gap)
    refine ⟨r', ?_, behind⟩
    simp only [Shape.readMember, none, passed, skipped, bind, Except.bind]
    rfl

/-- A record is read as it is written, if its fields are. -/
theorem Shape.read_of_spelled
    (takes : ∀ field ∈ shape.fields, ∀ a a' l t, Spelled field.key a a' l t → Takes (field.read a) a' l t)
    (opens : ∀ key a a' l t, Spelled key a a' l t → Opens l t) {a : α}
    (h : RecordSpelled (shape.fields.map Field.key) Spelled shape.start a l t) : Takes shape.read a l t := by
  have closes : ∀ {r : Reader} {l : List Char} {seen : List String}, Spaces r.rest ('\x7b' :: l) →
      (∃ p, readMembers shape.readMember (r.skipBlanks.rest.length + 1) true ([], shape.start) r.skipBlanks.eat =
        .ok ((seen, a), p) ∧ Spaces p.rest ('\x7d' :: t)) → ∃ r', shape.read r = .ok (a, r') ∧ r'.rest = t := by
    rintro r l seen spaces ⟨p, members, closing⟩
    obtain ⟨_, next⟩ := Reader.peek?_skipBlanks spaces (by decide)
    obtain ⟨r', left, behind⟩ := close_leaveObject (a := (seen, a)) closing
    refine ⟨r', ?_, behind⟩
    rw [Shape.read]
    simp only [next, members, left, bind, Except.bind]
    rfl
  intro _ r spaces
  cases h with
  | empty ends =>
    have inside := Reader.eat_rest (Reader.peek?_skipBlanks spaces (by decide)).1
    refine closes spaces ⟨_, readMembers_end (nextKey_end true (inside ▸ ends)), ?_⟩
    rw [(Reader.peek?_skipBlanks (inside ▸ ends) (by decide)).1]
    exact Spaces.refl _
  | members inner =>
    have rest := (Reader.peek?_skipBlanks spaces (by decide)).1
    have inside := Reader.eat_rest rest
    exact closes spaces (readMembers_of_rows (fun _ _ _ _ _ row => row.leads takes r.skipBlanks.rest.length)
      (fun _ _ _ _ _ row => row.length_le opens) inner (by rw [rest]; simp) (by rw [rest]; simp; omega)
      (show Before true r.skipBlanks.eat _ from inside))

theorem readWhole_of_spelled {read : Reader → Except Failure (α × Reader)} {a : α} {text : List Char}
    (takes : Takes read a l t) (front : Spaces text l) (back : Spaces t []) : readWhole read text = .ok a := by
  have follows : Follows t := by
    obtain ⟨z, inside, rfl⟩ := back
    intro c ahead
    rw [List.append_nil] at ahead
    exact Or.inl (inside c (List.mem_of_mem_head? ahead))
  obtain ⟨r', value, rest⟩ := takes follows (.ofText text) front
  have ended : r'.skipBlanks.rest = [] := Reader.skipBlanks_rest (rest ▸ back) (by simp [Pattern.Stops])
  simp only [readWhole, value, bind, Except.bind, ended]
  rfl

end Taking

end Conformance.Json
