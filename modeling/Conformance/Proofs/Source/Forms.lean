import Conformance.Proofs.Pattern.Quotation
import Conformance.Proofs.Source.OpenClause

namespace Conformance

namespace Pattern

variable {p : Pattern} {place : Cursor}

theorem sightings_skip {v u : List Char} (number : Nat) (passes : p.passesSome = true) (ahead : place.rest = v ++ u)
    (refused : ∀ a b, v = a ++ b → b ≠ [] → p.ways ⟨place.beyond a (b ++ u), []⟩ = []) :
    sightings number p place = sightings number p (place.beyond v u) := by
  induction v generalizing place with
  | nil => rw [Cursor.beyond_nil_of_rest (u := u) ahead]
  | cons c v ih =>
    have here : p.ways ⟨place, []⟩ = [] := by
      have first := refused [] (c :: v) rfl (by simp)
      rwa [Cursor.beyond_nil_of_rest ahead] at first
    rw [sightings_of_refused number passes ahead here, Cursor.beyond_cons place c v (v ++ u)]
    refine ih rfl fun a b whole some => ?_
    rw [← Cursor.beyond_cons place c a]
    exact refused (c :: a) b (by simp [whole]) some

theorem sightings_of_unique {t : Progress} (number : Nat) (passes : p.passesSome = true) (one : t ∈ p.ways ⟨place, []⟩)
    (only : ∀ t' ∈ p.ways ⟨place, []⟩, t' = t) :
    sightings number p place = (place.offset, t.kept? number) :: sightings number p t.place := by
  cases found : p.ways ⟨place, []⟩ with
  | nil => simp [found] at one
  | cons t' more =>
    obtain rfl : t' = t := only t' (by simp [found])
    exact sightings_of_ways number passes found

end Pattern

namespace Source.Import

open Pattern

inductive Form where
  | clause
  | sideEffect
  | call
deriving DecidableEq

namespace Form

def pattern : Form → Pattern
  | clause => fromClause
  | sideEffect => Import.sideEffect
  | call => Import.call

theorem passesSome_pattern (form : Form) : form.pattern.passesSome = true := by
  cases form <;> decide

def BeginsAt : Form → Cursor → Prop
  | sideEffect, place => place.atLineStart = true
  | clause, place | call, place => place.before.any Text.isWord = false

def LeadsUp : Form → List Char → Prop
  | clause, lead => ∃ word ∈ ["import", "export"], ∃ v z, lead = word.toList ++ (v ++ ("from".toList ++ z)) ∧
      (∀ c ∈ v, inClause c = true) ∧ (∃ c ∈ v.head?, Text.isWord c = false) ∧ (∃ c ∈ v.getLast?, Text.isWord c = false) ∧
      ∀ c ∈ z, Text.isBlank c = true
  | sideEffect, lead => ∃ v z, lead = v ++ ("import".toList ++ z) ∧ (∀ c ∈ v, among " \t" c = true) ∧ z ≠ [] ∧
      ∀ c ∈ z, Text.isBlank c = true
  | call, lead => ∃ word ∈ ["require", "import"], ∃ z z', lead = word.toList ++ (z ++ '(' :: z') ∧
      (∀ c ∈ z, Text.isBlank c = true) ∧ ∀ c ∈ z', Text.isBlank c = true

def EndsWith : Form → List Char → Prop
  | call, tail => ∃ z, tail = z ++ [')'] ∧ ∀ c ∈ z, Text.isBlank c = true
  | clause, tail | sideEffect, tail => tail = []

end Form

section Ways

variable {s m : Progress} {place : Cursor} {c : Char} {front u : List Char}

theorem word_ends {word : String} (known : word ∈ ["import", "export", "require"]) :
    ∃ c d more, word.toList = c :: more ∧ word.toList.getLast? = some d ∧ Text.isWord c = true ∧ Text.isWord d = true := by
  simp only [List.mem_cons, List.not_mem_nil, or_false] at known
  rcases known with rfl | rfl | rfl
  · exact ⟨'i', 't', "mport".toList, by decide⟩
  · exact ⟨'e', 't', "xport".toList, by decide⟩
  · exact ⟨'r', 'e', "equire".toList, by decide⟩

theorem clauseWord_known : ∀ word ∈ ["import", "export"], word ∈ ["import", "export", "require"] := by
  decide

theorem callWord_known : ∀ word ∈ ["require", "import"], word ∈ ["import", "export", "require"] := by
  decide

theorem borders_between {v : List Char} (place : Cursor) (front rest : List Char) :
    ((v ++ ("from".toList ++ rest)).head?.any Text.isWord = false ∧
      (place.beyond (front ++ v) ("from".toList ++ rest)).atWordBorder = true) ↔
      (∃ c ∈ v.head?, Text.isWord c = false) ∧ ∃ c ∈ v.getLast?, Text.isWord c = false := by
  have inWord : Text.isWord 'f' = true := by decide
  rw [atWordBorder_in_front rfl inWord]
  cases v with
  | nil => simp [inWord]
  | cons c v =>
    obtain ⟨d, last⟩ : ∃ d, (c :: v).getLast? = some d := ⟨_, List.getLast?_eq_some_getLast (by simp)⟩
    simp [Cursor.beyond, List.getLast?_append, last]

theorem mem_ways_fromClause : m ∈ fromClause.ways s ↔ ∃ lead a w b u, Form.clause.BeginsAt s.place ∧
    Form.clause.LeadsUp lead ∧ Quotes s.place.rest lead a w b u ∧ w ≠ [] ∧ m = behind s lead a w b u := by
  simp only [fromClause, blanks, mem_ways_chain_cons, mem_ways_chain_nil, mem_ways_wordBorder, mem_ways_anyOf,
    mem_ways_fewest, mem_ways_text, mem_ways_most]
  constructor
  · rintro ⟨s, ⟨border, rfl⟩, _, ⟨word, known, r₁, ahead, rfl⟩, _, ⟨border', rfl⟩, _, ⟨v, r₂, cut₁, inside, rfl⟩, _,
      ⟨border'', rfl⟩, _, ⟨r₃, cut₂, rfl⟩, _, ⟨z, r₄, cut₃, blank, rfl⟩, t, inner, rfl⟩
    simp only [Progress.beyond_beyond, Progress.beyond_place, Cursor.beyond_rest] at cut₁ cut₂ cut₃ inner border' border''
    subst cut₁ cut₂ cut₃
    obtain ⟨c, d, more, spelled, last, first, final⟩ := word_ends (clauseWord_known word known)
    have whole : s.place.rest = word.toList ++ v ++ "from".toList ++ z ++ r₄ := by
      rw [ahead]
      simp only [List.append_assoc]
    obtain ⟨a, w, b, u, quotes, some, same⟩ := (mem_ways_quoted_after whole).mp inner
    simp only [List.append_assoc] at quotes same
    rw [atWordBorder_in_front (by rw [ahead, spelled]; rfl) first] at border
    rw [atWordBorder_behind last final] at border'
    obtain ⟨head, end_⟩ := (borders_between s.place word.toList (z ++ r₄)).mp ⟨border', border''⟩
    exact ⟨_, a, w, b, u, border, ⟨word, known, v, z, rfl, inside, head, end_, blank⟩, quotes, some, same⟩
  · rintro ⟨_, a, w, b, u, border, ⟨word, known, v, z, rfl, inside, head, end_, blank⟩, quotes, some, rfl⟩
    obtain ⟨c, d, more, spelled, last, first, final⟩ := word_ends (clauseWord_known word known)
    have ahead : s.place.rest = word.toList ++ (v ++ ("from".toList ++ (z ++ a :: (w ++ b :: u)))) := by
      rw [quotes.whole]
      simp only [List.append_assoc]
    have whole : s.place.rest = word.toList ++ v ++ "from".toList ++ z ++ a :: (w ++ b :: u) := by
      rw [ahead]
      simp only [List.append_assoc]
    obtain ⟨border', border''⟩ := (borders_between s.place word.toList (z ++ a :: (w ++ b :: u))).mpr ⟨head, end_⟩
    have inner : behind s (word.toList ++ (v ++ ("from".toList ++ z))) a w b u ∈
        (quoted 1).ways (s.beyond (word.toList ++ v ++ "from".toList ++ z) (a :: (w ++ b :: u))) := by
      apply (mem_ways_quoted_after whole).mpr
      simp only [List.append_assoc]
      exact ⟨a, w, b, u, quotes, some, rfl⟩
    refine ⟨s, ⟨(atWordBorder_in_front (by rw [ahead, spelled]; rfl) first).mpr border, rfl⟩, _,
      ⟨word, known, _, ahead, rfl⟩, _, ⟨(atWordBorder_behind last final).mpr border', rfl⟩, _, ⟨v, _, rfl, inside, rfl⟩, _,
      ⟨?_, rfl⟩, _, ⟨_, rfl, rfl⟩, _, ⟨z, _, rfl, blank, rfl⟩, _, ?_, rfl⟩
    · rw [Progress.beyond_beyond]
      exact border''
    · simpa only [Progress.beyond_beyond] using inner

theorem mem_ways_sideEffect : m ∈ sideEffect.ways s ↔ ∃ lead a w b u, Form.sideEffect.BeginsAt s.place ∧
    Form.sideEffect.LeadsUp lead ∧ Quotes s.place.rest lead a w b u ∧ w ≠ [] ∧ m = behind s lead a w b u := by
  simp only [sideEffect, someBlanks, mem_ways_chain_cons, mem_ways_chain_nil, mem_ways_lineStart, mem_ways_most,
    mem_ways_text, mem_ways_mostOne]
  constructor
  · rintro ⟨s, ⟨start, rfl⟩, _, ⟨v, r₁, ahead, space, rfl⟩, _, ⟨r₂, cut₁, rfl⟩, _, ⟨z, r₃, cut₂, apart, blank, rfl⟩, t,
      inner, rfl⟩
    simp only [Progress.beyond_beyond, Progress.beyond_place, Cursor.beyond_rest] at cut₁ cut₂ inner
    subst cut₁ cut₂
    have whole : s.place.rest = v ++ "import".toList ++ z ++ r₃ := by
      rw [ahead]
      simp only [List.append_assoc]
    obtain ⟨a, w, b, u, quotes, some, same⟩ := (mem_ways_quoted_after whole).mp inner
    simp only [List.append_assoc] at quotes same
    exact ⟨_, a, w, b, u, start, ⟨v, z, rfl, space, apart, blank⟩, quotes, some, same⟩
  · rintro ⟨_, a, w, b, u, start, ⟨v, z, rfl, space, apart, blank⟩, quotes, some, rfl⟩
    have ahead : s.place.rest = v ++ ("import".toList ++ (z ++ a :: (w ++ b :: u))) := by
      rw [quotes.whole]
      simp only [List.append_assoc]
    have whole : s.place.rest = v ++ "import".toList ++ z ++ a :: (w ++ b :: u) := by
      rw [ahead]
      simp only [List.append_assoc]
    have inner : behind s (v ++ ("import".toList ++ z)) a w b u ∈
        (quoted 1).ways (s.beyond (v ++ "import".toList ++ z) (a :: (w ++ b :: u))) := by
      apply (mem_ways_quoted_after whole).mpr
      simp only [List.append_assoc]
      exact ⟨a, w, b, u, quotes, some, rfl⟩
    refine ⟨s, ⟨start, rfl⟩, _, ⟨v, _, ahead, space, rfl⟩, _, ⟨_, rfl, rfl⟩, _, ⟨z, _, rfl, apart, blank, rfl⟩, _, ?_, rfl⟩
    simpa only [Progress.beyond_beyond] using inner

theorem mem_ways_call : m ∈ call.ways s ↔ ∃ lead a w b tail u, Form.call.BeginsAt s.place ∧
    Form.call.LeadsUp lead ∧ Form.call.EndsWith tail ∧ Quotes s.place.rest lead a w b (tail ++ u) ∧ w ≠ [] ∧
      m = (behind s lead a w b (tail ++ u)).beyond tail u := by
  simp only [call, blanks, mem_ways_chain_cons, mem_ways_chain_nil, mem_ways_wordBorder, mem_ways_anyOf, mem_ways_most,
    mem_ways_text]
  constructor
  · rintro ⟨s, ⟨border, rfl⟩, _, ⟨word, known, r₁, ahead, rfl⟩, _, ⟨z, r₂, cut₁, blank, rfl⟩, _, ⟨r₃, cut₂, rfl⟩, _,
      ⟨z', r₄, cut₃, blank', rfl⟩, t, inner, _, ⟨y, r₅, cut₄, blank'', rfl⟩, _, ⟨u, cut₅, rfl⟩, rfl⟩
    simp only [Progress.beyond_beyond, Progress.beyond_place, Cursor.beyond_rest] at cut₁ cut₂ cut₃ cut₅ inner
    subst cut₁ cut₂ cut₃ cut₅
    obtain ⟨c, d, more, spelled, last, first, final⟩ := word_ends (callWord_known word known)
    have whole : s.place.rest = word.toList ++ z ++ "(".toList ++ z' ++ r₄ := by
      rw [ahead]
      simp only [List.append_assoc]
    obtain ⟨a, w, b, u', quotes, some, rfl⟩ := (mem_ways_quoted_after whole).mp inner
    obtain rfl : u' = y ++ (")".toList ++ u) := cut₄
    have lead : word.toList ++ z ++ "(".toList ++ z' = word.toList ++ (z ++ '(' :: z') := by simp
    have tail : y ++ (")".toList ++ u) = (y ++ [')']) ++ u := by simp
    rw [lead, tail] at quotes ⊢
    rw [atWordBorder_in_front (by rw [ahead, spelled]; rfl) first] at border
    exact ⟨_, a, w, b, _, u, border, ⟨word, known, z, z', rfl, blank, blank'⟩, ⟨y, rfl, blank''⟩, quotes, some, by simp⟩
  · rintro ⟨_, a, w, b, _, u, border, ⟨word, known, z, z', rfl, blank, blank'⟩, ⟨y, rfl, blank''⟩, quotes, some, rfl⟩
    obtain ⟨c, d, more, spelled, last, first, final⟩ := word_ends (callWord_known word known)
    have ahead : s.place.rest =
        word.toList ++ (z ++ ("(".toList ++ (z' ++ a :: (w ++ b :: (y ++ (")".toList ++ u)))))) := by
      rw [quotes.whole]
      simp
    have lead : word.toList ++ (z ++ '(' :: z') = word.toList ++ z ++ "(".toList ++ z' := by simp
    have tail : (y ++ [')']) ++ u = y ++ (")".toList ++ u) := by simp
    rw [lead, tail] at quotes ⊢
    have inner := (mem_ways_quoted_after (s := s) (m := behind s _ a w b _) (quotes.whole)).mpr
      ⟨a, w, b, _, quotes, some, rfl⟩
    refine ⟨s, ⟨(atWordBorder_in_front (by rw [ahead, spelled]; rfl) first).mpr border, rfl⟩, _,
      ⟨word, known, _, ahead, rfl⟩, _, ⟨z, _, rfl, blank, rfl⟩, _, ⟨_, rfl, rfl⟩, _, ⟨z', _, rfl, blank', rfl⟩,
      behind s (word.toList ++ z ++ "(".toList ++ z') a w b (y ++ (")".toList ++ u)), ?_, _,
      ⟨y, _, rfl, blank'', rfl⟩, _, ⟨u, rfl, rfl⟩, ?_⟩
    · simpa only [Progress.beyond_beyond] using inner
    · simp

/-- A form has a way at a place exactly if what leads up to a quoted text is of the form, and what follows it. -/
theorem mem_ways_form (form : Form) : m ∈ form.pattern.ways s ↔ ∃ lead a w b tail u, form.BeginsAt s.place ∧
    form.LeadsUp lead ∧ form.EndsWith tail ∧ Quotes s.place.rest lead a w b (tail ++ u) ∧ w ≠ [] ∧
      m = (behind s lead a w b (tail ++ u)).beyond tail u := by
  have alone : ∀ (lead : List Char) a w b u, (behind s lead a w b u).beyond [] u = behind s lead a w b u :=
    fun _ _ _ _ _ => Progress.beyond_nil rfl
  cases form with
  | call => exact mem_ways_call
  | clause =>
    rw [Form.pattern, mem_ways_fromClause]
    constructor
    · rintro ⟨lead, a, w, b, u, begins, leads, quotes, some, rfl⟩
      exact ⟨lead, a, w, b, [], u, begins, leads, rfl, quotes, some, (alone lead a w b u).symm⟩
    · rintro ⟨lead, a, w, b, _, u, begins, leads, rfl, quotes, some, rfl⟩
      exact ⟨lead, a, w, b, u, begins, leads, quotes, some, alone lead a w b u⟩
  | sideEffect =>
    rw [Form.pattern, mem_ways_sideEffect]
    constructor
    · rintro ⟨lead, a, w, b, u, begins, leads, quotes, some, rfl⟩
      exact ⟨lead, a, w, b, [], u, begins, leads, rfl, quotes, some, (alone lead a w b u).symm⟩
    · rintro ⟨lead, a, w, b, _, u, begins, leads, rfl, quotes, some, rfl⟩
      exact ⟨lead, a, w, b, u, begins, leads, quotes, some, alone lead a w b u⟩

end Ways

section Leads

variable {form : Form} {lead tail : List Char} {c : Char}

theorem inClause_of_isWord (inWord : Text.isWord c = true) : inClause c = true := by
  have outer : ∀ d ∈ ";'\"`=()".toList, Text.isWord d = false := by decide
  rw [inClause, outside, Bool.not_eq_true', ← Bool.not_eq_true, List.contains_iff_mem]
  intro listed
  exact Bool.false_ne_true ((outer c listed).symm.trans inWord)

theorem inClause_of_isBlank (blank : Text.isBlank c = true) : inClause c = true := by
  have solid : ∀ d ∈ ";'\"`=()".toList, Text.isBlank d = false := by decide
  rw [inClause, outside, Bool.not_eq_true', ← Bool.not_eq_true, List.contains_iff_mem]
  intro listed
  exact Bool.false_ne_true ((solid c listed).symm.trans blank)

theorem not_inClause_of_isMark (mark : isMark c = true) : inClause c = false := by
  rcases isMark_eq_true_iff.mp mark with rfl | rfl <;> decide

/-- What leads up to the quoted text of a clause, or of an import at the start of a line, could go on in a clause. -/
theorem Form.LeadsUp.passes (leads : form.LeadsUp lead) (other : form ≠ .call) : ∀ c ∈ lead, inClause c = true := by
  cases form with
  | call => exact absurd rfl other
  | clause =>
    obtain ⟨word, known, v, z, rfl, inside, _, _, blank⟩ := leads
    have letters : ∀ word ∈ ["import", "export"], ∀ c ∈ word.toList, inClause c = true := by decide
    have from_ : ∀ c ∈ "from".toList, inClause c = true := by decide
    simp only [List.mem_append]
    rintro c (first | between | second | space)
    · exact letters word known c first
    · exact inside c between
    · exact from_ c second
    · exact inClause_of_isBlank (blank c space)
  | sideEffect =>
    obtain ⟨v, z, rfl, space, _, blank⟩ := leads
    have letters : ∀ c ∈ "import".toList, inClause c = true := by decide
    have spaces : ∀ c ∈ " \t".toList, inClause c = true := by decide
    simp only [List.mem_append]
    rintro c (front | word | behind)
    · exact spaces c (by simpa [among] using space c front)
    · exact letters c word
    · exact inClause_of_isBlank (blank c behind)

theorem Form.LeadsUp.bracket (leads : Form.call.LeadsUp lead) :
    ∃ front z, lead = front ++ '(' :: z ∧ (∀ c ∈ front, inClause c = true) ∧ ∀ c ∈ z, Text.isBlank c = true := by
  obtain ⟨word, known, z, z', rfl, blank, blank'⟩ := leads
  have letters : ∀ word ∈ ["require", "import"], ∀ c ∈ word.toList, inClause c = true := by decide
  refine ⟨word.toList ++ z, z', by simp, ?_, blank'⟩
  simp only [List.mem_append]
  rintro c (first | space)
  · exact letters word known c first
  · exact inClause_of_isBlank (blank c space)

theorem Form.LeadsUp.free (leads : form.LeadsUp lead) : ∀ c ∈ lead, isMark c = false := by
  have apart : ∀ c, inClause c = true → isMark c = false := by
    intro c inside
    rw [Bool.eq_false_iff]
    intro mark
    rw [not_inClause_of_isMark mark] at inside
    cases inside
  by_cases other : form = .call
  · subst other
    obtain ⟨front, z, rfl, inside, blank⟩ := leads.bracket
    simp only [List.mem_append, List.mem_cons]
    rintro c (first | rfl | space)
    · exact apart c (inside c first)
    · decide
    · exact apart c (inClause_of_isBlank (blank c space))
  · exact fun c member => apart c (leads.passes other c member)

theorem Form.EndsWith.unique {tail' u u' : List Char} (ends : form.EndsWith tail) (ends' : form.EndsWith tail')
    (same : tail ++ u = tail' ++ u') : tail = tail' ∧ u = u' := by
  cases form with
  | clause | sideEffect =>
    cases ends
    cases ends'
    exact ⟨rfl, same⟩
  | call =>
    obtain ⟨z, rfl, blank⟩ := ends
    obtain ⟨z', rfl, blank'⟩ := ends'
    have solid : ∀ c, Text.isBlank c = true → (c == ')') = false := by
      intro c space
      rw [beq_eq_false_iff_ne]
      rintro rfl
      cases space
    have whole : z ++ ')' :: u = z' ++ ')' :: u' := by simpa using same
    obtain ⟨rfl, _, rest⟩ := Text.append_cons_inj_of_free (p := (· == ')')) (fun c space => solid c (blank c space))
      (fun c space => solid c (blank' c space)) (by decide) (by decide) whole
    exact ⟨rfl, rest⟩

def Form.lastLetter : Form → Char
  | clause => 'm'
  | sideEffect => 't'
  | call => '('

theorem Form.LeadsUp.last (leads : form.LeadsUp lead) :
    ∃ front z, lead = front ++ form.lastLetter :: z ∧ ∀ c ∈ z, Text.isBlank c = true := by
  cases form with
  | clause =>
    obtain ⟨word, _, v, z, rfl, _, _, _, blank⟩ := leads
    exact ⟨word.toList ++ (v ++ "fro".toList), z, by simp [lastLetter], blank⟩
  | sideEffect =>
    obtain ⟨v, z, rfl, _, _, blank⟩ := leads
    exact ⟨v ++ "impor".toList, z, by simp [lastLetter], blank⟩
  | call =>
    obtain ⟨front, z, rfl, _, blank⟩ := leads.bracket
    exact ⟨front, z, rfl, blank⟩

def Form.starts : Form → Char → Bool
  | clause => among "ie"
  | sideEffect => among "i \t"
  | call => among "ri"

theorem Form.LeadsUp.head (leads : form.LeadsUp lead) : ∃ c more, lead = c :: more ∧ form.starts c = true := by
  cases form with
  | clause =>
    obtain ⟨word, known, v, z, rfl, _⟩ := leads
    simp only [List.mem_cons, List.not_mem_nil, or_false] at known
    rcases known with rfl | rfl
    · exact ⟨'i', _, rfl, by decide⟩
    · exact ⟨'e', _, rfl, by decide⟩
  | sideEffect =>
    obtain ⟨v, z, rfl, space, _⟩ := leads
    cases v with
    | nil => exact ⟨'i', _, rfl, by decide⟩
    | cons c v =>
      have either : c = ' ' ∨ c = '\t' := by simpa [among] using space c (by simp)
      rcases either with rfl | rfl
      · exact ⟨' ', _, rfl, by decide⟩
      · exact ⟨'\t', _, rfl, by decide⟩
  | call =>
    obtain ⟨word, known, z, z', rfl, _⟩ := leads
    simp only [List.mem_cons, List.not_mem_nil, or_false] at known
    rcases known with rfl | rfl
    · exact ⟨'r', _, rfl, by decide⟩
    · exact ⟨'i', _, rfl, by decide⟩

end Leads

section Places

variable {form : Form} {place : Cursor} {lead tail w u : List Char} {a b : Char}

/-- Where a quoted text stands in the way of the form, it is the first match. -/
theorem sightings_of_lead (begins : form.BeginsAt place) (leads : form.LeadsUp lead) (ends : form.EndsWith tail)
    (quotes : Quotes place.rest lead a w b (tail ++ u)) (some : w ≠ []) :
    sightings 1 form.pattern place = (place.offset, Option.some w) ::
      sightings 1 form.pattern (place.beyond (lead ++ a :: (w ++ b :: tail)) u) := by
  have one : (behind ⟨place, []⟩ lead a w b (tail ++ u)).beyond tail u ∈ form.pattern.ways ⟨place, []⟩ :=
    (mem_ways_form form).mpr ⟨lead, a, w, b, tail, u, begins, leads, ends, quotes, some, rfl⟩
  have only : ∀ t ∈ form.pattern.ways ⟨place, []⟩, t = (behind ⟨place, []⟩ lead a w b (tail ++ u)).beyond tail u := by
    intro t member
    obtain ⟨lead', a', w', b', tail', u', _, leads', ends', quotes', _, rfl⟩ := (mem_ways_form form).mp member
    have same := quotes'.whole.symm.trans quotes.whole
    obtain ⟨rfl, rfl, rest⟩ := Text.append_cons_inj_of_free leads'.free leads.free quotes'.opens quotes.opens same
    obtain ⟨rfl, rfl, last⟩ := Text.append_cons_inj_of_free quotes'.inside quotes.inside quotes'.closes quotes.closes rest
    obtain ⟨rfl, rfl⟩ := ends'.unique ends last
    rfl
  have found := sightings_of_unique 1 form.passesSome_pattern one only
  have kept : ((behind ⟨place, []⟩ lead a w b (tail ++ u)).beyond tail u).kept? 1 = Option.some w :=
    group?_behind place place ⟨place, []⟩ lead a w b (tail ++ u)
  rw [found, kept]
  simp [behind]

def Form.stopsAt : Form → Char → Bool
  | call, c => c == '('
  | clause, c | sideEffect, c => isMark c

section Stop

variable {pre post rest : List Char} {c : Char}

/-- Up to the first character that cannot be in a clause, what leads up to the quoted text is known. -/
theorem Form.LeadsUp.of_stop (leads : form.LeadsUp lead) (mark : isMark a = true) (inside : ∀ d ∈ pre, inClause d = true)
    (other : inClause c = false) (same : lead ++ a :: rest = pre ++ c :: post) :
    form.stopsAt c = true ∧ pre <+: lead ∧ (form ≠ .call → lead = pre) := by
  have free : ∀ l : List Char, (∀ d ∈ l, inClause d = true) → ∀ d ∈ l, (!inClause d) = false := by
    intro l all d member
    rw [all d member]
    rfl
  by_cases isCall : form = .call
  · subst isCall
    obtain ⟨front, z, rfl, own, _⟩ := leads.bracket
    rw [List.append_assoc, List.cons_append] at same
    obtain ⟨rfl, rfl, _⟩ := Text.append_cons_inj_of_free (free front own) (free pre inside) (by decide) (by simp [other]) same
    exact ⟨rfl, List.prefix_append _ _, fun apart => absurd rfl apart⟩
  · obtain ⟨rfl, rfl, _⟩ := Text.append_cons_inj_of_free (free lead (leads.passes isCall)) (free pre inside)
      (by simp [not_inClause_of_isMark mark]) (by simp [other]) same
    refine ⟨?_, List.prefix_rfl, fun _ => rfl⟩
    cases form with
    | call => exact absurd rfl isCall
    | clause | sideEffect => exact mark

theorem ways_eq_nil_of_stop (ahead : place.rest = pre ++ c :: post) (inside : ∀ d ∈ pre, inClause d = true)
    (other : inClause c = false) (no : form.stopsAt c = false) : form.pattern.ways ⟨place, []⟩ = [] := by
  refine List.eq_nil_iff_forall_not_mem.mpr fun m member => ?_
  obtain ⟨lead, a, w, b, tail, u, _, leads, _, quotes, _, _⟩ := (mem_ways_form form).mp member
  obtain ⟨stops, _⟩ := leads.of_stop quotes.opens inside other (quotes.whole.symm.trans ahead)
  exact Bool.false_ne_true (no.symm.trans stops)

theorem sightings_skip_stop (ahead : place.rest = pre ++ c :: post) (inside : ∀ d ∈ pre, inClause d = true)
    (other : inClause c = false) (no : form.stopsAt c = false) :
    sightings 1 form.pattern place = sightings 1 form.pattern (place.beyond pre (c :: post)) := by
  apply sightings_skip 1 form.passesSome_pattern ahead
  rintro v u rfl _
  exact ways_eq_nil_of_stop rfl
    (fun d member => inside d (List.mem_append_right v member)) other no

/-- No reference begins in front of a character that no clause passes, if it would end with another letter. -/
theorem sightings_skip_last {front z : List Char} {d : Char} (apart : form ≠ .call) (ahead : place.rest = pre ++ c :: post)
    (inside : ∀ d ∈ pre, inClause d = true) (other : inClause c = false) (spelled : pre = front ++ d :: z)
    (solid : Text.isBlank d = false) (blank : ∀ c ∈ z, Text.isBlank c = true) (differ : form.lastLetter ≠ d) :
    sightings 1 form.pattern place = sightings 1 form.pattern (place.beyond pre (c :: post)) := by
  apply sightings_skip 1 form.passesSome_pattern ahead
  intro v u cut _
  refine List.eq_nil_iff_forall_not_mem.mpr fun m member => ?_
  obtain ⟨lead, a, w, b, tail, u', _, leads, _, quotes, _, _⟩ := (mem_ways_form form).mp member
  have whole : lead ++ a :: (w ++ b :: (tail ++ u')) = u ++ c :: post := quotes.whole.symm
  obtain rfl := (leads.of_stop quotes.opens (fun d member => inside d (by simp [cut, member])) other whole).2.2 apart
  obtain ⟨front', z', rfl, blank'⟩ := leads.last
  have solid' : Text.isBlank form.lastLetter = false := by
    cases form <;> decide
  rw [spelled, ← List.append_assoc] at cut
  exact differ (Text.append_blanks_inj solid solid' blank blank' cut).2.symm

theorem ways_eq_nil_of_starts (ahead : place.rest = c :: rest) (apart : form.starts c = false) :
    form.pattern.ways ⟨place, []⟩ = [] := by
  refine List.eq_nil_iff_forall_not_mem.mpr fun m member => ?_
  obtain ⟨lead, a, w, b, tail, u, _, leads, _, quotes, _, _⟩ := (mem_ways_form form).mp member
  obtain ⟨d, more, rfl, first⟩ := leads.head
  have whole : place.rest = d :: _ := quotes.whole
  rw [ahead] at whole
  rw [(List.cons.inj whole).1, first] at apart
  cases apart

theorem sightings_skip_starts (pre rest : List Char) (ahead : place.rest = pre ++ rest)
    (apart : ∀ c ∈ pre, form.starts c = false) :
    sightings 1 form.pattern place = sightings 1 form.pattern (place.beyond pre rest) := by
  apply sightings_skip 1 form.passesSome_pattern ahead
  rintro v u rfl some
  obtain ⟨c, u, rfl⟩ := List.exists_cons_of_ne_nil some
  exact ways_eq_nil_of_starts rfl (apart c (by simp))

theorem sightings_skip_past (pre : List Char) (c : Char) (post : List Char) (ahead : place.rest = pre ++ c :: post)
    (inside : ∀ d ∈ pre, inClause d = true) (other : inClause c = false) (no : form.stopsAt c = false)
    (apart : form.starts c = false) :
    sightings 1 form.pattern place = sightings 1 form.pattern (place.beyond (pre ++ [c]) post) := by
  rw [sightings_skip_stop ahead inside other no,
    sightings_skip_starts [c] post rfl (by simp [apart]), Cursor.beyond_beyond]

end Stop

def StandsIn (word s : List Char) : Prop :=
  ∃ front back, s = front ++ (word ++ back) ∧ (∀ c ∈ front.getLast?, Text.isWord c = false) ∧
    ∀ c ∈ back.head?, Text.isWord c = false

/-- No reference begins in the name of a module that is on one line and has none of the words of a clause. -/
theorem sightings_skip_quoted (mark : isMark a = true) (inside : ∀ c ∈ w, inClause c = true) (oneLine : '\n' ∉ w)
    (free : ∀ word ∈ ["import", "export"], ¬ StandsIn word.toList w) (ahead : place.rest = a :: (w ++ a :: u)) :
    sightings 1 form.pattern place = sightings 1 form.pattern (place.beyond (a :: (w ++ [a])) u) := by
  have other : inClause a = false := not_inClause_of_isMark mark
  have apart : ∀ c ∈ [a], form.starts c = false := by
    intro c member
    obtain rfl := List.mem_singleton.mp member
    rcases isMark_eq_true_iff.mp mark with rfl | rfl <;> cases form <;> decide
  have inner : sightings 1 form.pattern (place.beyond [a] (w ++ a :: u)) =
      sightings 1 form.pattern ((place.beyond [a] (w ++ a :: u)).beyond w (a :: u)) := by
    apply sightings_skip 1 form.passesSome_pattern rfl
    rintro v u' rfl some
    refine List.eq_nil_iff_forall_not_mem.mpr fun m member => ?_
    obtain ⟨lead, b, w', b', tail, u'', begins, leads, _, quotes, _, _⟩ := (mem_ways_form form).mp member
    have whole : lead ++ b :: (w' ++ b' :: (tail ++ u'')) = u' ++ a :: u := quotes.whole.symm
    obtain ⟨stops, _, same⟩ := leads.of_stop quotes.opens (fun d member => inside d (by simp [member])) other whole
    cases form with
    | call =>
      rcases isMark_eq_true_iff.mp mark with rfl | rfl <;> cases stops
    | sideEffect =>
      have feed : (v.getLast?.or (Option.some a)).all (· == '\n') = true := by
        simpa [Form.BeginsAt, Cursor.atLineStart, Cursor.beyond] using begins
      cases last : v.getLast? with
      | none =>
        obtain rfl : a = '\n' := by simpa [last] using feed
        cases mark
      | some c =>
        obtain rfl : c = '\n' := by simpa [last] using feed
        exact oneLine (List.mem_append_left u' (List.mem_of_getLast? last))
    | clause =>
      obtain rfl := same (by decide)
      obtain ⟨word, known, v', z, rfl, _, ⟨c, first, outer⟩, _⟩ := leads
      have border : (v.getLast?.or (Option.some a)).any Text.isWord = false := by
        simpa [Form.BeginsAt, Cursor.beyond] using begins
      obtain ⟨more, rfl⟩ := List.head?_eq_some_iff.mp first
      refine free word known ⟨v, _, rfl, fun d last => ?_, fun d head => ?_⟩
      · rw [Option.mem_def.mp last] at border
        simpa using border
      · obtain rfl : c = d := by simpa using head
        exact outer
  rw [sightings_skip_starts [a] (w ++ a :: u) ahead apart, inner, Cursor.beyond_beyond,
    sightings_skip_starts [a] u rfl apart, Cursor.beyond_beyond]
  simp

end Places

end Source.Import

end Conformance
