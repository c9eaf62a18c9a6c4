import Conformance.Proofs.Pattern.Matches

namespace Conformance.Pattern

variable {s m : Progress} {p q : Pattern} {parts : List Pattern} {accepts : Char → Bool}

theorem mem_ways_seq : m ∈ (seq p q).ways s ↔ ∃ t ∈ p.ways s, m ∈ q.ways t := by
  rw [ways_seq, List.mem_flatMap]

@[simp] theorem mem_ways_chain_nil : m ∈ (chain []).ways s ↔ m = s := by
  rw [ways_chain_nil, List.mem_singleton]

theorem mem_ways_chain_cons : m ∈ (chain (p :: parts)).ways s ↔ ∃ t ∈ p.ways s, m ∈ (chain parts).ways t := by
  rw [chain_cons, mem_ways_seq]

theorem mem_ways_chain_append (front : List Pattern) : m ∈ (chain (front ++ parts)).ways s ↔
    ∃ t ∈ (chain front).ways s, m ∈ (chain parts).ways t := by
  induction front generalizing s with
  | nil => simp
  | cons p front ih =>
    rw [List.cons_append, mem_ways_chain_cons]
    simp only [ih, mem_ways_chain_cons]
    constructor
    · rintro ⟨t, first, t', second, last⟩
      exact ⟨t', ⟨t, first, second⟩, last⟩
    · rintro ⟨t', ⟨t, first, second⟩, last⟩
      exact ⟨t, first, t', second, last⟩

@[simp] theorem mem_ways_either : m ∈ (either p q).ways s ↔ m ∈ p.ways s ∨ m ∈ q.ways s :=
  List.mem_append

@[simp] theorem mem_ways_optional : m ∈ (optional p).ways s ↔ m ∈ p.ways s ∨ m = s := by
  rw [optional, mem_ways_either, ways, List.mem_singleton]

@[simp] theorem mem_ways_char :
    m ∈ (char accepts).ways s ↔ ∃ c u, s.place.rest = c :: u ∧ accepts c = true ∧ m = s.beyond [c] u := by
  constructor
  · intro member
    cases ahead : s.place.rest with
    | nil => simp [ways, ahead] at member
    | cons c u =>
      by_cases accepted : accepts c = true
      · rw [ways_char ahead accepted, List.mem_singleton] at member
        exact ⟨c, u, rfl, accepted, member⟩
      · simp [ways, ahead, accepted] at member
  · rintro ⟨c, u, ahead, accepted, rfl⟩
    rw [ways_char ahead accepted, List.mem_singleton]

theorem mem_ways_exactly {cs : List Char} :
    m ∈ (exactly cs).ways s ↔ ∃ u, s.place.rest = cs ++ u ∧ m = s.beyond cs u := by
  constructor
  · intro member
    by_cases begins : cs <+: s.place.rest
    · obtain ⟨u, ahead⟩ := begins
      rw [ways_exactly ahead.symm, List.mem_singleton] at member
      exact ⟨u, ahead.symm, member⟩
    · rw [ways_exactly_eq_nil begins] at member
      cases member
  · rintro ⟨u, ahead, rfl⟩
    rw [ways_exactly ahead, List.mem_singleton]

@[simp] theorem mem_ways_text {word : String} :
    m ∈ (text word).ways s ↔ ∃ u, s.place.rest = word.toList ++ u ∧ m = s.beyond word.toList u :=
  mem_ways_exactly

@[simp] theorem mem_ways_anyOf {word : String} {words : List String} :
    m ∈ (anyOf word words).ways s ↔ ∃ w ∈ word :: words, ∃ u, s.place.rest = w.toList ++ u ∧ m = s.beyond w.toList u := by
  induction words generalizing word with
  | nil => simp [anyOf]
  | cons next words ih =>
    rw [anyOf, mem_ways_either, mem_ways_text, ih]
    simp only [List.mem_cons, exists_eq_or_imp]

@[simp] theorem mem_ways_most :
    m ∈ (most accepts).ways s ↔
      ∃ w u, s.place.rest = w ++ u ∧ (∀ c ∈ w, accepts c = true) ∧ m = s.beyond w u := by
  have run : (most accepts).ways s = (Cursor.run accepts s.place).reverse.map s.moveTo := rfl
  simp only [run, List.mem_map, List.mem_reverse, Cursor.mem_run]
  constructor
  · rintro ⟨_, ⟨w, u, cut, inside, rfl⟩, rfl⟩
    exact ⟨w, u, cut, inside, rfl⟩
  · rintro ⟨w, u, cut, inside, rfl⟩
    exact ⟨_, ⟨w, u, cut, inside, rfl⟩, rfl⟩

@[simp] theorem mem_ways_fewest :
    m ∈ (fewest accepts).ways s ↔
      ∃ w u, s.place.rest = w ++ u ∧ (∀ c ∈ w, accepts c = true) ∧ m = s.beyond w u := by
  have same : m ∈ (fewest accepts).ways s ↔ m ∈ (most accepts).ways s := by
    simp only [ways, List.mem_map, List.mem_reverse]
  rw [same, mem_ways_most]

@[simp] theorem mem_ways_mostOne :
    m ∈ (mostOne accepts).ways s ↔
      ∃ w u, s.place.rest = w ++ u ∧ w ≠ [] ∧ (∀ c ∈ w, accepts c = true) ∧ m = s.beyond w u := by
  rw [mostOne, mem_ways_seq]
  constructor
  · rintro ⟨t, first, more⟩
    obtain ⟨c, u, ahead, accepted, rfl⟩ := mem_ways_char.mp first
    obtain ⟨w, u', cut, inside, rfl⟩ := mem_ways_most.mp more
    refine ⟨c :: w, u', ?_, by simp, by simpa [accepted] using inside, by simp⟩
    rw [ahead, show u = w ++ u' from cut]
    rfl
  · rintro ⟨w, u, cut, some, inside, rfl⟩
    obtain ⟨c, w, rfl⟩ := List.exists_cons_of_ne_nil some
    refine ⟨s.beyond [c] (w ++ u), mem_ways_char.mpr ⟨c, w ++ u, cut, inside c (by simp), rfl⟩, ?_⟩
    exact mem_ways_most.mpr ⟨w, u, rfl, fun d member => inside d (by simp [member]), by simp⟩

@[simp] theorem mem_ways_group {number : Nat} :
    m ∈ (group number p).ways s ↔ ∃ t ∈ p.ways s, m = t.keep number s.place := by
  rw [ways, List.mem_map]
  simp only [eq_comm]

@[simp] theorem mem_ways_wordBorder : m ∈ wordBorder.ways s ↔ s.place.atWordBorder = true ∧ m = s := by
  by_cases border : s.place.atWordBorder = true <;> simp [ways, border]

@[simp] theorem mem_ways_lineStart : m ∈ lineStart.ways s ↔ s.place.atLineStart = true ∧ m = s := by
  by_cases start : s.place.atLineStart = true <;> simp [ways, start]

@[simp] theorem mem_ways_textStart : m ∈ textStart.ways s ↔ s.place.before = none ∧ m = s := by
  by_cases start : s.place.before = none <;> simp [ways, start]

@[simp] theorem mem_ways_textEnd : m ∈ textEnd.ways s ↔ s.place.rest = [] ∧ m = s := by
  by_cases last : s.place.rest = [] <;> simp [ways, last]

section Borders

variable {place : Cursor} {c : Char} {front u : List Char}

theorem atWordBorder_in_front (ahead : place.rest = c :: u) (inWord : Text.isWord c = true) :
    place.atWordBorder = true ↔ place.before.any Text.isWord = false := by
  simp [Cursor.atWordBorder, ahead, inWord]

theorem atWordBorder_behind (last : front.getLast? = some c) (inWord : Text.isWord c = true) :
    (place.beyond front u).atWordBorder = true ↔ u.head?.any Text.isWord = false := by
  simp [Cursor.atWordBorder, Cursor.beyond, last, inWord]

end Borders

/-- A text in quotation marks is passed with its inside kept. -/
theorem mem_ways_quoted {number : Nat} :
    m ∈ (quoted number).ways s ↔ ∃ a w b u, s.place.rest = a :: (w ++ b :: u) ∧ among "'\"" a = true ∧
      among "'\"" b = true ∧ w ≠ [] ∧ (∀ c ∈ w, outside "'\"" c = true) ∧
      m = ⟨s.place.beyond (a :: (w ++ [b])) u,
        ⟨number, s.place.beyond [a] (w ++ b :: u), s.place.beyond (a :: w) (b :: u)⟩ :: s.captures⟩ := by
  constructor
  · intro member
    obtain ⟨t, first, member⟩ := mem_ways_chain_cons.mp member
    obtain ⟨a, u₁, ahead, isMark, rfl⟩ := mem_ways_char.mp first
    obtain ⟨t, second, member⟩ := mem_ways_chain_cons.mp member
    obtain ⟨t, inner, rfl⟩ := mem_ways_group.mp second
    obtain ⟨w, u₂, cut, some, inside, rfl⟩ := mem_ways_mostOne.mp inner
    obtain ⟨t, third, member⟩ := mem_ways_chain_cons.mp member
    obtain ⟨b, u, ends, isMark', rfl⟩ := mem_ways_char.mp third
    rw [mem_ways_chain_nil] at member
    have cut : u₁ = w ++ u₂ := cut
    have ends : u₂ = b :: u := ends
    subst cut ends member
    refine ⟨a, w, b, u, ahead, isMark, isMark', some, inside, ?_⟩
    simp [Progress.beyond, Progress.moveTo, Progress.keep]
  · rintro ⟨a, w, b, u, ahead, isMark, isMark', some, inside, rfl⟩
    refine mem_ways_chain_cons.mpr ⟨_, mem_ways_char.mpr ⟨a, w ++ b :: u, ahead, isMark, rfl⟩, ?_⟩
    refine mem_ways_chain_cons.mpr ⟨_, mem_ways_group.mpr ⟨_, mem_ways_mostOne.mpr ⟨w, b :: u, rfl, some, inside, rfl⟩,
      rfl⟩, ?_⟩
    refine mem_ways_chain_cons.mpr ⟨_, mem_ways_char.mpr ⟨b, u, rfl, isMark', rfl⟩, ?_⟩
    simp [Progress.beyond, Progress.moveTo, Progress.keep]

theorem ways_chain_ne_nil {t : Progress} (first : t ∈ p.ways s) (more : (chain parts).ways t ≠ []) :
    (chain (p :: parts)).ways s ≠ [] := by
  obtain ⟨m, member⟩ := List.exists_mem_of_ne_nil _ more
  exact List.ne_nil_of_mem (mem_ways_chain_cons.mpr ⟨t, first, member⟩)

theorem ways_chain_nil_ne_nil : (chain []).ways s ≠ [] :=
  List.cons_ne_nil _ _

theorem matchAt?_of_unique {place : Cursor} (one : m ∈ p.ways ⟨place, []⟩) (only : ∀ t ∈ p.ways ⟨place, []⟩, t = m) :
    p.matchAt? place = some ⟨place, m.place, m.captures⟩ := by
  cases found : p.ways ⟨place, []⟩ with
  | nil =>
    rw [found] at one
    cases one
  | cons t more =>
    have same : t = m := only t (by simp [found])
    rw [matchAt?_of_ways found, same]

end Conformance.Pattern
