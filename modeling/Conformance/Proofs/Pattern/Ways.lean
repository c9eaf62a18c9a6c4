import Conformance.Pattern.Search
import Conformance.Text.Offset
import Mathlib.Data.List.Basic

namespace Conformance

namespace Cursor

def beyond (at_ : Cursor) (passed rest : List Char) : Cursor :=
  ⟨at_.offset + Text.byteLength passed, passed.getLast?.or at_.before, rest⟩

@[simp] theorem beyond_rest (at_ : Cursor) (passed rest : List Char) : (at_.beyond passed rest).rest = rest := rfl

@[simp] theorem beyond_nil (at_ : Cursor) : at_.beyond [] at_.rest = at_ := rfl

theorem beyond_nil_of_rest {at_ : Cursor} {u : List Char} (ahead : at_.rest = u) : at_.beyond [] u = at_ := by
  rw [← ahead, beyond_nil]

@[simp] theorem beyond_beyond (at_ : Cursor) (v w rest rest' : List Char) :
    (at_.beyond v rest).beyond w rest' = at_.beyond (v ++ w) rest' := by
  simp only [beyond, Text.byteLength_append, List.getLast?_append, Nat.add_assoc, mk.injEq, and_true, true_and]
  cases w.getLast? <;> rfl

theorem past_eq_beyond (at_ : Cursor) (c : Char) (rest : List Char) : at_.past c rest = at_.beyond [c] rest := by
  simp [past, beyond]

theorem beyond_cons (at_ : Cursor) (c : Char) (w rest rest' : List Char) :
    at_.beyond (c :: w) rest' = (at_.past c rest).beyond w rest' := by
  rw [past_eq_beyond, beyond_beyond, List.singleton_append]

theorem textTo_beyond {at_ : Cursor} {passed rest : List Char} (cut : at_.rest = passed ++ rest) :
    at_.textTo (at_.beyond passed rest) = passed := by
  simp [textTo, beyond, cut]

def run (accepts : Char → Bool) (at_ : Cursor) : List Cursor :=
  reach accepts at_.offset at_.before at_.rest

theorem run_nil {accepts : Char → Bool} {at_ : Cursor} (ended : at_.rest = []) : run accepts at_ = [at_] := by
  obtain ⟨offset, before, rest⟩ := at_
  subst ended
  rfl

theorem run_cons {accepts : Char → Bool} {at_ : Cursor} {c : Char} {rest : List Char} (ahead : at_.rest = c :: rest) :
    run accepts at_ = at_ :: if accepts c then run accepts (at_.past c rest) else [] := by
  obtain ⟨offset, before, rest'⟩ := at_
  subst ahead
  rfl

/-- The places of a run are behind each part of the text ahead that is in the class. -/
theorem mem_run {accepts : Char → Bool} {at_ place : Cursor} :
    place ∈ run accepts at_ ↔
      ∃ w rest, at_.rest = w ++ rest ∧ (∀ c ∈ w, accepts c = true) ∧ place = at_.beyond w rest := by
  induction ahead : at_.rest generalizing at_ with
  | nil =>
    rw [run_nil ahead, List.mem_singleton]
    constructor
    · rintro rfl
      exact ⟨[], [], rfl, by simp, (beyond_nil_of_rest ahead).symm⟩
    · rintro ⟨w, rest, whole, _, rfl⟩
      obtain ⟨rfl, rfl⟩ := List.append_eq_nil_iff.mp whole.symm
      exact beyond_nil_of_rest ahead
  | cons c rest ih =>
    rw [run_cons ahead, List.mem_cons]
    constructor
    · rintro (rfl | member)
      · exact ⟨[], c :: rest, rfl, by simp, (beyond_nil_of_rest ahead).symm⟩
      · by_cases accepted : accepts c = true
        · rw [if_pos accepted, ih rfl] at member
          obtain ⟨w, rest', whole, inside, rfl⟩ := member
          refine ⟨c :: w, rest', by simpa using whole, ?_, (beyond_cons at_ c w rest rest').symm⟩
          simpa [accepted] using inside
        · simp [accepted] at member
    · rintro ⟨w, rest', whole, inside, rfl⟩
      cases w with
      | nil =>
        cases whole
        exact Or.inl (beyond_nil_of_rest ahead)
      | cons d w =>
        obtain ⟨rfl, onward⟩ : c = d ∧ rest = w ++ rest' := by simpa using whole
        rw [if_pos (inside c (by simp)), ih rfl, beyond_cons at_ c w rest rest']
        exact Or.inr ⟨w, rest', onward, fun d member => inside d (by simp [member]), rfl⟩

/-- If all places of a run but one are refused, only that one is taken, from whichever side they are
tried. -/
theorem flatMap_run {β : Type} {accepts : Char → Bool} {at_ : Cursor} {v u : List Char} {f : Cursor → List β}
    (cut : at_.rest = v ++ u) (inside : ∀ c ∈ v, accepts c = true)
    (others : ∀ v' u', v' ++ u' = v ++ u → (∀ c ∈ v', accepts c = true) → v' ≠ v → f (at_.beyond v' u') = []) :
    (run accepts at_).flatMap f = f (at_.beyond v u) ∧ (run accepts at_).reverse.flatMap f = f (at_.beyond v u) := by
  induction v generalizing at_ with
  | nil =>
    rw [beyond_nil_of_rest (u := u) cut]
    cases ahead : at_.rest with
    | nil =>
      rw [run_nil ahead]
      simp
    | cons c rest =>
      -- what comes after the first place has passed `c`
      have later : ∀ place ∈ (if accepts c then run accepts (at_.past c rest) else []), f place = [] := by
        intro place member
        by_cases accepted : accepts c = true
        · rw [if_pos accepted] at member
          obtain ⟨w, rest', whole, inner, rfl⟩ := mem_run.mp member
          have ends : rest = w ++ rest' := whole
          rw [← beyond_cons at_ c w rest]
          refine others (c :: w) rest' ?_ (by simpa [accepted] using inner) (by simp)
          rw [← cut, ahead, ends]
          rfl
        · simp [accepted] at member
      rw [run_cons ahead, List.reverse_cons, List.flatMap_append, List.flatMap_cons, List.flatMap_eq_nil_iff.mpr later,
        List.flatMap_eq_nil_iff.mpr (by simpa using later)]
      simp
  | cons c v ih =>
    have ahead : at_.rest = c :: (v ++ u) := cut
    have accepted : accepts c = true := inside c (by simp)
    have here : f at_ = [] := by
      have first := others [] at_.rest (by simpa using cut) (by simp) (by simp)
      rwa [beyond_nil] at first
    have inner : (run accepts (at_.past c (v ++ u))).flatMap f = f ((at_.past c (v ++ u)).beyond v u) ∧
        (run accepts (at_.past c (v ++ u))).reverse.flatMap f = f ((at_.past c (v ++ u)).beyond v u) := by
      refine ih rfl (fun e member => inside e (by simp [member])) ?_
      intro v' u' whole inner differ
      rw [← beyond_cons at_ c v']
      exact others (c :: v') u' (by simp [whole]) (by simpa [accepted] using inner) (by simpa using differ)
    rw [run_cons ahead, if_pos accepted, beyond_cons at_ c v (v ++ u), List.reverse_cons, List.flatMap_append,
      List.flatMap_cons, here]
    simpa [here] using inner

end Cursor

namespace Pattern

def Progress.beyond (s : Progress) (passed rest : List Char) : Progress :=
  s.moveTo (s.place.beyond passed rest)

namespace Progress

@[simp] theorem beyond_place (s : Progress) (passed rest : List Char) :
    (s.beyond passed rest).place = s.place.beyond passed rest := rfl

@[simp] theorem beyond_captures (s : Progress) (passed rest : List Char) :
    (s.beyond passed rest).captures = s.captures := rfl

@[simp] theorem keep_place (s : Progress) (number : Nat) (start : Cursor) : (s.keep number start).place = s.place := rfl

@[simp] theorem keep_captures (s : Progress) (number : Nat) (start : Cursor) :
    (s.keep number start).captures = ⟨number, start, s.place⟩ :: s.captures := rfl

@[simp] theorem beyond_beyond (s : Progress) (v w rest rest' : List Char) :
    (s.beyond v rest).beyond w rest' = s.beyond (v ++ w) rest' := by
  simp [beyond, moveTo]

theorem beyond_nil {s : Progress} {u : List Char} (ahead : s.place.rest = u) : s.beyond [] u = s := by
  rw [beyond, Cursor.beyond_nil_of_rest ahead]
  rfl

end Progress

def Stops (accepts : Char → Bool) (rest : List Char) : Prop :=
  ∀ c ∈ rest.head?, accepts c = false

def Goes (accepts : Char → Bool) (rest : List Char) : Prop :=
  ∃ c ∈ rest.head?, accepts c = true

@[simp] theorem stops_cons {accepts : Char → Bool} {c : Char} {rest : List Char} :
    Stops accepts (c :: rest) ↔ accepts c = false := by
  simp [Stops]

@[simp] theorem goes_cons {accepts : Char → Bool} {c : Char} {rest : List Char} :
    Goes accepts (c :: rest) ↔ accepts c = true := by
  simp [Goes]

theorem Goes.cases {accepts : Char → Bool} {rest : List Char} (goes : Goes accepts rest) :
    ∃ c more, rest = c :: more ∧ accepts c = true := by
  obtain ⟨c, ahead, accepted⟩ := goes
  obtain ⟨more, whole⟩ := List.head?_eq_some_iff.mp ahead
  exact ⟨c, more, whole, accepted⟩

theorem Goes.stops {accepts other : Char → Bool} {rest : List Char} (goes : Goes accepts rest)
    (apart : ∀ c, accepts c = true → other c = false) : Stops other rest := by
  obtain ⟨c, more, rfl, accepted⟩ := goes.cases
  exact stops_cons.mpr (apart c accepted)

theorem Goes.mono {accepts other : Char → Bool} {rest : List Char} (goes : Goes accepts rest)
    (within : ∀ c, accepts c = true → other c = true) : Goes other rest := by
  obtain ⟨c, ahead, accepted⟩ := goes
  exact ⟨c, ahead, within c accepted⟩

theorem Goes.not_begins {accepts : Char → Bool} {word rest : List Char} (goes : Goes accepts rest)
    (apart : ∃ c ∈ word.head?, accepts c = false) : ¬ word <+: rest := by
  obtain ⟨c, more, rfl, accepted⟩ := goes.cases
  obtain ⟨d, begins, refused⟩ := apart
  obtain ⟨word, rfl⟩ := List.head?_eq_some_iff.mp begins
  rw [List.cons_prefix_cons]
  rintro ⟨rfl, _⟩
  rw [accepted] at refused
  cases refused

section Parts

variable {s : Progress} {p q : Pattern} {accepts : Char → Bool}

theorem ways_seq (p q : Pattern) (s : Progress) : (seq p q).ways s = (p.ways s).flatMap q.ways := rfl

theorem chain_cons (p : Pattern) (parts : List Pattern) : chain (p :: parts) = seq p (chain parts) := rfl

@[simp] theorem ways_chain_nil (s : Progress) : (chain []).ways s = [s] := rfl

theorem ways_chain_cons (p : Pattern) (parts : List Pattern) (s : Progress) :
    (chain (p :: parts)).ways s = (p.ways s).flatMap (chain parts).ways := rfl

theorem ways_char {c : Char} {rest : List Char} (ahead : s.place.rest = c :: rest) (accepted : accepts c = true) :
    (char accepts).ways s = [s.beyond [c] rest] := by
  simp [ways, ahead, accepted, Progress.beyond, Cursor.past_eq_beyond]

theorem ways_char_of_stops (stops : Stops accepts s.place.rest) : (char accepts).ways s = [] := by
  unfold ways
  split
  · rfl
  · rename_i c rest ahead
    rw [ahead, stops_cons] at stops
    simp [stops]

theorem ways_exactly {cs rest : List Char} (ahead : s.place.rest = cs ++ rest) :
    (exactly cs).ways s = [s.beyond cs rest] := by
  induction cs generalizing s with
  | nil => exact congrArg (fun t => [t]) (Progress.beyond_nil ahead).symm
  | cons c cs ih =>
    have first : (char (· == c)).ways s = [s.beyond [c] (cs ++ rest)] := ways_char ahead (by simp)
    change ((char (· == c)).ways s).flatMap (exactly cs).ways = _
    rw [first, List.flatMap_singleton, ih rfl, Progress.beyond_beyond, List.singleton_append]

theorem ways_exactly_eq_nil {cs : List Char} (differs : ¬ cs <+: s.place.rest) : (exactly cs).ways s = [] := by
  induction cs generalizing s with
  | nil => simp at differs
  | cons c cs ih =>
    change ((char (· == c)).ways s).flatMap (exactly cs).ways = _
    cases ahead : s.place.rest with
    | nil => rw [ways_char_of_stops (by simp [ahead, Stops]), List.flatMap_nil]
    | cons d rest =>
      by_cases same : d = c
      · subst same
        rw [ways_char ahead (by simp), List.flatMap_singleton]
        apply ih
        simpa [ahead] using differs
      · rw [ways_char_of_stops (by simp [ahead, same]), List.flatMap_nil]

theorem ways_text {word : String} {rest : List Char} (ahead : s.place.rest = word.toList ++ rest) :
    (text word).ways s = [s.beyond word.toList rest] :=
  ways_exactly ahead

theorem ways_text_eq_nil {word : String} (differs : ¬ word.toList <+: s.place.rest) : (text word).ways s = [] :=
  ways_exactly_eq_nil differs

theorem flatMap_ways_run {v u : List Char} {f : Progress → List Progress} (cut : s.place.rest = v ++ u)
    (inside : ∀ c ∈ v, accepts c = true)
    (others : ∀ v' u', v' ++ u' = v ++ u → (∀ c ∈ v', accepts c = true) → v' ≠ v → f (s.beyond v' u') = []) :
    ((fewest accepts).ways s).flatMap f = f (s.beyond v u) ∧ ((most accepts).ways s).flatMap f = f (s.beyond v u) := by
  have both := Cursor.flatMap_run (f := fun place => f (s.moveTo place)) cut inside others
  simp only [ways, List.flatMap_map]
  exact both

theorem goes_of_shorter {v w u rest : List Char} (whole : v ++ u = w ++ rest) (stop : Stops accepts rest)
    (inside : ∀ c ∈ w, accepts c = true) (taken : ∀ c ∈ v, accepts c = true) (differ : v ≠ w) : Goes accepts u := by
  rcases List.append_eq_append_iff.mp whole with ⟨more, rfl, rfl⟩ | ⟨more, rfl, rfl⟩
  · cases more with
    | nil => simp at differ
    | cons c more => exact ⟨c, by simp, inside c (by simp)⟩
  · cases more with
    | nil => simp at differ
    | cons c more =>
      rw [List.cons_append, stops_cons] at stop
      rw [taken c (by simp)] at stop
      cases stop

theorem flatMap_ways_most {w rest : List Char} {f : Progress → List Progress} (cut : s.place.rest = w ++ rest)
    (inside : ∀ c ∈ w, accepts c = true) (stop : Stops accepts rest)
    (refuses : ∀ m : Progress, Goes accepts m.place.rest → f m = []) :
    ((most accepts).ways s).flatMap f = f (s.beyond w rest) := by
  refine (flatMap_ways_run cut inside ?_).2
  intro v u whole taken differ
  exact refuses _ (goes_of_shorter whole stop inside taken differ)

theorem flatMap_ways_mostOne {w rest : List Char} {f : Progress → List Progress} (cut : s.place.rest = w ++ rest)
    (some : w ≠ []) (inside : ∀ c ∈ w, accepts c = true) (stop : Stops accepts rest)
    (refuses : ∀ m : Progress, Goes accepts m.place.rest → f m = []) :
    ((mostOne accepts).ways s).flatMap f = f (s.beyond w rest) := by
  obtain ⟨c, w, rfl⟩ := List.exists_cons_of_ne_nil some
  have first : (char accepts).ways s = [s.beyond [c] (w ++ rest)] := ways_char cut (inside c (by simp))
  change (((char accepts).ways s).flatMap (most accepts).ways).flatMap f = _
  rw [first, List.flatMap_singleton, flatMap_ways_most rfl (fun d member => inside d (by simp [member])) stop refuses,
    Progress.beyond_beyond, List.singleton_append]

theorem ways_mostOne_of_stops (stops : Stops accepts s.place.rest) : (mostOne accepts).ways s = [] := by
  change ((char accepts).ways s).flatMap _ = _
  rw [ways_char_of_stops stops, List.flatMap_nil]

theorem flatMap_ways_group (number : Nat) (p : Pattern) (s : Progress) (f : Progress → List Progress) :
    ((group number p).ways s).flatMap f = (p.ways s).flatMap fun m => f (m.keep number s.place) := by
  simp only [ways, List.flatMap_map]

theorem ways_wordBorder (border : s.place.atWordBorder = true) : wordBorder.ways s = [s] := by
  simp [ways, border]

theorem ways_wordBorder_eq_nil (inner : s.place.atWordBorder = false) : wordBorder.ways s = [] := by
  simp [ways, inner]

end Parts

section Chains

variable {s : Progress} {parts : List Pattern} {accepts : Char → Bool}

theorem ways_chain_text {word : String} {u : List Char} (ahead : s.place.rest = word.toList ++ u) :
    (chain (text word :: parts)).ways s = (chain parts).ways (s.beyond word.toList u) := by
  rw [ways_chain_cons, ways_text ahead, List.flatMap_singleton]

theorem ways_chain_text_eq_nil {word : String} (differs : ¬ word.toList <+: s.place.rest) :
    (chain (text word :: parts)).ways s = [] := by
  rw [ways_chain_cons, ways_text_eq_nil differs, List.flatMap_nil]

theorem ways_chain_text_of_goes {word : String} (goes : Goes accepts s.place.rest)
    (apart : ∃ c ∈ word.toList.head?, accepts c = false) : (chain (text word :: parts)).ways s = [] :=
  ways_chain_text_eq_nil (goes.not_begins apart)

theorem ways_chain_char {c : Char} {u : List Char} (ahead : s.place.rest = c :: u) (accepted : accepts c = true) :
    (chain (char accepts :: parts)).ways s = (chain parts).ways (s.beyond [c] u) := by
  rw [ways_chain_cons, ways_char ahead accepted, List.flatMap_singleton]

theorem ways_chain_char_of_stops (stops : Stops accepts s.place.rest) : (chain (char accepts :: parts)).ways s = [] := by
  rw [ways_chain_cons, ways_char_of_stops stops, List.flatMap_nil]

theorem ways_chain_most {w rest : List Char} (cut : s.place.rest = w ++ rest) (inside : ∀ c ∈ w, accepts c = true)
    (stop : Stops accepts rest) (refuses : ∀ m : Progress, Goes accepts m.place.rest → (chain parts).ways m = []) :
    (chain (most accepts :: parts)).ways s = (chain parts).ways (s.beyond w rest) := by
  rw [ways_chain_cons, flatMap_ways_most cut inside stop refuses]

theorem ways_chain_mostOne {w u : List Char} (cut : s.place.rest = w ++ u) (some : w ≠ [])
    (inside : ∀ c ∈ w, accepts c = true) (stop : Stops accepts u)
    (refuses : ∀ m : Progress, Goes accepts m.place.rest → (chain parts).ways m = []) :
    (chain (mostOne accepts :: parts)).ways s = (chain parts).ways (s.beyond w u) := by
  rw [ways_chain_cons, flatMap_ways_mostOne cut some inside stop refuses]

theorem ways_chain_group_mostOne (number : Nat) {w rest : List Char} (cut : s.place.rest = w ++ rest) (some : w ≠ [])
    (inside : ∀ c ∈ w, accepts c = true) (stop : Stops accepts rest)
    (refuses : ∀ m : Progress, Goes accepts m.place.rest → (chain parts).ways m = []) :
    (chain (group number (mostOne accepts) :: parts)).ways s =
      (chain parts).ways ((s.beyond w rest).keep number s.place) := by
  rw [ways_chain_cons, flatMap_ways_group]
  exact flatMap_ways_mostOne cut some inside stop fun m goes => refuses (m.keep number s.place) goes

theorem ways_chain_wordBorder (border : s.place.atWordBorder = true) :
    (chain (wordBorder :: parts)).ways s = (chain parts).ways s := by
  rw [ways_chain_cons, ways_wordBorder border, List.flatMap_singleton]

theorem ways_chain_wordBorder_eq_nil (inner : s.place.atWordBorder = false) :
    (chain (wordBorder :: parts)).ways s = [] := by
  rw [ways_chain_cons, ways_wordBorder_eq_nil inner, List.flatMap_nil]

end Chains

end Pattern

end Conformance
