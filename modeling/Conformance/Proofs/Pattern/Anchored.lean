import Conformance.Proofs.Pattern.Members

namespace Conformance

theorem Cursor.getLast?_run {accepts : Char → Bool} {at_ : Cursor} {w u : List Char} (cut : at_.rest = w ++ u)
    (inside : ∀ c ∈ w, accepts c = true) (stop : Pattern.Stops accepts u) :
    (run accepts at_).getLast? = some (at_.beyond w u) := by
  induction w generalizing at_ with
  | nil =>
    rw [beyond_nil_of_rest (u := u) cut]
    cases u with
    | nil => rw [run_nil cut, List.getLast?_singleton]
    | cons c u => simp [run_cons cut, Pattern.stops_cons.mp stop]
  | cons c w ih =>
    have ahead : at_.rest = c :: (w ++ u) := cut
    obtain ⟨accepted, inside⟩ := List.forall_mem_cons.mp inside
    have onward : (run accepts (at_.past c (w ++ u))).getLast? = some ((at_.past c (w ++ u)).beyond w u) := ih rfl inside
    rw [run_cons ahead, if_pos accepted, List.getLast?_cons, onward, Option.getD_some, beyond_cons at_ c w (w ++ u)]

namespace Pattern

variable {s : Progress} {parts : List Pattern} {accepts first : Char → Bool} {w u : List Char}

section Longest

theorem head?_ways_most (cut : s.place.rest = w ++ u) (inside : ∀ c ∈ w, accepts c = true) (stop : Stops accepts u) :
    ((most accepts).ways s).head? = some (s.beyond w u) := by
  have run : (most accepts).ways s = (Cursor.run accepts s.place).reverse.map s.moveTo := rfl
  rw [run, List.head?_map, List.head?_reverse, Cursor.getLast?_run cut inside stop]
  rfl

theorem head?_ways_word {c : Char} (cut : s.place.rest = c :: (w ++ u)) (begins : first c = true)
    (inside : ∀ d ∈ w, accepts d = true) (stop : Stops accepts u) :
    ((seq (char first) (most accepts)).ways s).head? = some (s.beyond (c :: w) u) := by
  rw [ways_seq, ways_char cut begins, List.flatMap_singleton, head?_ways_most rfl inside stop, Progress.beyond_beyond,
    List.singleton_append]

theorem head?_ways_mostOne (cut : s.place.rest = w ++ u) (some : w ≠ []) (inside : ∀ c ∈ w, accepts c = true)
    (stop : Stops accepts u) : ((mostOne accepts).ways s).head? = Option.some (s.beyond w u) := by
  obtain ⟨c, w, rfl⟩ := List.exists_cons_of_ne_nil some
  obtain ⟨accepted, inside⟩ := List.forall_mem_cons.mp inside
  exact head?_ways_word cut accepted inside stop

theorem head?_ways_lastGroup {p : Pattern} (number : Nat) (preferred : (p.ways s).head? = some (s.beyond w u)) :
    ((chain [group number p]).ways s).head? = some ((s.beyond w u).keep number s.place) := by
  have own : (chain [group number p]).ways s = (p.ways s).map (·.keep number s.place) := by
    rw [ways_chain_cons]
    exact List.flatMap_singleton' _
  rw [own, List.head?_map, preferred, Option.map_some]

end Longest

theorem ways_chain_group_of_stops (number : Nat) (stops : Stops first s.place.rest) :
    (chain (group number (seq (char first) (most accepts)) :: parts)).ways s = [] := by
  rw [ways_chain_cons, flatMap_ways_group, ways_seq, ways_char_of_stops stops]
  rfl

section Words

variable {word : String} {words : List String}

def PrefixFree (words : List String) : Prop :=
  ∀ a ∈ words, ∀ b ∈ words, a.toList <+: b.toList → a = b

instance (words : List String) : Decidable (PrefixFree words) :=
  inferInstanceAs (Decidable (∀ a ∈ words, ∀ b ∈ words, a.toList <+: b.toList → a = b))

theorem PrefixFree.not_begins (free : PrefixFree words) {a b : String} (known : a ∈ words) (known' : b ∈ words)
    (differ : a ≠ b) (rest : List Char) : ¬ a.toList <+: b.toList ++ rest := by
  intro begins
  rcases List.prefix_or_prefix_of_prefix begins (List.prefix_append b.toList rest) with inside | inside
  · exact differ (free a known b known' inside)
  · exact differ (free b known' a known inside).symm

theorem ways_anyOf_eq_nil (none : ∀ w ∈ word :: words, ¬ w.toList <+: s.place.rest) : (anyOf word words).ways s = [] := by
  refine List.eq_nil_iff_forall_not_mem.mpr fun m member => ?_
  obtain ⟨w, listed, u, ahead, _⟩ := mem_ways_anyOf.mp member
  exact none w listed ⟨u, ahead.symm⟩

theorem ways_anyOf {own : String} (listed : own ∈ word :: words) (free : PrefixFree (word :: words))
    (nodup : (word :: words).Nodup) (ahead : s.place.rest = own.toList ++ u) :
    (anyOf word words).ways s = [s.beyond own.toList u] := by
  have others : ∀ w ∈ word :: words, w ≠ own → ¬ w.toList <+: s.place.rest := by
    intro w member differ
    rw [ahead]
    exact free.not_begins member listed differ u
  induction words generalizing word with
  | nil =>
    obtain rfl : own = word := List.mem_singleton.mp listed
    exact ways_text ahead
  | cons next words ih =>
    have ways : (anyOf word (next :: words)).ways s = (text word).ways s ++ (anyOf next words).ways s := rfl
    obtain ⟨apart, nodup⟩ := List.nodup_cons.mp nodup
    rcases List.mem_cons.mp listed with rfl | later
    · rw [ways, ways_text ahead, ways_anyOf_eq_nil fun w member =>
        others w (List.mem_cons_of_mem _ member) fun same => apart (same ▸ member)]
      rfl
    · have differ : word ≠ own := fun same => apart (same ▸ later)
      rw [ways, ways_text_eq_nil (others word List.mem_cons_self differ), List.nil_append]
      exact ih later (fun a member b member' => free a (List.mem_cons_of_mem _ member) b (List.mem_cons_of_mem _ member'))
        nodup fun w member => others w (List.mem_cons_of_mem _ member)

end Words

section Repetition

variable {f : Progress → List Progress} {step : Progress → List Progress} {limit : Nat}

theorem flatMap_repeatWays_of_none (none : step s = []) : (repeatWays step limit s).flatMap f = f s := by
  cases limit with
  | zero => exact List.flatMap_singleton ..
  | succ limit =>
    rw [repeatWays, none]
    exact List.flatMap_singleton ..

/-- A word and a run behind it are passed in one way by a repetition of both, if neither the word nor what follows the
repetition can stand in the run, and what follows cannot stand at the word. -/
theorem flatMap_repeatWays_word {p : Pattern} {passed : List Char} (word : p.ways s = [s.beyond passed (w ++ u)])
    (some : w ≠ []) (inside : ∀ c ∈ w, accepts c = true) (stop : Stops accepts u)
    (refuses : ∀ m : Progress, Goes accepts m.place.rest → p.ways m = [] ∧ f m = []) (here : f s = []) :
    (repeatWays (seq p (mostOne accepts)).ways (limit + 1) s).flatMap f =
      (repeatWays (seq p (mostOne accepts)).ways limit (s.beyond (passed ++ w) u)).flatMap f := by
  have further : s.place.offset < (s.beyond (passed ++ w) u).place.offset := by
    obtain ⟨c, w, rfl⟩ := List.exists_cons_of_ne_nil some
    have positive := c.utf8Size_pos
    simp only [Progress.beyond_place, Cursor.beyond, Text.byteLength_append, Text.byteLength_cons]
    omega
  rw [repeatWays, List.flatMap_append, List.flatMap_cons, here, ways_seq, word, List.flatMap_singleton, List.flatMap_assoc]
  rw [flatMap_ways_mostOne rfl some inside stop]
  · simp only [Progress.beyond_beyond, if_pos further, List.flatMap_nil, List.append_nil]
  · -- a shorter run leaves a character of the run, at which nothing goes on
    intro m goes
    obtain ⟨none, refused⟩ := refuses m goes
    have none' : (seq p (mostOne accepts)).ways m = [] := by rw [ways_seq, none, List.flatMap_nil]
    split
    · rw [flatMap_repeatWays_of_none none', refused]
    · rfl

end Repetition

theorem find?_textStart (parts : List Pattern) (line : List Char) : (chain (textStart :: parts)).find? line =
    ((chain parts).ways ⟨.ofText line, []⟩).head?.map fun s => ⟨.ofText line, s.place, s.captures⟩ := by
  have start : (chain (textStart :: parts)).ways ⟨.ofText line, []⟩ = (chain parts).ways ⟨.ofText line, []⟩ := by
    rw [ways_chain_cons]
    exact List.flatMap_singleton ..
  have behind : ∀ v u, v ≠ [] → (chain (textStart :: parts)).ways ⟨(Cursor.ofText line).beyond v u, []⟩ = [] := by
    intro v u some
    refine List.eq_nil_iff_forall_not_mem.mpr fun m member => ?_
    obtain ⟨t, first, _⟩ := mem_ways_chain_cons.mp member
    have none := (mem_ways_textStart.mp first).1
    simp [Cursor.beyond, Cursor.ofText, some] at none
  have here := matchAt?_eq (chain (textStart :: parts)) (.ofText line)
  rw [start] at here
  rw [find?, ← here]
  cases found : (chain (textStart :: parts)).matchAt? (.ofText line) with
  | some m => exact searchFrom_of_matchAt? found
  | none =>
    refine searchFrom_eq_none fun v u whole => ?_
    by_cases some : v = []
    · subst some
      rw [Cursor.beyond_nil_of_rest (u := u) whole]
      exact matchAt?_eq_none_iff.mp found
    · exact behind v u some

end Pattern

end Conformance
