import Conformance.Proofs.Pattern.Ways

namespace Conformance.Pattern

variable {p : Pattern} {place : Cursor}

theorem matchAt?_eq (p : Pattern) (place : Cursor) :
    p.matchAt? place = (p.ways ⟨place, []⟩).head?.map fun s => ⟨place, s.place, s.captures⟩ := by
  rw [matchAt?, run_eq_findSome?_ways]
  cases p.ways ⟨place, []⟩ <;> rfl

theorem matchAt?_of_ways {m : Progress} {more : List Progress} (found : p.ways ⟨place, []⟩ = m :: more) :
    p.matchAt? place = some ⟨place, m.place, m.captures⟩ := by
  rw [matchAt?_eq, found]
  rfl

theorem matchAt?_eq_none_iff : p.matchAt? place = none ↔ p.ways ⟨place, []⟩ = [] := by
  rw [matchAt?_eq, Option.map_eq_none_iff, List.head?_eq_none_iff]

theorem searchFrom_of_matchAt? {m : Match} (found : p.matchAt? place = some m) : p.searchFrom place = some m := by
  obtain ⟨offset, before, rest⟩ := place
  unfold searchFrom
  cases rest with
  | nil => exact found
  | cons c rest =>
    unfold search
    rw [found]

theorem searchFrom_cons {c : Char} {u : List Char} (ahead : place.rest = c :: u)
    (refused : p.ways ⟨place, []⟩ = []) : p.searchFrom place = p.searchFrom (place.past c u) := by
  obtain ⟨offset, before, rest'⟩ := place
  subst ahead
  conv_lhs => unfold searchFrom search
  rw [matchAt?_eq_none_iff.mpr refused]
  rfl

theorem searchFrom_nil (ahead : place.rest = []) : p.searchFrom place = p.matchAt? place := by
  obtain ⟨offset, before, rest⟩ := place
  subst ahead
  rfl

theorem searchFrom_skip {skipped rest : List Char} (ahead : place.rest = skipped ++ rest)
    (refused : ∀ v u, skipped = v ++ u → u ≠ [] → p.ways ⟨place.beyond v (u ++ rest), []⟩ = []) :
    p.searchFrom place = p.searchFrom (place.beyond skipped rest) := by
  induction skipped generalizing place with
  | nil => rw [Cursor.beyond_nil_of_rest (u := rest) ahead]
  | cons c skipped ih =>
    have here : p.ways ⟨place, []⟩ = [] := by
      have first := refused [] (c :: skipped) rfl (by simp)
      rwa [Cursor.beyond_nil_of_rest ahead] at first
    rw [searchFrom_cons ahead here, Cursor.beyond_cons place c skipped (skipped ++ rest)]
    refine ih rfl fun v u whole some => ?_
    rw [← Cursor.beyond_cons place c v]
    exact refused (c :: v) u (by simp [whole]) some

theorem searchFrom_eq_none (refused : ∀ v u, place.rest = v ++ u → p.ways ⟨place.beyond v u, []⟩ = []) :
    p.searchFrom place = none := by
  have skip : p.searchFrom place = p.searchFrom (place.beyond place.rest []) := by
    refine searchFrom_skip (by simp) ?_
    intro v u whole _
    rw [List.append_nil]
    exact refused v u whole
  rw [skip, searchFrom_nil rfl, matchAt?_eq_none_iff]
  exact refused place.rest [] (by simp)

/-- A search finds something exactly if the pattern has a way at some place. -/
theorem searchFrom_isSome_iff :
    (p.searchFrom place).isSome = true ↔ ∃ v u, place.rest = v ++ u ∧ p.ways ⟨place.beyond v u, []⟩ ≠ [] := by
  constructor
  · intro found
    apply Classical.byContradiction
    intro nowhere
    have nothing : p.searchFrom place = none := searchFrom_eq_none fun v u whole =>
      Classical.byContradiction fun some => nowhere ⟨v, u, whole, some⟩
    rw [nothing] at found
    cases found
  · rintro ⟨v, u, whole, some⟩
    induction v generalizing place with
    | nil =>
      rw [Cursor.beyond_nil_of_rest (u := u) whole] at some
      obtain ⟨m, more, found⟩ := List.exists_cons_of_ne_nil some
      rw [searchFrom_of_matchAt? (matchAt?_of_ways found)]
      rfl
    | cons c v ih =>
      by_cases refused : p.ways ⟨place, []⟩ = []
      · rw [searchFrom_cons (u := v ++ u) whole refused]
        rw [Cursor.beyond_cons place c v (v ++ u)] at some
        exact ih rfl some
      · obtain ⟨m, more, found⟩ := List.exists_cons_of_ne_nil refused
        rw [searchFrom_of_matchAt? (matchAt?_of_ways found)]
        rfl

theorem matchAt?_of_searchFrom {m : Match} (found : p.searchFrom place = some m) :
    ∃ v u, place.rest = v ++ u ∧ p.matchAt? (place.beyond v u) = some m := by
  induction ahead : place.rest generalizing place with
  | nil =>
    rw [searchFrom_nil ahead] at found
    exact ⟨[], [], rfl, by rwa [Cursor.beyond_nil_of_rest ahead]⟩
  | cons c rest ih =>
    cases first : p.matchAt? place with
    | some found' =>
      rw [searchFrom_of_matchAt? first, ← first] at found
      exact ⟨[], c :: rest, rfl, by rwa [Cursor.beyond_nil_of_rest ahead]⟩
    | none =>
      rw [searchFrom_cons ahead (matchAt?_eq_none_iff.mp first)] at found
      obtain ⟨v, u, cut, here⟩ := ih found rfl
      exact ⟨c :: v, u, by rw [show rest = v ++ u from cut, List.cons_append], by rwa [Cursor.beyond_cons place c v rest]⟩

theorem searchFrom_eq_some {m : Match} (found : p.searchFrom place = some m) :
    ∃ v u s, place.rest = v ++ u ∧ s ∈ p.ways ⟨place.beyond v u, []⟩ ∧ m = ⟨place.beyond v u, s.place, s.captures⟩ := by
  obtain ⟨v, u, cut, here⟩ := matchAt?_of_searchFrom found
  rw [matchAt?_eq, Option.map_eq_some_iff] at here
  obtain ⟨s, first, same⟩ := here
  exact ⟨v, u, s, cut, List.mem_of_mem_head? first, same.symm⟩

theorem occursIn_iff {s : List Char} :
    p.occursIn s = true ↔ ∃ v u, s = v ++ u ∧ p.ways ⟨(Cursor.ofText s).beyond v u, []⟩ ≠ [] :=
  searchFrom_isSome_iff

theorem occursIn_iff_mem {s : List Char} :
    p.occursIn s = true ↔ ∃ v u m, s = v ++ u ∧ m ∈ p.ways ⟨(Cursor.ofText s).beyond v u, []⟩ := by
  rw [occursIn_iff]
  constructor
  · rintro ⟨v, u, cut, some⟩
    obtain ⟨m, way⟩ := List.exists_mem_of_ne_nil _ some
    exact ⟨v, u, m, cut, way⟩
  · rintro ⟨v, u, m, cut, way⟩
    exact ⟨v, u, cut, List.ne_nil_of_mem way⟩

theorem matchesFrom_succ {m : Match} {limit : Nat} (found : p.searchFrom place = some m)
    (moves : m.start.offset < m.stop.offset) :
    p.matchesFrom (limit + 1) place = m :: p.matchesFrom limit m.stop := by
  simp [matchesFrom, found, Match.resume?, moves]

theorem matchesFrom_eq_nil {limit : Nat} (nothing : p.searchFrom place = none) : p.matchesFrom limit place = [] := by
  cases limit with
  | zero => rfl
  | succ limit => simp [matchesFrom, nothing]

end Conformance.Pattern
