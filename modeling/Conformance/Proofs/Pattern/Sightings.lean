import Conformance.Proofs.Pattern.LineInFront

namespace Conformance

open Cursor (IsAhead)

namespace Cursor.IsAhead

variable {start stop : Cursor}

theorem length_rest_le (ahead : IsAhead start stop) : stop.rest.length ≤ start.rest.length := by
  obtain ⟨v, u, cut, _, rfl⟩ := ahead
  rw [cut, List.length_append]
  exact Nat.le_add_left _ _

theorem offset_lt (ahead : IsAhead start stop) (shorter : stop.rest.length < start.rest.length) :
    start.offset < stop.offset := by
  obtain ⟨v, u, cut, _, rfl⟩ := ahead
  cases v with
  | nil => simp [cut] at shorter
  | cons c v =>
    have positive := c.utf8Size_pos
    simp only [beyond, Text.byteLength_cons]
    omega

theorem offset_add_byteLength (ahead : IsAhead start stop) :
    stop.offset + Text.byteLength stop.rest = start.offset + Text.byteLength start.rest := by
  obtain ⟨v, u, cut, _, rfl⟩ := ahead
  simp only [beyond, cut, Text.byteLength_append]
  omega

theorem getLast?_or (ahead : IsAhead start stop) :
    stop.rest.getLast?.or stop.before = start.rest.getLast?.or start.before := by
  obtain ⟨v, u, cut, _, rfl⟩ := ahead
  simp [beyond, cut, List.getLast?_append, Option.or_assoc]

theorem feed_mem {text : List Char} {place : Cursor} (ahead : IsAhead (.ofText text) place)
    (ends : EndsLine text.getLast?) (goesOn : place.rest ≠ []) : '\n' ∈ place.rest := by
  have last := ahead.getLast?_or
  rw [List.getLast?_eq_some_getLast goesOn, Option.some_or] at last
  have feed : place.rest.getLast goesOn = '\n' := ends _ (by simpa [Cursor.ofText] using last.symm)
  exact feed ▸ List.getLast_mem goesOn

end Cursor.IsAhead

namespace Pattern

def passesSome : Pattern → Bool
  | char _ => true
  | seq first second => first.passesSome || second.passesSome
  | either preferred other => preferred.passesSome && other.passesSome
  | group _ body => body.passesSome
  | empty | many _ | most _ | fewest _ | wordBorder | textStart | textEnd | lineStart => false

variable {p : Pattern} {place : Cursor} {number : Nat}

theorem length_rest_lt_of_mem_ways {s t : Progress} (passes : p.passesSome = true) (member : t ∈ p.ways s) :
    t.place.rest.length < s.place.rest.length := by
  induction p generalizing s t with
  | char accepts =>
    rw [ways] at member
    split at member
    · cases member
    · rename_i c rest ahead
      split at member
      · obtain rfl := List.mem_singleton.mp member
        simp [Progress.moveTo, Cursor.past, ahead]
      · cases member
  | seq first second ih₁ ih₂ =>
    rw [ways, List.mem_flatMap] at member
    obtain ⟨m, inner, member⟩ := member
    have before := (isAhead_of_mem_ways inner).length_rest_le
    have behind := (isAhead_of_mem_ways member).length_rest_le
    rcases Bool.or_eq_true_iff.mp passes with own | own
    · have := ih₁ own inner
      omega
    · have := ih₂ own member
      omega
  | either preferred other ih₁ ih₂ =>
    obtain ⟨own, own'⟩ := Bool.and_eq_true_iff.mp passes
    rw [ways, List.mem_append] at member
    exact member.elim (ih₁ own) (ih₂ own')
  | group number body ih =>
    rw [ways, List.mem_map] at member
    obtain ⟨m, inner, rfl⟩ := member
    have shorter : m.place.rest.length < s.place.rest.length := ih passes inner
    exact shorter
  | empty | many | most | fewest | wordBorder | textStart | textEnd | lineStart => cases passes

theorem ways_eq_nil_of_rest {s : Progress} (passes : p.passesSome = true) (ended : s.place.rest = []) : p.ways s = [] := by
  refine List.eq_nil_iff_forall_not_mem.mpr fun t member => ?_
  have shorter := length_rest_lt_of_mem_ways passes member
  simp [ended] at shorter

theorem stop_of_searchFrom {m : Match} (passes : p.passesSome = true) (found : p.searchFrom place = some m) :
    m.start.offset < m.stop.offset ∧ m.stop.rest.length < place.rest.length := by
  obtain ⟨ahead, t, member, stop, _⟩ := follows_of_searchFrom found
  have shorter := length_rest_lt_of_mem_ways passes member
  have further := isAhead_of_mem_ways member
  rw [stop] at shorter further
  exact ⟨further.offset_lt shorter, Nat.lt_of_lt_of_le shorter ahead.length_rest_le⟩

theorem matchesFrom_enough (passes : p.passesSome = true) {limit limit' : Nat} (enough : place.rest.length < limit)
    (enough' : place.rest.length < limit') : p.matchesFrom limit place = p.matchesFrom limit' place := by
  induction limit generalizing place limit' with
  | zero => cases enough
  | succ limit ih =>
    obtain ⟨limit', rfl⟩ : ∃ n, limit' = n + 1 := ⟨limit' - 1, by omega⟩
    cases found : p.searchFrom place with
    | none => rw [matchesFrom_eq_nil found, matchesFrom_eq_nil found]
    | some m =>
      obtain ⟨moves, shorter⟩ := stop_of_searchFrom passes found
      rw [matchesFrom_succ found moves, matchesFrom_succ found moves]
      exact congrArg (m :: ·) (ih (by omega) (by omega))

/-- The matches of a pattern that passes characters begin strictly one behind the other. -/
theorem pairwise_lt_matchesFrom (passes : p.passesSome = true) (limit : Nat) (place : Cursor) :
    (p.matchesFrom limit place).Pairwise fun a b => a.start.offset < b.start.offset := by
  induction limit generalizing place with
  | zero => exact .nil
  | succ limit ih =>
    cases found : p.searchFrom place with
    | none =>
      rw [matchesFrom_eq_nil found]
      exact .nil
    | some m =>
      obtain ⟨moves, _⟩ := stop_of_searchFrom passes found
      rw [matchesFrom_succ found moves]
      apply List.pairwise_cons.mpr
      refine ⟨?_, ih m.stop⟩
      intro later member
      have behind := (follows_of_mem_matchesFrom member).ahead.offset_le
      exact Nat.lt_of_lt_of_le moves behind

def matchesAhead (p : Pattern) (place : Cursor) : List Match :=
  p.matchesFrom (place.rest.length + 1) place

theorem findAll_eq (p : Pattern) (s : List Char) : p.findAll s = p.matchesAhead (.ofText s) := rfl

theorem matchesAhead_nil (passes : p.passesSome = true) (ended : place.rest = []) : p.matchesAhead place = [] := by
  have none : p.searchFrom place = none := by
    rw [searchFrom_nil ended]
    exact matchAt?_eq_none_iff.mpr (ways_eq_nil_of_rest passes ended)
  rw [matchesAhead, matchesFrom_eq_nil none]

theorem matchesAhead_of_refused {c : Char} {u : List Char} (passes : p.passesSome = true) (ahead : place.rest = c :: u)
    (refused : p.ways ⟨place, []⟩ = []) : p.matchesAhead place = p.matchesAhead (place.past c u) := by
  have same : ∀ limit, p.matchesFrom limit place = p.matchesFrom limit (place.past c u) := by
    intro limit
    cases limit with
    | zero => rfl
    | succ limit => rw [matchesFrom, matchesFrom, searchFrom_cons ahead refused]
  have room : (place.past c u).rest.length < place.rest.length + 1 := by
    simp only [ahead, Cursor.past, List.length_cons]
    omega
  rw [matchesAhead, matchesAhead, same, matchesFrom_enough passes room (Nat.lt_succ_self _)]

theorem matchesAhead_of_ways {t : Progress} {more : List Progress} (passes : p.passesSome = true)
    (found : p.ways ⟨place, []⟩ = t :: more) :
    p.matchesAhead place = ⟨place, t.place, t.captures⟩ :: p.matchesAhead t.place := by
  have first : p.searchFrom place = some ⟨place, t.place, t.captures⟩ :=
    searchFrom_of_matchAt? (matchAt?_of_ways found)
  obtain ⟨moves, shorter⟩ := stop_of_searchFrom passes first
  rw [matchesAhead, matchesFrom_succ first moves, matchesFrom_enough passes shorter (Nat.lt_succ_self _)]
  rfl

/-- Behind a text that ends a line, the matches are those at the start of a text, as many bytes further on. -/
theorem matchesAhead_move (n : Nat) {last : Option Char} (passes : p.passesSome = true) (free : p.asksForStart = false)
    (ends : EndsLine last) : p.matchesAhead (place.move n last) = (p.matchesAhead place).map (Match.move n last) := by
  induction room : place.rest.length using Nat.strongRecOn generalizing place with
  | ind room_ ih =>
    have moved : p.ways ⟨place.move n last, []⟩ = _ := ways_move (s := ⟨place, []⟩) n ends free
    cases found : p.ways ⟨place, []⟩ with
    | nil =>
      rw [found] at moved
      cases ahead : place.rest with
      | nil => rw [matchesAhead_nil passes ahead, matchesAhead_nil passes (by simpa using ahead), List.map_nil]
      | cons c u =>
        have onward : (place.move n last).past c u = (place.past c u).move n last := by
          simp [Cursor.past, Cursor.move, Nat.add_assoc]
        rw [matchesAhead_of_refused passes ahead found, matchesAhead_of_refused passes (by simpa using ahead) moved, onward]
        refine ih u.length ?_ rfl
        simp [← room, ahead]
    | cons t more =>
      rw [found, List.map_cons] at moved
      have shorter := length_rest_lt_of_mem_ways (s := ⟨place, []⟩) (t := t) passes (by simp [found])
      rw [matchesAhead_of_ways passes found, matchesAhead_of_ways passes moved, List.map_cons]
      exact congrArg (_ :: ·) (ih _ (room ▸ shorter) rfl)

def Match.extend (more : List Char) (m : Match) : Match :=
  ⟨m.start.extend more, m.stop.extend more, m.captures.map (Capture.extend more)⟩

theorem Match.group?_extend (number : Nat) (more : List Char) (m : Match) :
    (m.extend more).group? number = m.group? number :=
  Progress.kept?_extend number more ⟨m.stop, m.captures⟩

def Independent (p : Pattern) (more : List Char) (place : Cursor) : Prop :=
  ∀ later, IsAhead place later → later.rest ≠ [] → p.dependsOn more ⟨later, []⟩ = false

theorem Independent.later {more : List Char} {later : Cursor} (own : p.Independent more place)
    (ahead : IsAhead place later) : p.Independent more later :=
  fun further behind => own further (ahead.trans behind)

/-- The matches in a text are those in its first part and those in its second, if none that begins in the first
depends on the second. -/
theorem matchesAhead_extend {more : List Char} (passes : p.passesSome = true) (free : p.asksForStart = false)
    (own : p.Independent more place) (ends : EndsLine (place.rest.getLast?.or place.before)) :
    p.matchesAhead (place.extend more) = (p.matchesAhead place).map (Match.extend more) ++
      (p.matchesAhead (.ofText more)).map
        (Match.move (place.offset + Text.byteLength place.rest) (place.rest.getLast?.or place.before)) := by
  induction room : place.rest.length using Nat.strongRecOn generalizing place with
  | ind room_ ih =>
    cases ahead : place.rest with
    | nil =>
      have moved : place.extend more = (Cursor.ofText more).move place.offset place.before := by
        simp [Cursor.extend, Cursor.move, Cursor.ofText, ahead]
      rw [matchesAhead_nil passes ahead, moved, matchesAhead_move place.offset passes free (by simpa [ahead] using ends)]
      rfl
    | cons c u =>
      have extended : p.ways ⟨place.extend more, []⟩ = _ :=
        ways_goingOn (s := ⟨place, []⟩) (own place (.refl place) (by simp [ahead]))
      rw [← ahead]
      cases found : p.ways ⟨place, []⟩ with
      | nil =>
        rw [found] at extended
        have passed : IsAhead place (place.past c u) := .past ahead trivial
        have further : (place.extend more).rest = c :: (u ++ more) := by simp [ahead]
        have onward : (place.extend more).past c (u ++ more) = (place.past c u).extend more := rfl
        rw [matchesAhead_of_refused passes ahead found, matchesAhead_of_refused passes further extended, onward,
          ← passed.offset_add_byteLength, ← passed.getLast?_or]
        refine ih u.length ?_ (own.later passed) (passed.getLast?_or ▸ ends) rfl
        simp [← room, ahead]
      | cons t others =>
        rw [found, List.map_cons] at extended
        have member : t ∈ p.ways ⟨place, []⟩ := by simp [found]
        have shorter := length_rest_lt_of_mem_ways passes member
        have passed : IsAhead place t.place := isAhead_of_mem_ways member
        rw [matchesAhead_of_ways passes found, matchesAhead_of_ways passes extended, List.map_cons, List.cons_append,
          ← passed.offset_add_byteLength, ← passed.getLast?_or]
        exact congrArg (_ :: ·) (ih _ (room ▸ shorter) (own.later passed) (passed.getLast?_or ▸ ends) rfl)

theorem findAll_append {s more : List Char} (passes : p.passesSome = true) (free : p.asksForStart = false)
    (own : p.Independent more (.ofText s)) (ends : EndsLine s.getLast?) : p.findAll (s ++ more) =
      (p.findAll s).map (Match.extend more) ++ (p.findAll more).map (Match.move (Text.byteLength s) s.getLast?) := by
  have parts := matchesAhead_extend passes free own (by simpa [Cursor.ofText] using ends)
  simpa [findAll_eq, Cursor.ofText, Cursor.extend] using parts

theorem occursIn_eq (p : Pattern) (s : List Char) : p.occursIn s = !(p.findAll s).isEmpty := by
  rw [occursIn, find?, findAll, matchesFrom]
  cases p.searchFrom (.ofText s) <;> rfl

theorem occursIn_append {s more : List Char} (passes : p.passesSome = true) (free : p.asksForStart = false)
    (own : p.Independent more (.ofText s)) (ends : EndsLine s.getLast?) :
    p.occursIn (s ++ more) = (p.occursIn s || p.occursIn more) := by
  rw [occursIn_eq, occursIn_eq, occursIn_eq, findAll_append passes free own ends]
  cases p.findAll s <;> simp

def sightings (number : Nat) (p : Pattern) (place : Cursor) : List (Nat × Option (List Char)) :=
  (p.matchesFrom (place.rest.length + 1) place).map fun m => (m.start.offset, m.group? number)

theorem sightings_eq (number : Nat) (p : Pattern) (place : Cursor) :
    sightings number p place = (p.matchesAhead place).map fun m => (m.start.offset, m.group? number) := rfl

theorem sightings_nil (passes : p.passesSome = true) (ended : place.rest = []) : sightings number p place = [] := by
  rw [sightings_eq, matchesAhead_nil passes ended, List.map_nil]

theorem sightings_of_refused (number : Nat) {c : Char} {u : List Char} (passes : p.passesSome = true) (ahead : place.rest = c :: u)
    (refused : p.ways ⟨place, []⟩ = []) : sightings number p place = sightings number p (place.past c u) := by
  rw [sightings_eq, sightings_eq, matchesAhead_of_refused passes ahead refused]

theorem sightings_of_ways (number : Nat) {t : Progress} {more : List Progress} (passes : p.passesSome = true)
    (found : p.ways ⟨place, []⟩ = t :: more) :
    sightings number p place = (place.offset, t.kept? number) :: sightings number p t.place := by
  rw [sightings_eq, sightings_eq, matchesAhead_of_ways passes found, List.map_cons]
  rfl

theorem sightings_move (n : Nat) {last : Option Char} (passes : p.passesSome = true) (free : p.asksForStart = false)
    (ends : EndsLine last) :
    sightings number p (place.move n last) = (sightings number p place).map fun x => (n + x.1, x.2) := by
  rw [sightings_eq, sightings_eq, matchesAhead_move n passes free ends, List.map_map, List.map_map]
  apply List.map_congr_left
  intro m _
  exact Prod.ext rfl (Match.group?_move number n last m)

def settled (p : Pattern) (offset : Nat) (before : Option Char) : List Char → Bool
  | [] => true
  | c :: rest =>
    !p.looksBeyond ⟨⟨offset, before, c :: rest⟩, []⟩ && p.settled (offset + c.utf8Size) (some c) rest

def SettledFrom (p : Pattern) (place : Cursor) : Prop :=
  p.settled place.offset place.before place.rest = true

/-- The pattern looks beyond the end of the text at no place of it: whether it matches there does not depend on what
follows the text. -/
def Settled (p : Pattern) (s : List Char) : Prop :=
  p.SettledFrom (.ofText s)

instance (p : Pattern) (s : List Char) : Decidable (p.Settled s) :=
  inferInstanceAs (Decidable (_ = true))

theorem settledFrom_cons {c : Char} {u : List Char} (ahead : place.rest = c :: u) :
    p.SettledFrom place ↔ p.looksBeyond ⟨place, []⟩ = false ∧ p.SettledFrom (place.past c u) := by
  obtain ⟨offset, before, rest⟩ := place
  subst ahead
  simp [SettledFrom, settled, Cursor.past]

theorem SettledFrom.later {later : Cursor} (settled : p.SettledFrom place) (ahead : IsAhead place later) :
    p.SettledFrom later := by
  obtain ⟨v, u, cut, _, rfl⟩ := ahead
  induction v generalizing place with
  | nil => rwa [Cursor.beyond_nil_of_rest (u := u) cut]
  | cons c v ih =>
    rw [Cursor.beyond_cons place c v (v ++ u)]
    exact ih ((settledFrom_cons cut).mp settled).2 rfl fun _ _ => trivial

theorem SettledFrom.looksBeyond (settled : p.SettledFrom place) (goesOn : place.rest ≠ []) :
    p.looksBeyond ⟨place, []⟩ = false := by
  obtain ⟨c, u, ahead⟩ := List.exists_cons_of_ne_nil goesOn
  exact ((settledFrom_cons ahead).mp settled).1

theorem SettledFrom.independent (settled : p.SettledFrom place) (more : List Char) : p.Independent more place :=
  fun _ ahead goesOn => dependsOn_of_looksBeyond more ((settled.later ahead).looksBeyond goesOn)

theorem sightings_extend (more : List Char) (passes : p.passesSome = true) (free : p.asksForStart = false)
    (settled : p.SettledFrom place) (ends : EndsLine (place.rest.getLast?.or place.before)) :
    sightings number p (place.extend more) = sightings number p place ++
      (sightings number p (.ofText more)).map fun x => (place.offset + Text.byteLength place.rest + x.1, x.2) := by
  rw [sightings_eq, matchesAhead_extend passes free (settled.independent more) ends, List.map_append, List.map_map, List.map_map,
    sightings_eq, sightings_eq, List.map_map]
  apply congrArg₂ (· ++ ·)
  · apply List.map_congr_left
    intro m _
    exact Prod.ext rfl (Match.group?_extend number more m)
  · apply List.map_congr_left
    intro m _
    exact Prod.ext rfl (Match.group?_move number _ _ m)

theorem offset_lt_of_mem_sightings {x : Nat × Option (List Char)} (passes : p.passesSome = true)
    (member : x ∈ sightings number p place) : x.1 < place.offset + Text.byteLength place.rest := by
  obtain ⟨m, found, rfl⟩ := List.mem_map.mp member
  have follows := follows_of_mem_matchesFrom found
  obtain ⟨t, way, _, _⟩ := follows.way
  have shorter := length_rest_lt_of_mem_ways passes way
  have moves := (isAhead_of_mem_ways way).offset_lt shorter
  have total := (isAhead_of_mem_ways way).offset_add_byteLength
  have total' := follows.ahead.offset_add_byteLength
  dsimp only at moves total ⊢
  omega

theorem start_lt_of_mem_findAll {s : List Char} {m : Match} (passes : p.passesSome = true) (member : m ∈ p.findAll s) :
    m.start.offset < Text.byteLength s := by
  have seen : (m.start.offset, m.group? 0) ∈ sightings 0 p (.ofText s) := List.mem_map.mpr ⟨m, member, rfl⟩
  simpa [Cursor.ofText] using offset_lt_of_mem_sightings passes seen

section Piece

variable {α : Type} {start size : Nat} {x : Nat × α} {xs ys zs : List (Nat × α)}

def outsidePiece (start size : Nat) (x : Nat × α) : Bool :=
  x.1 < start || start + size ≤ x.1

def behindPiece (start size : Nat) (x : Nat × α) : Nat × α :=
  (if x.1 < start then x.1 else size + x.1, x.2)

def WithPiece (start size : Nat) (xs ys : List (Nat × α)) : Prop :=
  xs.filter (outsidePiece start size) = ys.map (behindPiece start size)

theorem WithPiece.cons (before : x.1 < start) (rest : WithPiece start size xs ys) :
    WithPiece start size (x :: xs) (x :: ys) := by
  have outside : outsidePiece start size x = true := by simp [outsidePiece, before]
  have same : behindPiece start size x = x := by simp [behindPiece, before]
  rw [WithPiece, List.filter_cons_of_pos outside, List.map_cons, same, rest]

theorem WithPiece.append_before (before : ∀ x ∈ zs, x.1 < start) (rest : WithPiece start size xs ys) :
    WithPiece start size (zs ++ xs) (zs ++ ys) := by
  induction zs with
  | nil => exact rest
  | cons x zs ih => exact .cons (before x (by simp)) (ih fun y member => before y (List.mem_cons_of_mem _ member))

theorem withPiece_behind (start size : Nat) (zs : List (Nat × α)) :
    WithPiece start size (zs.map fun x => (start + size + x.1, x.2)) (zs.map fun x => (start + x.1, x.2)) := by
  rw [WithPiece, List.filter_eq_self.mpr, List.map_map]
  · refine List.map_congr_left fun x _ => ?_
    have below : ¬ start + x.1 < start := by omega
    simp only [Function.comp, behindPiece, if_neg below, Prod.mk.injEq, and_true]
    omega
  · intro y member
    obtain ⟨x, _, rfl⟩ := List.mem_map.mp member
    simp [outsidePiece]

theorem WithPiece.append (own : ∀ x ∈ xs, start ≤ x.1 ∧ x.1 < start + size) (rest : WithPiece start size ys zs) :
    WithPiece start size (xs ++ ys) zs := by
  have inside : xs.filter (outsidePiece start size) = [] := by
    rw [List.filter_eq_nil_iff]
    intro x member
    have bounds := own x member
    simp [outsidePiece]
    omega
  rw [WithPiece, List.filter_append, inside, List.nil_append, rest]

end Piece

/-- The ways that begin above a border are the same whether or not a piece is put in at the border: they end above
the border, or they pass the piece and end below. -/
def Carries (p : Pattern) (above piece below : List Char) : Prop :=
  ∀ v u, above = v ++ u → u ≠ [] → ∃ crossing : List Progress,
    p.ways ⟨((Cursor.ofText above).beyond v u).extend below, []⟩ =
        (p.ways ⟨(Cursor.ofText above).beyond v u, []⟩).map (Progress.extend below) ++
          crossing.map (Progress.move (Text.byteLength above) above.getLast?) ∧
      p.ways ⟨((Cursor.ofText above).beyond v u).extend (piece ++ below), []⟩ =
        (p.ways ⟨(Cursor.ofText above).beyond v u, []⟩).map (Progress.extend (piece ++ below)) ++
          crossing.map (Progress.move (Text.byteLength above + Text.byteLength piece) (some '\n'))

theorem Settled.carries {above : List Char} (settled : p.Settled above) (piece below : List Char) :
    p.Carries above piece below := by
  intro v u cut goesOn
  have passed : IsAhead (.ofText above) ((Cursor.ofText above).beyond v u) := ⟨v, u, cut, fun _ _ => trivial, rfl⟩
  have own := (SettledFrom.later settled passed).looksBeyond goesOn
  exact ⟨[], (ways_extend below own).trans (List.append_nil _).symm,
    (ways_extend (piece ++ below) own).trans (List.append_nil _).symm⟩

section Inserted

variable {above piece below : List Char}

theorem extend_beyond (more : List Char) :
    ((Cursor.ofText above).beyond above []).extend more = (Cursor.ofText more).move (Text.byteLength above) above.getLast? := by
  simp [Cursor.extend, Cursor.beyond, Cursor.move, Cursor.ofText]

/-- At the border the piece adds its own matches and moves those below it. -/
theorem withPiece_at_border (passes : p.passesSome = true) (free : p.asksForStart = false)
    (ends : EndsLine above.getLast?) (ends' : EndsLine piece.getLast?) (settled : p.Settled piece) :
    WithPiece (Text.byteLength above) (Text.byteLength piece)
      (sightings number p (((Cursor.ofText above).beyond above []).extend (piece ++ below)))
      (sightings number p (((Cursor.ofText above).beyond above []).extend below)) := by
  have parts : sightings number p (.ofText (piece ++ below)) = _ :=
    sightings_extend (p := p) below passes free settled (by simpa [Cursor.ofText] using ends')
  rw [extend_beyond, extend_beyond, sightings_move _ passes free ends, sightings_move _ passes free ends, parts,
    List.map_append]
  refine .append ?_ ?_
  · intro y member
    obtain ⟨x, found, rfl⟩ := List.mem_map.mp member
    have bound := offset_lt_of_mem_sightings passes found
    simp only [Cursor.ofText, Nat.zero_add] at bound
    exact ⟨Nat.le_add_right _ _, Nat.add_lt_add_left bound _⟩
  · have further := withPiece_behind (Text.byteLength above) (Text.byteLength piece) (sightings number p (.ofText below))
    rw [List.map_map]
    simpa [Function.comp_def, Cursor.ofText, Nat.add_assoc] using further

theorem sightings_beyond_refused (number : Nat) (passes : p.passesSome = true) {v u more : List Char} {c : Char}
    (refused : p.ways ⟨((Cursor.ofText above).beyond v (c :: u)).extend more, []⟩ = []) :
    sightings number p (((Cursor.ofText above).beyond v (c :: u)).extend more) =
      sightings number p (((Cursor.ofText above).beyond (v ++ [c]) u).extend more) := by
  rw [sightings_of_refused number (u := u ++ more) passes rfl refused]
  simp [Cursor.past_eq_beyond, Cursor.beyond, Cursor.extend, Nat.add_assoc]

theorem sightings_beyond_ways (number : Nat) (passes : p.passesSome = true) {v u v' u' more : List Char} {t : Progress}
    {others : List Progress} (stop : t.place = ((Cursor.ofText above).beyond v u).beyond v' u')
    (found : p.ways ⟨((Cursor.ofText above).beyond v u).extend more, []⟩ = t.extend more :: others) :
    sightings number p (((Cursor.ofText above).beyond v u).extend more) =
      (((Cursor.ofText above).beyond v u).offset, t.kept? number) ::
        sightings number p (((Cursor.ofText above).beyond (v ++ v') u').extend more) := by
  rw [sightings_of_ways number passes found, Progress.kept?_extend, Progress.extend_place, stop, Cursor.beyond_beyond]
  rfl

/-- A step of the search above the border: it comes to a later place above, or its match ends below. -/
theorem sightings_step (number : Nat) (passes : p.passesSome = true) (free : p.asksForStart = false)
    (ends : EndsLine above.getLast?) (carries : p.Carries above piece below) {v u : List Char} (cut : above = v ++ u)
    (goesOn : u ≠ []) :
    (∃ v' u' first, above = v' ++ u' ∧ u'.length < u.length ∧ (∀ x ∈ first, x.1 < Text.byteLength above) ∧
      ∀ more ∈ [below, piece ++ below], sightings number p (((Cursor.ofText above).beyond v u).extend more) =
        first ++ sightings number p (((Cursor.ofText above).beyond v' u').extend more)) ∨
    ∃ (x : Nat × Option (List Char)) (later : List (Nat × Option (List Char))), x.1 < Text.byteLength above ∧
      sightings number p (((Cursor.ofText above).beyond v u).extend below) =
        x :: later.map (fun y => (Text.byteLength above + y.1, y.2)) ∧
      sightings number p (((Cursor.ofText above).beyond v u).extend (piece ++ below)) =
        x :: later.map (fun y => (Text.byteLength above + Text.byteLength piece + y.1, y.2)) := by
  obtain ⟨crossing, ways, ways'⟩ := carries v u cut goesOn
  obtain ⟨c, u, rfl⟩ := List.exists_cons_of_ne_nil goesOn
  have before : ((Cursor.ofText above).beyond v (c :: u)).offset < Text.byteLength above := by
    have positive := c.utf8Size_pos
    rw [cut]
    simp only [Cursor.beyond, Cursor.ofText, Text.byteLength_append, Text.byteLength_cons]
    omega
  cases inner : p.ways ⟨(Cursor.ofText above).beyond v (c :: u), []⟩ with
  | nil =>
    rw [inner] at ways ways'
    cases crossing with
    | nil =>
      -- nothing begins here, with or without the piece
      refine Or.inl ⟨v ++ [c], u, [], by simp [cut], by simp, by simp, ?_⟩
      simpa using And.intro (sightings_beyond_refused number passes ways) (sightings_beyond_refused number passes ways')
    | cons w others =>
      refine Or.inr ⟨(_, w.kept? number), sightings number p w.place, before, ?_, ?_⟩
      · rw [sightings_of_ways number passes ways, Progress.kept?_move, Progress.move_place,
          sightings_move _ passes free ends, Cursor.extend_offset]
      · rw [sightings_of_ways number passes ways', Progress.kept?_move, Progress.move_place,
          sightings_move _ passes free (by simp [EndsLine]), Cursor.extend_offset]
  | cons t others =>
    -- the match ends above the border
    rw [inner] at ways ways'
    have member : t ∈ p.ways ⟨(Cursor.ofText above).beyond v (c :: u), []⟩ := by simp [inner]
    have shorter := length_rest_lt_of_mem_ways passes member
    obtain ⟨v', u', cut', _, stop⟩ := isAhead_of_mem_ways member
    have spelled : c :: u = v' ++ u' := cut'
    rw [stop] at shorter
    refine Or.inl ⟨v ++ v', u', [(_, t.kept? number)], by rw [cut, spelled, List.append_assoc], shorter,
      by simpa using before, ?_⟩
    simpa using And.intro (sightings_beyond_ways number passes stop ways) (sightings_beyond_ways number passes stop ways')

/-- A piece put in between two parts of a text adds its own matches and moves those behind it. -/
theorem withPiece_inserted (number : Nat) (passes : p.passesSome = true) (free : p.asksForStart = false)
    (ends : EndsLine above.getLast?) (ends' : EndsLine piece.getLast?) (settled : p.Settled piece)
    (carries : p.Carries above piece below) : WithPiece (Text.byteLength above) (Text.byteLength piece)
      (sightings number p (.ofText (above ++ (piece ++ below)))) (sightings number p (.ofText (above ++ below))) := by
  suffices onward : ∀ v u, above = v ++ u → WithPiece (Text.byteLength above) (Text.byteLength piece)
      (sightings number p (((Cursor.ofText above).beyond v u).extend (piece ++ below)))
      (sightings number p (((Cursor.ofText above).beyond v u).extend below)) from onward [] above rfl
  intro v u cut
  induction room : u.length using Nat.strongRecOn generalizing v u with
  | ind room_ ih =>
    cases u with
    | nil =>
      obtain rfl : above = v := by simpa using cut
      exact withPiece_at_border passes free ends ends' settled
    | cons c u =>
      rcases sightings_step number passes free ends carries cut (by simp) with
        ⟨v', u', first, cut', shorter, before, onward⟩ | ⟨x, later, before, own, own'⟩
      · rw [onward below (by simp), onward (piece ++ below) (by simp)]
        exact .append_before before (ih u'.length (room ▸ shorter) v' u' cut' rfl)
      · rw [own, own']
        exact .cons before (withPiece_behind _ _ _)

end Inserted

end Pattern

end Conformance
