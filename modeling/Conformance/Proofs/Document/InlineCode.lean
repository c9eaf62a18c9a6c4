import Conformance.Document.Reference
import Conformance.Proofs.Pattern.Sightings
import Conformance.Proofs.Pattern.Ways
import Conformance.Text.Pieces
import Mathlib.Algebra.Group.Nat.Even

namespace Conformance

open Text Pattern

section Ticks

variable {parts : List Pattern} {place : Cursor} {front u : List Char}

theorem Pattern.matchesAhead_tick (free : '`' ∉ front) (ahead : place.rest = front ++ u) :
    (chain (text "`" :: parts)).matchesAhead place = (chain (text "`" :: parts)).matchesAhead (place.beyond front u) := by
  induction front generalizing place with
  | nil => rw [Cursor.beyond_nil_of_rest (u := u) ahead]
  | cons c front ih =>
    obtain ⟨other, free⟩ : '`' ≠ c ∧ '`' ∉ front := by simpa using free
    have refused : (chain (text "`" :: parts)).ways ⟨place, []⟩ = [] := by
      refine ways_chain_text_eq_nil fun begins => ?_
      rw [show (Progress.mk place []).place.rest = c :: (front ++ u) from ahead] at begins
      exact other (List.cons_prefix_cons.mp begins).1
    rw [matchesAhead_of_refused rfl ahead refused, Cursor.beyond_cons place c front (front ++ u)]
    exact ih free rfl

theorem Pattern.matchesAhead_of_free (free : '`' ∉ place.rest) : (chain (text "`" :: parts)).matchesAhead place = [] := by
  rw [matchesAhead_tick free (List.append_nil _).symm]
  exact matchesAhead_nil rfl rfl

end Ticks

namespace Document

/-- What the pieces between backticks leave when every second one is taken out with the backticks around it. -/
def outerPieces : List (List Char) → List Char
  | [] => []
  | [last] => last
  | [last, stray] => last ++ '`' :: stray
  | front :: _ :: next :: rest => front ++ outerPieces (next :: rest)

/-- What stands outside of the spans of a line. A backtick that has no other behind it begins none. -/
def uncoded (line : List Char) : List Char :=
  outerPieces (split (· == '`') line)

/-- The place between two parts of a line is outside of the spans: the backticks in front of it are paired, or none
follows. -/
def Outside (front back : List Char) : Prop :=
  Even (front.count '`') ∨ '`' ∉ back

def IsSpan (line code : List Char) : Prop :=
  ∃ front back, line = front ++ '`' :: (code ++ '`' :: back) ∧ Even (front.count '`') ∧ '`' ∉ code

variable {line front back code rest : List Char}

theorem not_tick (free : '`' ∉ front) : ∀ c ∈ front, (c == '`') = false :=
  fun _ member => beq_eq_false_iff_ne.mpr fun same => free (same ▸ member)

theorem uncoded_of_free (free : '`' ∉ front) : uncoded front = front := by
  rw [uncoded, split_of_free (not_tick free)]
  rfl

theorem uncoded_stray (free : '`' ∉ front) (free' : '`' ∉ back) : uncoded (front ++ '`' :: back) = front ++ '`' :: back := by
  rw [uncoded, split_append_stop (by decide), split_of_free (not_tick free), split_of_free (not_tick free')]
  rfl

theorem uncoded_span (free : '`' ∉ front) (free' : '`' ∉ code) (rest : List Char) :
    uncoded (front ++ '`' :: (code ++ '`' :: rest)) = front ++ uncoded rest := by
  obtain ⟨next, others, pieces⟩ := List.exists_cons_of_ne_nil (split_ne_nil (· == '`') rest)
  rw [uncoded, uncoded, split_append_stop (by decide), split_of_free (not_tick free), split_append_stop (by decide),
    split_of_free (not_tick free'), pieces]
  rfl

theorem count_tick_span (free : '`' ∉ front) (free' : '`' ∉ code) (rest : List Char) :
    (front ++ '`' :: (code ++ '`' :: rest)).count '`' = rest.count '`' + 2 := by
  simp [List.count_append, List.count_eq_zero.mpr free, List.count_eq_zero.mpr free']

theorem line_induction {motive : List Char → Prop} (plain : ∀ front, '`' ∉ front → motive front)
    (stray : ∀ front back, '`' ∉ front → '`' ∉ back → motive (front ++ '`' :: back))
    (span : ∀ front code rest, '`' ∉ front → '`' ∉ code → motive rest → motive (front ++ '`' :: (code ++ '`' :: rest)))
    (line : List Char) : motive line := by
  induction size : line.length using Nat.strongRecOn generalizing line with
  | ind n ih =>
    by_cases tick : '`' ∈ line
    · obtain ⟨front, back, rfl, free⟩ := List.eq_append_cons_of_mem tick
      by_cases closing : '`' ∈ back
      · obtain ⟨code, rest, rfl, free'⟩ := List.eq_append_cons_of_mem closing
        refine span front code rest free free' (ih rest.length ?_ rest rfl)
        simp only [← size, List.length_append, List.length_cons]
        omega
      · exact stray front back free closing
    · exact plain line tick

theorem uncoded_of_count_le_one (few : line.count '`' ≤ 1) : uncoded line = line := by
  induction line using line_induction with
  | plain front free => exact uncoded_of_free free
  | stray front back free free' => exact uncoded_stray free free'
  | span front code rest =>
    simp only [List.count_append, List.count_cons_self] at few
    omega

theorem refuses_inside (m : Progress) (goes : Goes (· != '`') m.place.rest) : (chain [text "`"]).ways m = [] :=
  ways_chain_text_of_goes goes ⟨'`', rfl, rfl⟩

theorem ways_inlineCode_eq_nil {place : Cursor} (free : '`' ∉ back) (ahead : place.rest = '`' :: back) :
    inlineCode.ways ⟨place, []⟩ = [] := by
  have inside : ∀ c ∈ back, (c != '`') = true := fun c member => bne_iff_ne.mpr fun same => free (same ▸ member)
  have whole : back = back ++ [] := by simp
  rw [inlineCode, ways_chain_text ahead, ways_chain_most whole inside (by simp [Stops]) refuses_inside]
  exact ways_chain_text_eq_nil (by simp)

theorem ways_inlineCode {place : Cursor} (free : '`' ∉ code) (ahead : place.rest = '`' :: (code ++ '`' :: rest)) :
    inlineCode.ways ⟨place, []⟩ = [⟨place.beyond ('`' :: (code ++ ['`'])) rest, []⟩] := by
  have inside : ∀ c ∈ code, (c != '`') = true := fun c member => bne_iff_ne.mpr fun same => free (same ▸ member)
  rw [inlineCode, ways_chain_text (u := code ++ '`' :: rest) ahead, ways_chain_most rfl inside (by simp) refuses_inside,
    ways_chain_text (u := rest) rfl, ways_chain_nil, Progress.beyond_beyond, Progress.beyond_beyond]
  rfl

/-- Taking the matches of inline code out of a line leaves what stands outside of the spans. -/
theorem leftOver_inlineCode (line : List Char) {place : Cursor} (ahead : place.rest = line) :
    leftOver place (inlineCode.matchesAhead place) = uncoded line := by
  induction line using line_induction generalizing place with
  | plain front free =>
    have none : inlineCode.matchesAhead place = [] := matchesAhead_of_free (by rwa [ahead])
    rw [none, uncoded_of_free free]
    exact ahead
  | stray front back free free' =>
    have first : inlineCode.matchesAhead place = inlineCode.matchesAhead (place.beyond front ('`' :: back)) :=
      matchesAhead_tick free ahead
    have refused : inlineCode.ways ⟨place.beyond front ('`' :: back), []⟩ = [] := ways_inlineCode_eq_nil free' rfl
    have none : inlineCode.matchesAhead place = [] := by
      rw [first, matchesAhead_of_refused rfl rfl refused]
      exact matchesAhead_of_free free'
    rw [none, uncoded_stray free free']
    exact ahead
  | span front code rest free free' ih =>
    have first : inlineCode.matchesAhead place = inlineCode.matchesAhead (place.beyond front ('`' :: (code ++ '`' :: rest))) :=
      matchesAhead_tick free ahead
    have found : inlineCode.ways ⟨place.beyond front ('`' :: (code ++ '`' :: rest)), []⟩ = _ := ways_inlineCode free' rfl
    rw [first, matchesAhead_of_ways rfl found, leftOver, Cursor.textTo_beyond ahead, uncoded_span free free', ih rfl]

theorem removeAll_inlineCode (line : List Char) : inlineCode.removeAll line = uncoded line :=
  leftOver_inlineCode line rfl

/-- A place in what is left of a line, in front of a character that is no backtick, is a place of the line that is outside
of the spans, and cuts what is left as it cuts the line. -/
theorem exists_cut {a b : List Char} {c : Char} (visible : c ≠ '`') (left : uncoded line = a ++ c :: b) :
    ∃ front back, line = front ++ c :: back ∧ uncoded front = a ∧ uncoded back = b ∧ Outside front back := by
  induction line using line_induction generalizing a with
  | plain line free =>
    rw [uncoded_of_free free] at left
    subst left
    simp only [List.mem_append, List.mem_cons, not_or] at free
    exact ⟨a, b, rfl, uncoded_of_free free.1, uncoded_of_free free.2.2, .inr free.2.2⟩
  | stray front back free free' =>
    rw [uncoded_stray free free'] at left
    have few : a.count '`' + b.count '`' ≤ 1 := by
      have total := congrArg (List.count '`') left
      simp only [List.count_append, List.count_cons_self, List.count_cons_of_ne visible, List.count_eq_zero.mpr free,
        List.count_eq_zero.mpr free'] at total
      omega
    refine ⟨a, b, left, uncoded_of_count_le_one (by omega), uncoded_of_count_le_one (by omega), ?_⟩
    by_cases none : '`' ∈ b
    · have some := List.count_pos_iff.mpr none
      have even : a.count '`' = 0 := by omega
      exact .inl (even ▸ Even.zero)
    · exact .inr none
  | span front code rest free free' ih =>
    rw [uncoded_span free free'] at left
    have onward : ∀ a', uncoded rest = a' ++ c :: b → a = front ++ a' →
        ∃ front' back, front ++ '`' :: (code ++ '`' :: rest) = front' ++ c :: back ∧ uncoded front' = a ∧ uncoded back = b ∧
          Outside front' back := by
      rintro a' behind rfl
      obtain ⟨front', back, rfl, left, right, outside⟩ := ih behind
      refine ⟨front ++ '`' :: (code ++ '`' :: front'), back, by simp, by rw [uncoded_span free free', left], right, ?_⟩
      refine outside.imp_left fun even => ?_
      rw [count_tick_span free free']
      exact even.add ⟨1, rfl⟩
    rcases List.append_eq_append_iff.mp left with ⟨a', whole, behind⟩ | ⟨c', whole, behind⟩
    · exact onward a' behind whole
    · cases c' with
      | nil => exact onward [] behind.symm (by simpa using whole.symm)
      | cons d c' =>
        obtain ⟨rfl, rfl⟩ : c = d ∧ b = c' ++ uncoded rest := by simpa using behind
        rw [whole] at free
        simp only [List.mem_append, List.mem_cons, not_or] at free
        refine ⟨a, c' ++ '`' :: (code ++ '`' :: rest), by rw [whole]; simp, uncoded_of_free free.1,
          uncoded_span free.2.2 free' rest, .inl ?_⟩
        rw [List.count_eq_zero.mpr free.1]
        exact Even.zero

end Document

end Conformance
