import Conformance.Proofs.Pattern.Members
import Conformance.Proofs.Pattern.Sightings
import Conformance.Source.Import

namespace Conformance

namespace Source.Import

open Pattern
open Cursor (IsAhead Leads beyond_cons beyond_nil_of_rest)

def clauseWord : Pattern :=
  .chain [.wordBorder, .anyOf "import" ["export"], .wordBorder]

def inClause (c : Char) : Bool :=
  Pattern.outside ";'\"`=()" c

def clauseEnd : Pattern :=
  .chain [.wordBorder, .text "from", .blanks, .quoted 1]

def clauseBody : Pattern :=
  .seq (.fewest inClause) clauseEnd

theorem fromClause_ways (s : Progress) : fromClause.ways s = (clauseWord.ways s).flatMap clauseBody.ways := by
  have parts : clauseWord.ways s = (wordBorder.ways s).flatMap fun t =>
      ((anyOf "import" ["export"]).ways t).flatMap fun t => (wordBorder.ways t).flatMap fun t => [t] := rfl
  have whole : fromClause.ways s = (wordBorder.ways s).flatMap fun t =>
      ((anyOf "import" ["export"]).ways t).flatMap fun t => (wordBorder.ways t).flatMap clauseBody.ways := rfl
  rw [parts, whole]
  simp only [List.flatMap_assoc, List.flatMap_singleton]

section Body

variable {s : Progress} {place : Cursor} {c : Char} {u : List Char}

theorem passesSome_clauseEnd : clauseEnd.passesSome = true := by
  decide

theorem clauseBody_ways_nil (ended : s.place.rest = []) : clauseBody.ways s = [] := by
  have one : (fewest inClause).ways s = [s] := by
    change (Cursor.run inClause s.place).map s.moveTo = [s]
    rw [Cursor.run_nil ended]
    rfl
  rw [clauseBody, ways_seq, one, List.flatMap_singleton, ways_eq_nil_of_rest passesSome_clauseEnd ended]

theorem clauseBody_ways_cons (ahead : s.place.rest = c :: u) : clauseBody.ways s =
    clauseEnd.ways s ++ if inClause c then clauseBody.ways (s.moveTo (s.place.past c u)) else [] := by
  have places : (fewest inClause).ways s =
      s :: if inClause c then (fewest inClause).ways (s.moveTo (s.place.past c u)) else [] := by
    change (Cursor.run inClause s.place).map s.moveTo = _
    rw [Cursor.run_cons ahead, List.map_cons]
    split <;> rfl
  rw [clauseBody, ways_seq, places, List.flatMap_cons]
  split <;> rfl

/-- What follows the word of a clause ends in a text, or it can pass the text and ends behind it. -/
theorem clauseBody_ways_extend (more : List Char) (settled : clauseEnd.SettledFrom place) :
    clauseBody.ways ⟨place.extend more, []⟩ = (clauseBody.ways ⟨place, []⟩).map (Progress.extend more) ++
      if place.rest.all inClause then clauseBody.ways ⟨(place.beyond place.rest []).extend more, []⟩ else [] := by
  induction ahead : place.rest generalizing place with
  | nil =>
    have ended : (⟨place, []⟩ : Progress).place.rest = [] := ahead
    rw [clauseBody_ways_nil ended, beyond_nil_of_rest ahead]
    rfl
  | cons c u ih =>
    obtain ⟨own, later⟩ := (settledFrom_cons ahead).mp settled
    have first : (⟨place, []⟩ : Progress).place.rest = c :: u := ahead
    have first' : (⟨place.extend more, []⟩ : Progress).place.rest = c :: (u ++ more) := by simp [ahead]
    have ends : clauseEnd.ways ⟨place.extend more, []⟩ = _ := ways_extend (s := ⟨place, []⟩) more own
    rw [clauseBody_ways_cons first, clauseBody_ways_cons first', ends, List.map_append, List.append_assoc,
      List.append_right_inj]
    by_cases passes : inClause c = true
    · have onward := ih later rfl
      rw [if_pos passes, if_pos passes, List.all_cons, passes, Bool.true_and, beyond_cons place c u u]
      exact onward
    · rw [if_neg passes, if_neg passes]
      simp [passes]

theorem quote_of_mem_clauseBody {m : Progress} (member : m ∈ clauseBody.ways s) :
    ∃ c ∈ s.place.rest, inClause c = false := by
  simp only [clauseBody, clauseEnd, blanks, mem_ways_seq, mem_ways_chain_cons, mem_ways_chain_nil, mem_ways_fewest,
    mem_ways_wordBorder, mem_ways_text, mem_ways_most, mem_ways_quoted] at member
  obtain ⟨_, ⟨v, r₁, ahead, _, rfl⟩, _, ⟨_, rfl⟩, _, ⟨r₂, cut₁, rfl⟩, _, ⟨z, r₃, cut₂, _, rfl⟩, _,
    ⟨a, w, b, r₄, cut₃, isMark, _⟩, _⟩ := member
  simp only [Progress.beyond_place, Cursor.beyond_rest] at cut₁ cut₂ cut₃
  refine ⟨a, by simp [ahead, cut₁, cut₂, cut₃], ?_⟩
  have marks : a = '\'' ∨ a = '"' := by simpa [among] using isMark
  rcases marks with rfl | rfl <;> decide

end Body

section Word

variable {place : Cursor}

theorem importOrExport_ways (place : Cursor) : (anyOf "import" ["export"]).ways ⟨place, []⟩ = [] ∨
    ∃ t, (anyOf "import" ["export"]).ways ⟨place, []⟩ = [⟨t, []⟩] := by
  change (text "import").ways ⟨place, []⟩ ++ (text "export").ways ⟨place, []⟩ = [] ∨
    ∃ t, (text "import").ways ⟨place, []⟩ ++ (text "export").ways ⟨place, []⟩ = [⟨t, []⟩]
  by_cases first : "import".toList <+: place.rest
  · obtain ⟨u, ahead⟩ := first
    have other : ¬ "export".toList <+: place.rest := by
      rw [← ahead]
      simp
    rw [ways_text (s := ⟨place, []⟩) ahead.symm, ways_text_eq_nil other]
    exact Or.inr ⟨_, rfl⟩
  · rw [ways_text_eq_nil (s := ⟨place, []⟩) first, List.nil_append]
    by_cases second : "export".toList <+: place.rest
    · obtain ⟨u, ahead⟩ := second
      rw [ways_text (s := ⟨place, []⟩) ahead.symm]
      exact Or.inr ⟨_, rfl⟩
    · rw [ways_text_eq_nil (s := ⟨place, []⟩) second]
      exact Or.inl rfl

theorem wordBorder_ways (place : Cursor) :
    wordBorder.ways ⟨place, []⟩ = [] ∨ wordBorder.ways ⟨place, []⟩ = [⟨place, []⟩] := by
  by_cases here : place.atWordBorder = true
  · exact Or.inr (ways_wordBorder (s := ⟨place, []⟩) here)
  · exact Or.inl (ways_wordBorder_eq_nil (s := ⟨place, []⟩) (by simpa using here))

theorem clauseWord_ways (place : Cursor) :
    clauseWord.ways ⟨place, []⟩ = [] ∨ ∃ t, IsAhead place t ∧ clauseWord.ways ⟨place, []⟩ = [⟨t, []⟩] := by
  have parts : clauseWord.ways ⟨place, []⟩ = (wordBorder.ways ⟨place, []⟩).flatMap fun t =>
      ((anyOf "import" ["export"]).ways t).flatMap wordBorder.ways := by
    have whole : clauseWord.ways ⟨place, []⟩ = (wordBorder.ways ⟨place, []⟩).flatMap fun t =>
        ((anyOf "import" ["export"]).ways t).flatMap fun t => (wordBorder.ways t).flatMap fun t => [t] := rfl
    simp only [whole, List.flatMap_singleton']
  have one : clauseWord.ways ⟨place, []⟩ = [] ∨ ∃ t, clauseWord.ways ⟨place, []⟩ = [⟨t, []⟩] := by
    rw [parts]
    rcases wordBorder_ways place with none | here
    · exact Or.inl (by rw [none, List.flatMap_nil])
    · rw [here, List.flatMap_singleton]
      rcases importOrExport_ways place with none | ⟨t, word⟩
      · exact Or.inl (by rw [none, List.flatMap_nil])
      · rw [word, List.flatMap_singleton]
        exact (wordBorder_ways t).imp id fun behind => ⟨t, behind⟩
  rcases one with none | ⟨t, way⟩
  · exact Or.inl none
  · exact Or.inr ⟨t, isAhead_of_mem_ways (s := ⟨place, []⟩) (t := ⟨t, []⟩) (by rw [way]; simp), way⟩

end Word

section Border

variable {above piece below : List Char}

theorem clauseBody_ways_free (free : ∀ c ∈ piece, inClause c = true) : clauseBody.ways ⟨.ofText piece, []⟩ = [] := by
  refine List.eq_nil_iff_forall_not_mem.mpr fun m member => ?_
  obtain ⟨c, inside, quote⟩ := quote_of_mem_clauseBody member
  rw [free c inside] at quote
  cases quote

/-- Behind the text above, what follows the word of a clause passes a piece and ends below, or not at all. -/
theorem clauseBody_ways_border (ends : EndsLine above.getLast?) (ends' : piece.getLast? = some '\n')
    (free : ∀ c ∈ piece, inClause c = true) (settled : clauseEnd.Settled piece) (below : List Char) :
    clauseBody.ways ⟨((Cursor.ofText above).beyond above []).extend below, []⟩ =
        (clauseBody.ways ⟨Cursor.ofText below, []⟩).map (Progress.move (Text.byteLength above) above.getLast?) ∧
      clauseBody.ways ⟨((Cursor.ofText above).beyond above []).extend (piece ++ below), []⟩ =
        (clauseBody.ways ⟨Cursor.ofText below, []⟩).map
          (Progress.move (Text.byteLength above + Text.byteLength piece) (some '\n')) := by
  have floats : clauseBody.asksForStart = false := by decide
  have moved : ∀ more : List Char, clauseBody.ways ⟨((Cursor.ofText above).beyond above []).extend more, []⟩ =
      (clauseBody.ways ⟨Cursor.ofText more, []⟩).map (Progress.move (Text.byteLength above) above.getLast?) := by
    intro more
    rw [extend_beyond]
    exact ways_move (s := ⟨Cursor.ofText more, []⟩) _ ends floats
  refine ⟨moved below, ?_⟩
  have passes : (Cursor.ofText piece).rest.all inClause = true := List.all_eq_true.mpr free
  have through := clauseBody_ways_extend below settled
  rw [clauseBody_ways_free free, if_pos passes, List.map_nil, List.nil_append] at through
  have behind : clauseBody.ways ⟨((Cursor.ofText piece).beyond piece []).extend below, []⟩ =
      (clauseBody.ways ⟨Cursor.ofText below, []⟩).map (Progress.move (Text.byteLength piece) piece.getLast?) := by
    rw [extend_beyond]
    exact ways_move (s := ⟨Cursor.ofText below, []⟩) _ (by simp [ends', EndsLine]) floats
  have onward : clauseBody.ways ⟨Cursor.ofText (piece ++ below), []⟩ = _ := through.trans behind
  rw [moved, onward, List.map_map]
  refine List.map_congr_left fun t _ => ?_
  simp [Function.comp, Progress.move_move, ends']

/-- A clause that is open above a border can pass a piece that is put in at the border, if it ends neither in the
piece nor over its end, nor over the end of the text above. -/
theorem carries_fromClause (ends : EndsLine above.getLast?) (settled : clauseEnd.Settled above)
    (ends' : piece.getLast? = some '\n') (free : ∀ c ∈ piece, inClause c = true) (settled' : clauseEnd.Settled piece) :
    fromClause.Carries above piece below := by
  intro v u cut goesOn
  obtain ⟨here, there⟩ := clauseBody_ways_border ends ends' free settled' below
  -- the word of a clause is complete at the end of a line
  have feed : '\n' ∈ u := by
    rcases ends.cases with rfl | ⟨front, spelled⟩
    · exact absurd (List.append_eq_nil_iff.mp cut.symm).2 goesOn
    · have last : u.getLast? = some '\n' := by
        have whole : (v ++ u).getLast? = some '\n' := by rw [← cut, spelled]; simp
        rwa [List.getLast?_append_of_ne_nil _ goesOn] at whole
      exact List.mem_of_getLast? last
  have word : ∀ more : List Char, clauseWord.ways ⟨((Cursor.ofText above).beyond v u).extend more, []⟩ =
      (clauseWord.ways ⟨(Cursor.ofText above).beyond v u, []⟩).map (Progress.extend more) := fun more =>
    ways_extend (s := ⟨(Cursor.ofText above).beyond v u, []⟩) more (looksBeyond_of_refuses (by decide) rfl feed)
  simp only [fromClause_ways, word]
  rcases clauseWord_ways ((Cursor.ofText above).beyond v u) with none | ⟨t, passed, one⟩
  · exact ⟨[], by simp [none], by simp [none]⟩
  · have ahead : IsAhead (Cursor.ofText above) t :=
      Leads.trans ⟨v, u, cut, fun _ _ => trivial, rfl⟩ passed
    have atEnd : t.beyond t.rest [] = (Cursor.ofText above).beyond above [] := by
      obtain ⟨v', u', cut', _, rfl⟩ := ahead
      have whole : above = v' ++ u' := cut'
      simp [whole]
    have body : ∀ more : List Char, clauseBody.ways ⟨t.extend more, []⟩ = _ := fun more =>
      clauseBody_ways_extend more (SettledFrom.later settled ahead)
    rw [one]
    simp only [List.map_cons, List.map_nil, List.flatMap_singleton]
    refine ⟨if t.rest.all inClause then clauseBody.ways ⟨Cursor.ofText below, []⟩ else [], ?_, ?_⟩
    · refine (body below).trans ?_
      rw [atEnd, here, List.append_right_inj]
      split <;> rfl
    · refine (body (piece ++ below)).trans ?_
      rw [atEnd, there, List.append_right_inj]
      split <;> rfl

end Border

end Source.Import

end Conformance
