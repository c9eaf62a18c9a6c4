import Conformance.Proofs.Pattern.Surroundings

namespace Conformance

def Text.commentLine (body : List Char) : List Char :=
  '/' :: '/' :: (body ++ ['\n'])

theorem Text.endsLine_commentLine (body : List Char) : EndsLine (commentLine body).getLast? := by
  intro c last
  rw [commentLine, ← List.cons_append, ← List.cons_append, List.getLast?_append] at last
  simpa using last.symm

namespace Pattern

def Match.move (n : Nat) (last : Option Char) (m : Match) : Match :=
  ⟨m.start.move n last, m.stop.move n last, m.captures.map (Capture.move n last)⟩

variable {p : Pattern} {place : Cursor} {n : Nat} {last : Option Char} {line text : List Char}

theorem Match.group?_move (number n : Nat) (last : Option Char) (m : Match) :
    (m.move n last).group? number = m.group? number :=
  Progress.kept?_move number n last ⟨m.stop, m.captures⟩

theorem matchAt?_move (n : Nat) (ends : EndsLine last) (free : p.asksForStart = false) (place : Cursor) :
    p.matchAt? (place.move n last) = (p.matchAt? place).map (Match.move n last) := by
  have moved : p.ways ⟨place.move n last, []⟩ = _ := ways_move (s := ⟨place, []⟩) n ends free
  rw [matchAt?_eq, matchAt?_eq, moved, List.head?_map, Option.map_map, Option.map_map]
  rfl

/-- Behind a text that ends a line, a search finds what it finds at the start of a text. -/
theorem searchFrom_move (n : Nat) (ends : EndsLine last) (free : p.asksForStart = false) (place : Cursor) :
    p.searchFrom (place.move n last) = (p.searchFrom place).map (Match.move n last) := by
  induction ahead : place.rest generalizing place with
  | nil =>
    have ahead' : (place.move n last).rest = [] := ahead
    rw [searchFrom_nil ahead, searchFrom_nil ahead']
    exact matchAt?_move n ends free place
  | cons c rest ih =>
    have here := matchAt?_move n ends free place
    cases found : p.matchAt? place with
    | some m =>
      rw [found] at here
      rw [searchFrom_of_matchAt? found, searchFrom_of_matchAt? here]
      rfl
    | none =>
      rw [found] at here
      have ahead' : (place.move n last).rest = c :: rest := ahead
      have onward : (place.move n last).past c rest = (place.past c rest).move n last := by
        simp [Cursor.past, Cursor.move, Nat.add_assoc]
      rw [searchFrom_cons ahead (matchAt?_eq_none_iff.mp found), searchFrom_cons ahead' (matchAt?_eq_none_iff.mp here), onward]
      exact ih (place.past c rest) rfl

/-- A search finds something no further on than where the pattern has a way. -/
theorem exists_searchFrom {v u : List Char} (cut : place.rest = v ++ u) (way : p.ways ⟨place.beyond v u, []⟩ ≠ []) :
    ∃ m, p.searchFrom place = some m ∧ m.start.offset ≤ place.offset + Text.byteLength v := by
  induction v generalizing place with
  | nil =>
    rw [Cursor.beyond_nil_of_rest (u := u) cut] at way
    obtain ⟨t, more, found⟩ := List.exists_cons_of_ne_nil way
    exact ⟨_, searchFrom_of_matchAt? (matchAt?_of_ways found), Nat.le_add_right _ _⟩
  | cons c v ih =>
    by_cases refused : p.ways ⟨place, []⟩ = []
    · rw [Cursor.beyond_cons place c v (v ++ u)] at way
      obtain ⟨m, found, start⟩ := ih rfl way
      refine ⟨m, by rw [searchFrom_cons (u := v ++ u) cut refused, found], ?_⟩
      rw [Text.byteLength_cons, ← Nat.add_assoc]
      exact start
    · obtain ⟨t, more, found⟩ := List.exists_cons_of_ne_nil refused
      exact ⟨_, searchFrom_of_matchAt? (matchAt?_of_ways found), Nat.le_add_right _ _⟩

def beginsIn (p : Pattern) (line text : List Char) : Bool :=
  (p.find? (line ++ text)).any fun m => m.start.offset < Text.byteLength line

/-- If no match begins in the lines in front of a text, the first match is that of the text. -/
theorem find?_behind (ends : EndsLine line.getLast?) (free : p.asksForStart = false) (elsewhere : p.beginsIn line text = false) :
    p.find? (line ++ text) = (p.find? text).map (Match.move (Text.byteLength line) line.getLast?) := by
  have refused : ∀ v u, line = v ++ u → u ≠ [] → p.ways ⟨(Cursor.ofText (line ++ text)).beyond v (u ++ text), []⟩ = [] := by
    intro v u whole goesOn
    refine Classical.byContradiction fun way => ?_
    obtain ⟨m, found, start⟩ := exists_searchFrom (by rw [whole, List.append_assoc]; rfl) way
    have inside : m.start.offset < Text.byteLength line := by
      have positive : Text.byteLength u ≠ 0 := fun none => goesOn (Text.eq_nil_of_byteLength none)
      have least : m.start.offset ≤ 0 + Text.byteLength v := start
      rw [whole, Text.byteLength_append]
      omega
    rw [beginsIn, find?, found] at elsewhere
    simp [inside] at elsewhere
  have behind : (Cursor.ofText (line ++ text)).beyond line text =
      (Cursor.ofText text).move (Text.byteLength line) line.getLast? := by
    simp [Cursor.ofText, Cursor.beyond, Cursor.move]
  rw [find?, searchFrom_skip rfl refused, behind]
  exact searchFrom_move _ ends free (.ofText text)

/-- If the first match by the first pattern that has one does not begin in the lines in front of a text, it is that of
the text. -/
theorem findSome?_behind {forms : List Pattern} (ends : EndsLine line.getLast?)
    (free : ∀ form ∈ forms, form.asksForStart = false)
    (elsewhere : ∀ m, forms.findSome? (·.find? (line ++ text)) = some m → Text.byteLength line ≤ m.start.offset) :
    forms.findSome? (·.find? (line ++ text)) =
      (forms.findSome? (·.find? text)).map (Match.move (Text.byteLength line) line.getLast?) := by
  induction forms with
  | nil => rfl
  | cons form forms ih =>
    have free' : form.asksForStart = false := free form List.mem_cons_self
    rw [List.findSome?_cons] at elsewhere
    rw [List.findSome?_cons, List.findSome?_cons]
    cases found : form.find? (line ++ text) with
    | none =>
      have own : form.find? (line ++ text) = _ := find?_behind ends free' (by rw [beginsIn, found]; rfl)
      rw [found] at own elsewhere
      rw [Option.map_eq_none_iff.mp own.symm]
      exact ih (fun other member => free other (List.mem_cons_of_mem _ member)) elsewhere
    | some m =>
      rw [found] at elsewhere
      have behind : ¬ m.start.offset < Text.byteLength line := Nat.not_lt.mpr (elsewhere m rfl)
      have own : form.find? (line ++ text) = _ := find?_behind ends free' (by rw [beginsIn, found]; simpa using behind)
      rw [found] at own
      obtain ⟨m', found', rfl⟩ := Option.map_eq_some_iff.mp own.symm
      rw [found']
      rfl

theorem occursIn_behind (ends : EndsLine line.getLast?) (free : p.asksForStart = false) :
    p.occursIn (line ++ text) = (p.beginsIn line text || p.occursIn text) := by
  cases begins : p.beginsIn line text with
  | false => rw [occursIn, occursIn, find?_behind ends free begins, Option.isSome_map, Bool.false_or]
  | true =>
    rw [Bool.true_or, occursIn]
    cases found : p.find? (line ++ text) with
    | none => rw [beginsIn, found] at begins; cases begins
    | some m => rfl

theorem asksForStart_chain (parts : List Pattern) : (chain parts).asksForStart = parts.any asksForStart := by
  induction parts with
  | nil => rfl
  | cons part parts ih => rw [chain_cons, asksForStart, ih, List.any_cons]

@[simp] theorem asksForStart_text (word : String) : (Pattern.text word).asksForStart = false := by
  rw [Pattern.text, exactly, asksForStart_chain, List.any_map, List.any_eq_false]
  exact fun c _ => Bool.false_ne_true

end Pattern

end Conformance
