import Conformance.Proofs.Pattern.Places
import Conformance.Proofs.Text.Lines

namespace Conformance

namespace Cursor

def extend (more : List Char) (at_ : Cursor) : Cursor :=
  ⟨at_.offset, at_.before, at_.rest ++ more⟩

def move (n : Nat) (last : Option Char) (at_ : Cursor) : Cursor :=
  ⟨n + at_.offset, at_.before.or last, at_.rest⟩

variable {accepts : Char → Bool} {offset : Nat} {before : Option Char} {rest : List Char}

@[simp] theorem extend_rest (more : List Char) (at_ : Cursor) : (at_.extend more).rest = at_.rest ++ more := rfl

@[simp] theorem move_rest (n : Nat) (last : Option Char) (at_ : Cursor) : (at_.move n last).rest = at_.rest := rfl

@[simp] theorem extend_offset (more : List Char) (at_ : Cursor) : (at_.extend more).offset = at_.offset := rfl

@[simp] theorem move_offset (n : Nat) (last : Option Char) (at_ : Cursor) : (at_.move n last).offset = n + at_.offset := rfl

theorem move_move (n k : Nat) (last last' : Option Char) (at_ : Cursor) :
    (at_.move k last').move n last = at_.move (n + k) (last'.or last) := by
  simp [move, Nat.add_assoc, Option.or_assoc]

theorem textTo_extend (more : List Char) (start stop : Cursor) :
    (start.extend more).textTo (stop.extend more) = start.textTo stop := by
  simp only [textTo, extend_rest, List.length_append, Nat.add_sub_add_right]
  rw [List.take_append_of_le_length (Nat.sub_le _ _)]

theorem reach_extend (more : List Char) (stops : (rest.all accepts && more.head?.any accepts) = false) :
    reach accepts offset before (rest ++ more) = (reach accepts offset before rest).map (extend more) := by
  induction rest generalizing offset before with
  | nil =>
    cases more with
    | nil => rfl
    | cons c more =>
      have refused : accepts c = false := by simpa using stops
      simp [reach, extend, refused]
  | cons c rest ih =>
    rw [List.cons_append, reach, reach, List.map_cons]
    by_cases accepted : accepts c = true
    · rw [if_pos accepted, if_pos accepted, ih (by simpa [accepted] using stops)]
      rfl
    · rw [if_neg accepted, if_neg accepted]
      rfl

theorem reach_move (n : Nat) (last : Option Char) :
    reach accepts (n + offset) (before.or last) rest = (reach accepts offset before rest).map (move n last) := by
  induction rest generalizing offset before with
  | nil => rfl
  | cons c rest ih =>
    rw [reach, reach, List.map_cons]
    by_cases accepted : accepts c = true
    · rw [if_pos accepted, if_pos accepted, ← ih, Nat.add_assoc]
      rfl
    · rw [if_neg accepted, if_neg accepted]
      rfl

end Cursor

namespace Pattern

def Capture.extend (more : List Char) (c : Capture) : Capture :=
  ⟨c.number, c.start.extend more, c.stop.extend more⟩

def Capture.move (n : Nat) (last : Option Char) (c : Capture) : Capture :=
  ⟨c.number, c.start.move n last, c.stop.move n last⟩

namespace Progress

def extend (more : List Char) (s : Progress) : Progress :=
  ⟨s.place.extend more, s.captures.map (Capture.extend more)⟩

def move (n : Nat) (last : Option Char) (s : Progress) : Progress :=
  ⟨s.place.move n last, s.captures.map (Capture.move n last)⟩

@[simp] theorem extend_place (more : List Char) (s : Progress) : (s.extend more).place = s.place.extend more := rfl

@[simp] theorem move_place (n : Nat) (last : Option Char) (s : Progress) : (s.move n last).place = s.place.move n last := rfl

theorem move_move (n k : Nat) (last last' : Option Char) (s : Progress) :
    (s.move k last').move n last = s.move (n + k) (last'.or last) := by
  have each : (Capture.move n last ∘ Capture.move k last' : Capture → Capture) = Capture.move (n + k) (last'.or last) := by
    funext c
    simp [Capture.move, Cursor.move_move]
  simp [move, Cursor.move_move, each]

def kept? (number : Nat) (s : Progress) : Option (List Char) :=
  (s.captures.find? (·.number == number)).map fun c => c.start.textTo c.stop

theorem kept?_extend (number : Nat) (more : List Char) (s : Progress) : (s.extend more).kept? number = s.kept? number := by
  have same : ((·.number == number) ∘ Capture.extend more : Capture → Bool) = (·.number == number) := rfl
  rw [kept?, kept?, extend, List.find?_map, same, Option.map_map]
  exact congrArg (Option.map · _) (funext fun c => Cursor.textTo_extend more c.start c.stop)

theorem kept?_move (number n : Nat) (last : Option Char) (s : Progress) : (s.move n last).kept? number = s.kept? number := by
  have same : ((·.number == number) ∘ Capture.move n last : Capture → Bool) = (·.number == number) := rfl
  rw [kept?, kept?, move, List.find?_map, same, Option.map_map]
  rfl

end Progress

/-- Whether some way of the pattern depends on what stands behind the end of the text. A repetition of a pattern
is taken to do so. -/
def looksBeyond : Pattern → Progress → Bool
  | empty, _ | textStart, _ | lineStart, _ => false
  | char _, s | wordBorder, s | textEnd, s => s.place.rest.isEmpty
  | seq first second, s => first.looksBeyond s || (first.ways s).any second.looksBeyond
  | either preferred other, s => preferred.looksBeyond s || other.looksBeyond s
  | many _, _ => true
  | most accepts, s | fewest accepts, s => s.place.rest.all accepts
  | group _ body, s => body.looksBeyond s

/-- Whether some way of the pattern can be another one when the text goes on with `more`. A repetition of a pattern is
taken to be so. -/
def dependsOn (more : List Char) : Pattern → Progress → Bool
  | empty, _ | textStart, _ | lineStart, _ => false
  | char accepts, s => s.place.rest.isEmpty && more.head?.any accepts
  | wordBorder, s => s.place.rest.isEmpty && more.head?.any Text.isWord
  | textEnd, s => s.place.rest.isEmpty && !more.isEmpty
  | seq first second, s => first.dependsOn more s || (first.ways s).any (second.dependsOn more)
  | either preferred other, s => preferred.dependsOn more s || other.dependsOn more s
  | many _, _ => true
  | most accepts, s | fewest accepts, s => s.place.rest.all accepts && more.head?.any accepts
  | group _ body, s => body.dependsOn more s

def asksForStart : Pattern → Bool
  | textStart => true
  | seq p q | either p q => p.asksForStart || q.asksForStart
  | many body | group _ body => body.asksForStart
  | empty | char _ | most _ | fewest _ | wordBorder | textEnd | lineStart => false

def repeats : Pattern → Bool
  | many _ => true
  | seq p q | either p q => p.repeats || q.repeats
  | group _ body => body.repeats
  | empty | char _ | most _ | fewest _ | wordBorder | textStart | textEnd | lineStart => false

variable {p : Pattern} {s : Progress}

theorem mem_rest_of_refuses {x : Char} {t : Progress} (out : p.refuses x = true) (ahead : x ∈ s.place.rest)
    (member : t ∈ p.ways s) : x ∈ t.place.rest := by
  obtain ⟨v, u, cut, others, stop⟩ := leads_of_mem_ways (passes_of_refuses out) member
  rw [cut, List.mem_append] at ahead
  rw [stop, Cursor.beyond_rest]
  exact ahead.resolve_left fun inside => others x inside rfl

/-- In front of a character that the pattern never passes it does not look beyond the end of the text. -/
theorem looksBeyond_of_refuses {x : Char} (out : p.refuses x = true) (once : p.repeats = false)
    (ahead : x ∈ s.place.rest) : p.looksBeyond s = false := by
  induction p generalizing s with
  | empty | textStart | lineStart => rfl
  | char | wordBorder | textEnd => exact List.isEmpty_eq_false_iff.mpr (List.ne_nil_of_mem ahead)
  | most accepts | fewest accepts =>
    rw [looksBeyond, List.all_eq_false]
    exact ⟨x, ahead, by simpa [refuses] using out⟩
  | seq first second ih₁ ih₂ =>
    simp only [refuses, Bool.and_eq_true] at out
    simp only [repeats, Bool.or_eq_false_iff] at once
    rw [looksBeyond, ih₁ out.1 once.1 ahead, Bool.false_or, List.any_eq_false]
    intro t member
    rw [ih₂ out.2 once.2 (mem_rest_of_refuses out.1 ahead member)]
    exact Bool.false_ne_true
  | either preferred other ih₁ ih₂ =>
    simp only [refuses, Bool.and_eq_true] at out
    simp only [repeats, Bool.or_eq_false_iff] at once
    rw [looksBeyond, ih₁ out.1 once.1 ahead, ih₂ out.2 once.2 ahead, Bool.false_or]
  | many body => cases once
  | group number body ih => exact ih out once ahead

theorem map_guard {condition moved : Bool} {f : Progress → Progress} (same : moved = condition) :
    (if moved then [f s] else []) = (if condition then [s] else []).map f := by
  subst same
  cases moved <;> rfl

/-- A pattern that does not look beyond the end of the text depends on nothing there. -/
theorem dependsOn_of_looksBeyond (more : List Char) (own : p.looksBeyond s = false) : p.dependsOn more s = false := by
  induction p generalizing s with
  | empty | textStart | lineStart => rfl
  | char | wordBorder | textEnd | most | fewest =>
    apply Bool.and_eq_false_iff.mpr
    exact Or.inl own
  | seq first second ih₁ ih₂ =>
    simp only [looksBeyond, Bool.or_eq_false_iff, List.any_eq_false] at own
    rw [dependsOn, ih₁ own.1, Bool.false_or, List.any_eq_false]
    intro t member
    rw [ih₂ (by simpa using own.2 t member)]
    exact Bool.false_ne_true
  | either preferred other ih₁ ih₂ =>
    simp only [looksBeyond, Bool.or_eq_false_iff] at own
    rw [dependsOn, ih₁ own.1, ih₂ own.2, Bool.false_or]
  | many body => cases own
  | group number body ih => exact ih own

/-- A pattern has the same ways when the text goes on with something that it does not depend on. -/
theorem ways_goingOn {more : List Char} (own : p.dependsOn more s = false) :
    p.ways (s.extend more) = (p.ways s).map (Progress.extend more) := by
  induction p generalizing s with
  | empty => rfl
  | textStart | lineStart => exact map_guard rfl
  | char accepts =>
    cases ahead : s.place.rest with
    | nil =>
      cases more with
      | nil => simp [ways, ahead]
      | cons d more =>
        have refused : accepts d = false := by simpa [dependsOn, ahead] using own
        simp [ways, ahead, refused]
    | cons c rest =>
      have ahead' : (s.extend more).place.rest = c :: (rest ++ more) := by simp [ahead]
      simp only [ways, ahead, ahead']
      split
      · simp [Progress.extend, Progress.moveTo, Cursor.past, Cursor.extend]
      · rfl
  | wordBorder =>
    have same : (s.extend more).place.atWordBorder = s.place.atWordBorder := by
      cases ahead : s.place.rest with
      | nil =>
        have outer : more.head?.any Text.isWord = false := by simpa [dependsOn, ahead] using own
        simp [Cursor.atWordBorder, Cursor.extend, ahead, outer]
      | cons c rest => simp [Cursor.atWordBorder, Cursor.extend, ahead]
    exact map_guard same
  | textEnd =>
    have same : (s.extend more).place.rest.isEmpty = s.place.rest.isEmpty := by
      cases ahead : s.place.rest with
      | nil => simpa [dependsOn, ahead] using own
      | cons c rest => simp [ahead]
    exact map_guard same
  | seq first second ih₁ ih₂ =>
    simp only [dependsOn, Bool.or_eq_false_iff, List.any_eq_false] at own
    rw [ways, ways, ih₁ own.1, List.flatMap_map, List.map_flatMap]
    exact List.flatMap_congr fun t member => ih₂ (by simpa using own.2 t member)
  | either preferred other ih₁ ih₂ =>
    simp only [dependsOn, Bool.or_eq_false_iff] at own
    rw [ways, ways, ih₁ own.1, ih₂ own.2, List.map_append]
  | many body => cases own
  | most accepts =>
    simp only [ways, Progress.extend_place, Cursor.extend_rest]
    change (List.reverse (Cursor.reach accepts s.place.offset s.place.before _)).map _ = _
    rw [Cursor.reach_extend more own, ← List.map_reverse, List.map_map, List.map_map]
    rfl
  | fewest accepts =>
    simp only [ways, Progress.extend_place, Cursor.extend_rest]
    change (Cursor.reach accepts s.place.offset s.place.before _).map _ = _
    rw [Cursor.reach_extend more own, List.map_map, List.map_map]
    rfl
  | group number body ih =>
    rw [ways, ways, ih own, List.map_map, List.map_map]
    rfl

theorem ways_extend (more : List Char) (own : p.looksBeyond s = false) :
    p.ways (s.extend more) = (p.ways s).map (Progress.extend more) :=
  ways_goingOn (dependsOn_of_looksBeyond more own)

theorem repeatWays_move {f : Progress → List Progress} {n : Nat} {last : Option Char}
    (step : ∀ s, f (s.move n last) = (f s).map (Progress.move n last)) (limit : Nat) (s : Progress) :
    repeatWays f limit (s.move n last) = (repeatWays f limit s).map (Progress.move n last) := by
  induction limit generalizing s with
  | zero => rfl
  | succ limit ih =>
    rw [repeatWays, repeatWays, step, List.flatMap_map, List.map_append, List.map_flatMap]
    refine congrArg (· ++ _) (List.flatMap_congr fun t _ => ?_)
    simp only [Progress.move_place, Cursor.move_offset, Nat.add_lt_add_iff_left]
    split
    · exact ih t
    · rfl

/-- Behind a text that ends a line, a pattern has the same ways as at the start of a text. -/
theorem ways_move (n : Nat) {last : Option Char} (ends : EndsLine last) (free : p.asksForStart = false) :
    p.ways (s.move n last) = (p.ways s).map (Progress.move n last) := by
  induction p generalizing s with
  | empty => rfl
  | textStart => cases free
  | lineStart =>
    have same : (s.move n last).place.atLineStart = s.place.atLineStart := by
      have own : last.all (· == '\n') = true := by
        cases last with
        | none => rfl
        | some c => simpa using ends c rfl
      cases before : s.place.before with
      | none => simp [Cursor.atLineStart, Cursor.move, before, own]
      | some c => simp [Cursor.atLineStart, Cursor.move, before]
    exact map_guard same
  | wordBorder =>
    have same : (s.move n last).place.atWordBorder = s.place.atWordBorder := by
      have own : last.any Text.isWord = false := by
        cases last with
        | none => rfl
        | some c =>
          rw [ends c rfl]
          decide
      cases before : s.place.before with
      | none => simp [Cursor.atWordBorder, Cursor.move, before, own]
      | some c => simp [Cursor.atWordBorder, Cursor.move, before]
    exact map_guard same
  | textEnd => exact map_guard rfl
  | char accepts =>
    simp only [ways, Progress.move_place, Cursor.move_rest]
    split
    · rfl
    · split
      · simp [Progress.move, Progress.moveTo, Cursor.past, Cursor.move, Nat.add_assoc]
      · rfl
  | seq first second ih₁ ih₂ =>
    simp only [asksForStart, Bool.or_eq_false_iff] at free
    rw [ways, ways, ih₁ free.1, List.flatMap_map, List.map_flatMap]
    exact List.flatMap_congr fun t _ => ih₂ free.2
  | either preferred other ih₁ ih₂ =>
    simp only [asksForStart, Bool.or_eq_false_iff] at free
    rw [ways, ways, ih₁ free.1, ih₂ free.2, List.map_append]
  | many body ih => exact repeatWays_move (fun s => ih free) _ s
  | most accepts =>
    change (List.reverse (Cursor.reach accepts (n + s.place.offset) (s.place.before.or last) s.place.rest)).map _ = _
    rw [Cursor.reach_move, ← List.map_reverse, List.map_map, ways, List.map_map]
    rfl
  | fewest accepts =>
    change (Cursor.reach accepts (n + s.place.offset) (s.place.before.or last) s.place.rest).map _ = _
    rw [Cursor.reach_move, List.map_map, ways, List.map_map]
    rfl
  | group number body ih =>
    rw [ways, ways, ih free, List.map_map, List.map_map]
    rfl

end Pattern

end Conformance
