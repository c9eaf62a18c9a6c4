import Conformance.Proofs.Check.Faults
import Conformance.Proofs.Manifest.Scans
import Mathlib.Data.List.Nodup
import Mathlib.Data.List.TakeWhile
import Mathlib.Order.Bounds.Basic

namespace Conformance.Endpoint.Manifest

open Text

/-- The code of a text behind the words that declare the manifest, if they are there. -/
def declared? (text : List Char) : Option (List (Nat × Char)) :=
  (declaration.find? text).map fun m => codeFrom m.stop.offset m.stop.rest

def OpensAt (code : List (Nat × Char)) (open_ : Nat) : Prop :=
  ∃ before equals inner behind, code = before ++ (equals, '=') :: (inner ++ (open_, '[') :: behind) ∧
    (∀ x ∈ before, x.2 ≠ '=') ∧ ∀ x ∈ inner, x.2 ≠ '['

/-- The bytes up to which as many brackets close as open in the code, counted from a byte at which `depth` brackets
are open. -/
def levelBytes (depth open_ : Nat) (code : List (Nat × Char)) : Set Nat :=
  {last | open_ ≤ last ∧ depth + (between open_ last code).countP (·.2 == '[') =
    (between open_ last code).countP (·.2 == ']')}

theorem mem_levelBytes {depth open_ last : Nat} {code : List (Nat × Char)} : last ∈ levelBytes depth open_ code ↔
    open_ ≤ last ∧ depth + (between open_ last code).countP (·.2 == '[') =
      (between open_ last code).countP (·.2 == ']') := Iff.rfl

/-- The bracket that opens at a byte is closed at the first byte up to which as many brackets close as open. -/
def ClosesAt (code : List (Nat × Char)) (open_ close : Nat) : Prop :=
  IsLeast (levelBytes 0 open_ code) close

section Opening

variable {code behind : List (Nat × Char)} {open_ : Nat}

theorem fromBracket_append {before inner : List (Nat × Char)} {equals : Nat} (noEquals : ∀ x ∈ before, x.2 ≠ '=')
    (noBracket : ∀ x ∈ inner, x.2 ≠ '[') :
    fromBracket (before ++ (equals, '=') :: (inner ++ (open_, '[') :: behind)) = (open_, '[') :: behind := by
  rw [fromBracket, List.dropWhile_append_of_pos fun x member => by simpa using noEquals x member,
    List.dropWhile_cons_of_neg (by simp), List.drop_succ_cons, List.drop_zero,
    List.dropWhile_append_of_pos fun x member => by simpa using noBracket x member,
    List.dropWhile_cons_of_neg (by simp)]

theorem exists_front {α : Type} {p : α → Bool} {l rest : List α} {x : α} (found : l.dropWhile p = x :: rest) :
    ∃ front, l = front ++ x :: rest ∧ (∀ y ∈ front, p y = true) ∧ p x = false := by
  refine ⟨l.takeWhile p, ?_, fun y member => List.mem_takeWhile_imp member, ?_⟩
  · rw [← found, List.takeWhile_append_dropWhile]
  · have refused := List.head?_dropWhile_not p l
    rw [found] at refused
    simpa using refused

theorem opensAt_iff : OpensAt code open_ ↔ ∃ behind, fromBracket code = (open_, '[') :: behind := by
  constructor
  · rintro ⟨before, equals, inner, behind, rfl, noEquals, noBracket⟩
    exact ⟨behind, fromBracket_append noEquals noBracket⟩
  · rintro ⟨behind, found⟩
    unfold fromBracket at found
    obtain ⟨inner, whole, noBracket, _⟩ := exists_front found
    cases start : code.dropWhile (·.2 != '=') with
    | nil => simp [start] at whole
    | cons x rest =>
      obtain ⟨before, rfl, noEquals, isEquals⟩ := exists_front start
      obtain ⟨equals, c⟩ := x
      obtain rfl : c = '=' := by simpa using isEquals
      rw [start, List.drop_succ_cons, List.drop_zero] at whole
      exact ⟨before, equals, inner, behind, by rw [whole], by simpa using noEquals, by simpa using noBracket⟩

theorem fromBracket_eq_nil_iff : fromBracket code = [] ↔ ∀ open_, ¬ OpensAt code open_ := by
  constructor
  · intro none open_ opens
    obtain ⟨behind, found⟩ := opensAt_iff.mp opens
    rw [none] at found
    cases found
  · intro never
    cases found : fromBracket code with
    | nil => rfl
    | cons x behind =>
      obtain ⟨at_, c⟩ := x
      obtain rfl := fromBracket_head found
      exact absurd (opensAt_iff.mpr ⟨behind, found⟩) (never at_)

end Opening

section Closing

variable {depth open_ at_ last : Nat} {c : Char} {code : List (Nat × Char)}

theorem between_cons (inside : open_ ≤ at_) :
    between open_ last ((at_, c) :: code) = (if at_ ≤ last then [(at_, c)] else []) ++ between open_ last code := by
  rw [between, List.filter_cons]
  by_cases reached : at_ ≤ last <;> simp [inside, reached, between]

theorem between_eq_nil (behind : ∀ x ∈ code, last < x.1) : between open_ last code = [] := by
  refine List.filter_eq_nil_iff.mpr fun x member => ?_
  have above := behind x member
  simp only [Bool.and_eq_true, decide_eq_true_eq]
  omega

/-- A character of the code changes the number of open brackets from its byte on. -/
theorem mem_levelBytes_cons (inside : open_ ≤ at_) (behind : ∀ x ∈ code, at_ < x.1) (started : 0 < depth ∨ open_ = at_) :
    last ∈ levelBytes depth open_ ((at_, c) :: code) ↔
      at_ ≤ last ∧ depth + ((if c = '[' then 1 else 0) + (between open_ last code).countP (·.2 == '[')) =
        (if c = ']' then 1 else 0) + (between open_ last code).countP (·.2 == ']') := by
  rw [mem_levelBytes, between_cons inside]
  by_cases reached : at_ ≤ last
  · have one : ∀ d : Char, [(at_, c)].countP (·.2 == d) = if c = d then 1 else 0 := by
      intro d
      by_cases same : c = d <;> simp [same]
    rw [if_pos reached, List.countP_append, List.countP_append, one, one]
    simp only [reached, Nat.le_trans inside reached, true_and]
  · have none : between open_ last code = [] := between_eq_nil fun x member => by
      have above := behind x member
      omega
    rw [if_neg reached, none]
    simp only [List.append_nil, List.countP_nil, reached, false_and, iff_false]
    omega

theorem mem_levelBytes_behind (behind : ∀ x ∈ code, at_ < x.1) (inside : open_ ≤ at_) (positive : 0 < depth) :
    last ∈ levelBytes depth open_ code ↔ at_ ≤ last ∧
      depth + (between open_ last code).countP (·.2 == '[') = (between open_ last code).countP (·.2 == ']') := by
  rw [mem_levelBytes]
  by_cases reached : at_ ≤ last
  · simp only [reached, Nat.le_trans inside reached, true_and]
  · have none : between open_ last code = [] := between_eq_nil fun x member => by
      have above := behind x member
      omega
    simp only [none, List.countP_nil, reached, false_and, iff_false]
    omega

/-- The search for the closing bracket finds the first byte up to which as many brackets close as are open. -/
theorem closingBracket?_eq_some_iff (ascending : code.Pairwise fun x y => x.1 < y.1) (behind : ∀ x ∈ code, open_ ≤ x.1)
    (positive : 0 < depth) {close : Nat} :
    closingBracket? depth code = some close ↔ IsLeast (levelBytes depth open_ code) close := by
  induction code generalizing depth with
  | nil =>
    have none : levelBytes depth open_ [] = ∅ := Set.eq_empty_of_forall_notMem fun last level => by
      have even : depth + 0 = 0 := level.2
      omega
    simp [closingBracket?, none, IsLeast]
  | cons x code ih =>
    obtain ⟨at_, c⟩ := x
    obtain ⟨above, ascending⟩ := List.pairwise_cons.mp ascending
    have inside : open_ ≤ at_ := behind (at_, c) List.mem_cons_self
    have later : ∀ x ∈ code, open_ ≤ x.1 := fun x member => behind x (List.mem_cons_of_mem _ member)
    have step : ∀ last, last ∈ levelBytes depth open_ ((at_, c) :: code) ↔ _ :=
      fun last => mem_levelBytes_cons inside above (Or.inl positive)
    rw [closingBracket?]
    by_cases opens : c = '['
    · have same : levelBytes depth open_ ((at_, c) :: code) = levelBytes (depth + 1) open_ code := by
        ext last
        rw [step, mem_levelBytes_behind above inside (Nat.succ_pos depth)]
        simp [opens, Nat.add_assoc]
      rw [if_pos opens, same, ih ascending later (Nat.succ_pos depth)]
    · rw [if_neg opens]
      by_cases closes : c = ']'
      · rw [if_pos closes]
        by_cases outermost : depth = 1
        · -- up to here as many brackets close as open, and before it there is one more open
          subst outermost
          have least : IsLeast (levelBytes 1 open_ ((at_, c) :: code)) at_ := by
            refine ⟨(step at_).mpr ⟨Nat.le_refl _, ?_⟩, fun last level => ((step last).mp level).1⟩
            simp [between_eq_nil above, closes]
          rw [if_pos (Nat.le_refl 1), Option.some.injEq]
          exact ⟨fun same => same ▸ least, fun other => least.unique other⟩
        · have same : levelBytes depth open_ ((at_, c) :: code) = levelBytes (depth - 1) open_ code := by
            ext last
            rw [step, mem_levelBytes_behind above inside (by omega)]
            simp only [closes, if_neg (by decide : ¬ ']' = '['), if_true]
            omega
          rw [if_neg (by omega), same, ih ascending later (by omega)]
      · have same : levelBytes depth open_ ((at_, c) :: code) = levelBytes depth open_ code := by
          ext last
          rw [step, mem_levelBytes_behind above inside positive]
          simp [opens, closes]
        rw [if_neg closes, same, ih ascending later positive]

end Closing

section Array

variable {text array : List Char} {code : List (Nat × Char)} {open_ close : Nat}

theorem exists_declared (declared : declared? text = some code) :
    ∃ front back, text = front ++ back ∧ code = codeFrom (byteLength front) back := by
  obtain ⟨m, found, rfl⟩ := Option.map_eq_some_iff.mp declared
  have follows := Pattern.follows_of_find? found
  obtain ⟨front, back, cut, _, place⟩ := Cursor.Leads.trans follows.ahead follows.isAhead
  refine ⟨front, back, cut, ?_⟩
  rw [place, Cursor.beyond_rest]
  congr 1
  exact Nat.zero_add _

theorem OpensAt.mem (opens : OpensAt code open_) : (open_, '[') ∈ code := by
  obtain ⟨before, equals, inner, behind, rfl, _, _⟩ := opens
  simp

/-- The bracket that opens behind the equals sign is closed where the search for its end says. -/
theorem closingBracket?_fromBracket {offset : Nat} {s : List Char} (opens : OpensAt (codeFrom offset s) open_) :
    closingBracket? 0 (fromBracket (codeFrom offset s)) = some close ↔ ClosesAt (codeFrom offset s) open_ close := by
  have ascending := (ordered_codeFrom offset s).ascending
  obtain ⟨before, equals, inner, behind, whole, noEquals, noBracket⟩ := opens
  rw [whole] at ascending ⊢
  have front : ∀ x ∈ before ++ (equals, '=') :: inner, x.1 < open_ := by
    rw [← List.cons_append, ← List.append_assoc] at ascending
    exact fun x member => (List.pairwise_append.mp ascending).2.2 x member (open_, '[') List.mem_cons_self
  obtain ⟨above, ascending⟩ : (∀ x ∈ behind, open_ < x.1) ∧ behind.Pairwise fun x y => x.1 < y.1 := by
    rw [← List.cons_append, ← List.append_assoc] at ascending
    exact List.pairwise_cons.mp (List.pairwise_append.mp ascending).2.1
  have same : levelBytes 0 open_ (before ++ (equals, '=') :: (inner ++ (open_, '[') :: behind)) =
      levelBytes 1 open_ behind := by
    ext last
    have skipped : between open_ last (before ++ (equals, '=') :: inner) = [] :=
      List.filter_eq_nil_iff.mpr fun x member => by
        have below := front x member
        simp only [Bool.and_eq_true, decide_eq_true_eq]
        omega
    have here : last ∈ levelBytes 0 open_ ((open_, '[') :: behind) ↔ _ :=
      mem_levelBytes_cons (Nat.le_refl open_) above (Or.inr rfl)
    rw [mem_levelBytes] at here
    rw [mem_levelBytes, mem_levelBytes, ← List.cons_append, ← List.append_assoc, between_append, skipped,
      List.nil_append, here]
    simp
  rw [fromBracket_append noEquals noBracket, closingBracket?, if_pos rfl, ClosesAt, same]
  exact closingBracket?_eq_some_iff ascending (fun x member => Nat.le_of_lt (above x member)) Nat.one_pos

def bracketBounds : List (Nat × Char) → Except ManifestError (Nat × Nat)
  | [] => .error .missingDeclaration
  | (open_, c) :: rest =>
    match closingBracket? 0 ((open_, c) :: rest) with
    | some close => .ok (open_, close + 1)
    | none => .error (.unbalanced open_)

theorem arrayBounds_eq (text : List Char) :
    arrayBounds text = bracketBounds (((declared? text).map fromBracket).getD []) := by
  rw [arrayBounds, declared?]
  cases declaration.find? text with
  | none => rfl
  | some m =>
    change _ = bracketBounds (fromBracket (codeFrom m.stop.offset m.stop.rest))
    dsimp only
    cases fromBracket (codeFrom m.stop.offset m.stop.rest) <;> rfl

theorem arrayBounds_of_not_opensAt (none : ∀ code, declared? text = some code → ∀ open_, ¬ OpensAt code open_) :
    arrayBounds text = .error .missingDeclaration := by
  have unopened : ((declared? text).map fromBracket).getD [] = [] := by
    cases declared : declared? text with
    | none => rfl
    | some code => exact fromBracket_eq_nil_iff.mpr (none code declared)
  rw [arrayBounds_eq, unopened, bracketBounds]

theorem arrayBounds_of_closesAt (declared : declared? text = some code) (opens : OpensAt code open_)
    (closes : ClosesAt code open_ close) : arrayBounds text = .ok (open_, close + 1) := by
  obtain ⟨front, back, _, rfl⟩ := exists_declared declared
  obtain ⟨behind, first⟩ := opensAt_iff.mp opens
  have closing := (closingBracket?_fromBracket opens).mpr closes
  rw [first] at closing
  rw [arrayBounds_eq, declared, Option.map_some, Option.getD_some, first, bracketBounds, closing]

theorem arrayBounds_of_not_closesAt (declared : declared? text = some code) (opens : OpensAt code open_)
    (never : ∀ close, ¬ ClosesAt code open_ close) : arrayBounds text = .error (.unbalanced open_) := by
  obtain ⟨front, back, _, rfl⟩ := exists_declared declared
  obtain ⟨behind, first⟩ := opensAt_iff.mp opens
  have unclosed : closingBracket? 0 (fromBracket (codeFrom (byteLength front) back)) = none :=
    Option.eq_none_iff_forall_ne_some.mpr fun close found => never close ((closingBracket?_fromBracket opens).mp found)
  rw [first] at unclosed
  rw [arrayBounds_eq, declared, Option.map_some, Option.getD_some, first, bracketBounds, unclosed]

/-- A text has an array in it, or its first bracket is not closed, or it has none. -/
theorem arrayBounds_cases (text : List Char) :
    (∃ code open_ close, declared? text = some code ∧ OpensAt code open_ ∧ ClosesAt code open_ close ∧
      arrayBounds text = .ok (open_, close + 1)) ∨
    (∃ code open_, declared? text = some code ∧ OpensAt code open_ ∧ (∀ close, ¬ ClosesAt code open_ close) ∧
      arrayBounds text = .error (.unbalanced open_)) ∨
    ((∀ code, declared? text = some code → ∀ open_, ¬ OpensAt code open_) ∧
      arrayBounds text = .error .missingDeclaration) := by
  by_cases opened : ∃ code open_, declared? text = some code ∧ OpensAt code open_
  · obtain ⟨code, open_, declared, opens⟩ := opened
    by_cases closed : ∃ close, ClosesAt code open_ close
    · obtain ⟨close, closes⟩ := closed
      exact Or.inl ⟨code, open_, close, declared, opens, closes, arrayBounds_of_closesAt declared opens closes⟩
    · have never := not_exists.mp closed
      exact Or.inr (Or.inl ⟨code, open_, declared, opens, never, arrayBounds_of_not_closesAt declared opens never⟩)
  · have none : ∀ code, declared? text = some code → ∀ open_, ¬ OpensAt code open_ :=
      fun code declared open_ opens => opened ⟨code, open_, declared, opens⟩
    exact Or.inr (Or.inr ⟨none, arrayBounds_of_not_opensAt none⟩)

theorem codeFrom_opensAt (declared : declared? text = some code) (opens : OpensAt code open_) :
    ∃ front back, text = front ++ back ∧ byteLength front = open_ ∧
      codeFrom open_ back = code.filter fun x => open_ ≤ x.1 := by
  obtain ⟨front, rest, whole, rfl⟩ := exists_declared declared
  obtain ⟨inner, behind, cut, rfl⟩ := (ordered_codeFrom (byteLength front) rest).placed _ opens.mem
  refine ⟨front ++ inner, '[' :: behind, by rw [whole, cut, List.append_assoc], byteLength_append _ _, ?_⟩
  have member := opens.mem
  rw [cut] at member ⊢
  exact codeFrom_restart member

/-- The array that a text has is the part from its first bracket to the one that closes it, and by itself it is
scanned as it is there. -/
theorem exists_array_of_closesAt (declared : declared? text = some code) (opens : OpensAt code open_)
    (closes : ClosesAt code open_ close) : ∃ inner, slice? text open_ (close + 1) = some ('[' :: inner ++ [']']) ∧
      between open_ close code = further open_ (codeFrom 0 ('[' :: inner ++ [']'])) := by
  obtain ⟨front, rest, whole, rfl⟩ := exists_declared declared
  have closing : (close, ']') ∈ codeFrom (byteLength front) rest :=
    (fromBracket_sublist _).subset (mem_of_closingBracket? ((closingBracket?_fromBracket opens).mpr closes))
  have ordered : open_ < close := by
    refine Nat.lt_of_le_of_ne closes.1.1 fun same => ?_
    subst same
    have distinct := (ordered_codeFrom (byteLength front) rest).ascending.imp fun below => Nat.ne_of_lt below
    have one := List.inj_on_of_nodup_map (List.pairwise_map.mpr distinct) opens.mem closing rfl
    cases one
  obtain ⟨before, inner, behind, cut, first, size, scanned⟩ := codeFrom_part opens.mem closing ordered
  rw [show ']'.utf8Size = 1 by decide] at size
  refine ⟨inner, slice?_eq_some_iff.mpr ⟨front ++ before, behind, ?_, ?_, ?_⟩, scanned⟩
  · rw [whole, cut, List.append_assoc front, List.append_assoc front, List.append_assoc before]
  · rw [byteLength_append, first]
  · rw [byteLength_append, first, size]

theorem run_arrayText_eq_error_iff {cause : ManifestError} :
    (arrayText text).run = .ok (.error cause) ↔ arrayBounds text = .error cause := by
  have reported : ∀ reason, arrayBounds text = .error reason → (arrayText text).run = .ok (.error reason) := by
    intro reason found
    unfold arrayText
    rw [found]
    rfl
  refine ⟨fun found => ?_, reported cause⟩
  cases bounds : arrayBounds text with
  | error reason =>
    rw [reported reason bounds] at found
    cases found
    rfl
  | ok place =>
    obtain ⟨array, whole⟩ := run_arrayText bounds
    rw [whole] at found
    cases found

theorem run_arrayText_eq_ok_iff : (arrayText text).run = .ok (.ok array) ↔ ∃ code open_ close,
    declared? text = some code ∧ OpensAt code open_ ∧ ClosesAt code open_ close ∧
      slice? text open_ (close + 1) = some array := by
  constructor
  · intro found
    rcases arrayBounds_cases text with ⟨code, open_, close, declared, opens, closes, bounds⟩ | ⟨_, _, _, _, _, bounds⟩ |
      ⟨_, bounds⟩
    · obtain ⟨inner, part, _⟩ := exists_array_of_closesAt declared opens closes
      rw [run_arrayText_of_slice bounds part] at found
      cases found
      exact ⟨code, open_, close, declared, opens, closes, part⟩
    · rw [run_arrayText_eq_error_iff.mpr bounds] at found
      cases found
    · rw [run_arrayText_eq_error_iff.mpr bounds] at found
      cases found
  · rintro ⟨code, open_, close, declared, opens, closes, part⟩
    exact run_arrayText_of_slice (arrayBounds_of_closesAt declared opens closes) part

theorem arrayBounds_eq_unbalanced_iff : arrayBounds text = .error (.unbalanced open_) ↔
    ∃ code, declared? text = some code ∧ OpensAt code open_ ∧ ∀ close, ¬ ClosesAt code open_ close := by
  constructor
  · intro found
    rcases arrayBounds_cases text with ⟨_, _, _, _, _, _, bounds⟩ | ⟨code, open', declared, opens, never, bounds⟩ |
      ⟨_, bounds⟩
    · cases bounds.symm.trans found
    · cases bounds.symm.trans found
      exact ⟨code, declared, opens, never⟩
    · cases bounds.symm.trans found
  · rintro ⟨code, declared, opens, never⟩
    exact arrayBounds_of_not_closesAt declared opens never

theorem arrayBounds_eq_missing_iff : arrayBounds text = .error .missingDeclaration ↔
    ∀ code, declared? text = some code → ∀ open_, ¬ OpensAt code open_ := by
  refine ⟨fun found => ?_, arrayBounds_of_not_opensAt⟩
  rcases arrayBounds_cases text with ⟨_, _, _, _, _, _, bounds⟩ | ⟨_, _, _, _, _, bounds⟩ | ⟨none, _⟩
  · cases bounds.symm.trans found
  · cases bounds.symm.trans found
  · exact none

end Array

/-- The array of a manifest is found from the first bracket that opens behind the equals sign of the declaration up
to the first byte up to which as many brackets close as open; it is reported if no such bracket opens, or if it is
not closed. The scan of the text from that bracket on, and the scan of the array by itself, go as the one from the
declaration on. -/
theorem arrayText_located (text : List Char) :
    (∀ array, (arrayText text).run = .ok (.ok array) ↔ ∃ code open_ close, declared? text = some code ∧
      OpensAt code open_ ∧ ClosesAt code open_ close ∧ slice? text open_ (close + 1) = some array) ∧
    (∀ open_, (arrayText text).run = .ok (.error (.unbalanced open_)) ↔
      ∃ code, declared? text = some code ∧ OpensAt code open_ ∧ ∀ close, ¬ ClosesAt code open_ close) ∧
    ((arrayText text).run = .ok (.error .missingDeclaration) ↔
      ∀ code, declared? text = some code → ∀ open_, ¬ OpensAt code open_) ∧
    ∀ code open_, declared? text = some code → OpensAt code open_ →
      (∃ front back, text = front ++ back ∧ byteLength front = open_ ∧
        codeFrom open_ back = code.filter fun x => open_ ≤ x.1) ∧
      ∀ close, ClosesAt code open_ close → ∃ inner, slice? text open_ (close + 1) = some ('[' :: inner ++ [']']) ∧
        between open_ close code = further open_ (codeFrom 0 ('[' :: inner ++ [']'])) := by
  refine ⟨fun array => run_arrayText_eq_ok_iff,
    fun open_ => run_arrayText_eq_error_iff.trans arrayBounds_eq_unbalanced_iff,
    run_arrayText_eq_error_iff.trans arrayBounds_eq_missing_iff,
    fun code open_ declared opens => ⟨codeFrom_opensAt declared opens, ?_⟩⟩
  exact fun close closes => exists_array_of_closesAt declared opens closes

end Conformance.Endpoint.Manifest
