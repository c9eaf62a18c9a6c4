import Conformance.Proofs.Bisection
import Conformance.Text.Lines
import Conformance.Text.Pieces

namespace Conformance

def EndsLine (last : Option Char) : Prop :=
  ∀ c ∈ last, c = '\n'

instance (last : Option Char) : Decidable (EndsLine last) :=
  match last with
  | none => .isTrue fun _ absent => nomatch absent
  | some c => decidable_of_iff (c = '\n') ⟨fun same _ here => by cases here; exact same, fun ends => ends c rfl⟩

theorem EndsLine.cases {s : List Char} (ends : EndsLine s.getLast?) : s = [] ∨ ∃ front, s = front ++ ['\n'] := by
  rcases List.eq_nil_or_concat s with rfl | ⟨front, c, rfl⟩
  · exact Or.inl rfl
  · rw [List.concat_eq_append] at ends ⊢
    obtain rfl : c = '\n' := ends c (by simp)
    exact Or.inr ⟨front, rfl⟩

namespace Text

variable {s t : List Char}

theorem linesOfPieces_append {pieces more : List (List Char)} (some : more ≠ []) :
    linesOfPieces (pieces ++ more) = pieces.map dropReturn ++ linesOfPieces more := by
  induction pieces with
  | nil => rfl
  | cons piece pieces ih =>
    obtain ⟨next, others, goesOn⟩ : ∃ next others, pieces ++ more = next :: others :=
      List.exists_cons_of_ne_nil (by simp [some])
    rw [List.cons_append, goesOn, linesOfPieces, ← goesOn, ih]
    · rfl
    · simp

theorem lines_feed (s t : List Char) : lines (s ++ '\n' :: t) = (split (· == '\n') s).map dropReturn ++ lines t := by
  rw [lines, split_append_stop (by decide), linesOfPieces_append (split_ne_nil _ t)]
  rfl

theorem lines_append (ends : EndsLine s.getLast?) (t : List Char) : lines (s ++ t) = lines s ++ lines t := by
  rcases ends.cases with rfl | ⟨front, rfl⟩
  · rfl
  · rw [List.append_assoc, List.singleton_append, lines_feed, lines_feed]
    simp [lines, split, linesOfPieces]

theorem mem_numberedLines {number : Nat} {line : List Char} :
    (number, line) ∈ numberedLines s ↔ ∃ i, (lines s)[i]? = some line ∧ number = i + 1 := by
  simp only [numberedLines, numbered, List.mem_map, Prod.mk.injEq, Prod.exists, List.mem_zipIdx_iff_getElem?]
  constructor
  · rintro ⟨line, i, held, rfl, rfl⟩
    exact ⟨i, held, rfl⟩
  · rintro ⟨i, held, rfl⟩
    exact ⟨line, i, held, rfl, rfl⟩

theorem pairwise_numberedLines (s : List Char) : (numberedLines s).Pairwise fun a b => a.1 < b.1 := by
  have numbers : ((lines s).zipIdx.map Prod.snd).Pairwise (· < ·) := by
    rw [List.zipIdx_map_snd]
    exact List.pairwise_lt_range'
  rw [List.pairwise_map] at numbers
  rw [numberedLines, numbered, List.pairwise_map]
  exact numbers.imp fun lt => Nat.succ_lt_succ lt

theorem not_feed {line : List Char} (open_ : '\n' ∉ line) : ∀ c ∈ line, (c == '\n') = false :=
  fun _ member => beq_eq_false_iff_ne.mpr fun same => open_ (same ▸ member)

theorem lines_of_free {line : List Char} (some : line ≠ []) (open_ : '\n' ∉ line) : lines line = [line] := by
  rw [lines, split_of_free (not_feed open_), linesOfPieces, if_neg (by simpa using some)]

theorem lines_line {line : List Char} (open_ : '\n' ∉ line) : lines (line ++ ['\n']) = [dropReturn line] := by
  rw [lines_feed, split_of_free (not_feed open_)]
  rfl

theorem lines_head? {c : Char} (text : List Char) (feed : c ≠ '\n') (return_ : c ≠ '\r') :
    ∃ line, (lines (c :: text)).head? = some (c :: line) := by
  have begins : ∃ piece pieces, split (· == '\n') (c :: text) = (c :: piece) :: pieces := by
    rw [split, if_neg (by simpa using feed)]
    cases split (· == '\n') text with
    | nil => exact ⟨[], [], rfl⟩
    | cons piece pieces => exact ⟨piece, pieces, rfl⟩
  obtain ⟨piece, pieces, cut⟩ := begins
  rw [lines, cut]
  cases pieces with
  | nil => exact ⟨piece, rfl⟩
  | cons next more =>
    change ∃ line, some (dropReturn (c :: piece)) = some (c :: line)
    unfold dropReturn
    split
    · rename_i ends
      cases piece with
      | nil => exact absurd (Option.some.inj ends) return_
      | cons d piece => exact ⟨(d :: piece).dropLast, rfl⟩
    · exact ⟨piece, rfl⟩

theorem length_split (s : List Char) : (split (· == '\n') s).length = s.count '\n' + 1 := by
  induction s with
  | nil => rfl
  | cons c s ih =>
    rw [split]
    by_cases feed : c = '\n'
    · simp [feed, ih]
    · have other : (c == '\n') = false := by simpa using feed
      rw [other, if_neg (by simp), List.count_cons, other, if_neg (by simp), Nat.add_zero, ← ih]
      cases cut : split (· == '\n') s with
      | nil => exact absurd cut (split_ne_nil _ s)
      | cons piece pieces => simp

theorem length_lines (ends : EndsLine s.getLast?) : (lines s).length = s.count '\n' := by
  rcases ends.cases with rfl | ⟨front, rfl⟩
  · rfl
  · rw [lines_feed, List.length_append, List.length_map, length_split, List.count_append]
    rfl

section Starts

theorem lt_of_mem_laterLineStarts {offset start : Nat} (member : start ∈ laterLineStarts offset s) : offset < start := by
  induction s generalizing offset with
  | nil => cases member
  | cons c s ih =>
    have positive := c.utf8Size_pos
    rw [laterLineStarts] at member
    split at member
    · rcases List.mem_cons.mp member with rfl | later
      · omega
      · exact Nat.lt_trans (by omega) (ih later)
    · exact Nat.lt_trans (by omega) (ih member)

theorem pairwise_laterLineStarts (offset : Nat) (s : List Char) : (laterLineStarts offset s).Pairwise (· < ·) := by
  induction s generalizing offset with
  | nil => exact .nil
  | cons c s ih =>
    rw [laterLineStarts]
    split
    · exact .cons (fun _ => lt_of_mem_laterLineStarts) (ih _)
    · exact ih _

theorem pairwise_starts (s : List Char) : (LineIndex.ofText s).starts.Pairwise (· < ·) :=
  .cons (fun _ => lt_of_mem_laterLineStarts) (pairwise_laterLineStarts 0 s)

theorem countP_laterLineStarts (limit offset : Nat) (s : List Char) :
    (laterLineStarts offset s).countP (· ≤ limit) = feedsBelow limit offset s := by
  induction s generalizing offset with
  | nil => rfl
  | cons c s ih =>
    by_cases h : c = '\n'
    · subst h
      have one : '\n'.utf8Size = 1 := by decide
      simp only [laterLineStarts, feedsBelow, if_true, List.countP_cons, ih, one, true_and,
        decide_eq_true_eq, Nat.succ_le_iff]
      omega
    · simp [laterLineStarts, feedsBelow, h, ih]

theorem lineOf_ofText (s : List Char) (offset : Nat) :
    (LineIndex.ofText s).lineOf offset = 1 + feedsBelow offset 0 s := by
  have searched : (LineIndex.ofText s).starts.countP (· ≤ offset) = (LineIndex.ofText s).lineOf offset :=
    Bisection.countP_le_eq_search (pairwise_starts s) offset
  rw [← searched, LineIndex.ofText, List.countP_cons, countP_laterLineStarts, Nat.add_comm]
  simp

theorem one_le_lineOf (s : List Char) (offset : Nat) : 1 ≤ (LineIndex.ofText s).lineOf offset := by
  rw [lineOf_ofText]
  exact Nat.le_add_right 1 _

end Starts

section Feeds

variable {limit offset : Nat}

theorem feedsBelow_append (limit offset : Nat) (s t : List Char) :
    feedsBelow limit offset (s ++ t) = feedsBelow limit offset s + feedsBelow limit (offset + byteLength s) t := by
  induction s generalizing offset with
  | nil => simp [feedsBelow]
  | cons c s ih => simp only [List.cons_append, feedsBelow, ih, byteLength_cons, Nat.add_assoc]

theorem feedsBelow_eq_zero (behind : limit ≤ offset) (s : List Char) : feedsBelow limit offset s = 0 := by
  induction s generalizing offset with
  | nil => rfl
  | cons c s ih =>
    have later : ¬ (c = '\n' ∧ offset < limit) := fun h => by omega
    rw [feedsBelow, if_neg later, ih (by omega)]

theorem feedsBelow_eq_count (above : offset + byteLength s ≤ limit) : feedsBelow limit offset s = s.count '\n' := by
  induction s generalizing offset with
  | nil => rfl
  | cons c s ih =>
    have positive := c.utf8Size_pos
    rw [byteLength_cons] at above
    rw [feedsBelow, ih (by omega), List.count_cons, Nat.add_comm]
    have earlier : offset < limit := by omega
    simp [earlier]

theorem feedsBelow_le_count (limit offset : Nat) (s : List Char) : feedsBelow limit offset s ≤ s.count '\n' := by
  induction s generalizing offset with
  | nil => exact Nat.le_refl 0
  | cons c s ih =>
    have rest := ih (offset + c.utf8Size)
    rw [feedsBelow, List.count_cons]
    by_cases feed : c = '\n'
    · simp only [feed, true_and, beq_self_eq_true, if_true]
      split <;> (subst feed; omega)
    · simp only [feed, false_and, if_false]
      omega

theorem feedsBelow_add (n limit offset : Nat) (s : List Char) :
    feedsBelow (n + limit) (n + offset) s = feedsBelow limit offset s := by
  induction s generalizing offset with
  | nil => rfl
  | cons c s ih => simp only [feedsBelow, Nat.add_lt_add_iff_left, Nat.add_assoc, ih]

end Feeds

theorem lineOf_of_free (free : '\n' ∉ s) (offset : Nat) : (LineIndex.ofText s).lineOf offset = 1 := by
  have none := feedsBelow_le_count offset 0 s
  rw [List.count_eq_zero.mpr free] at none
  rw [lineOf_ofText, Nat.le_zero.mp none]

theorem lineOf_line {line : List Char} {offset : Nat} (open_ : '\n' ∉ line) (inside : offset < byteLength (line ++ ['\n'])) :
    (LineIndex.ofText (line ++ ['\n'])).lineOf offset = 1 := by
  have none := feedsBelow_le_count offset 0 line
  rw [List.count_eq_zero.mpr open_] at none
  have one : byteLength ['\n'] = 1 := by decide
  rw [byteLength_append, one] at inside
  rw [lineOf_ofText, feedsBelow_append, Nat.le_zero.mp none, feedsBelow_eq_zero (by omega)]

theorem lineOf_append_of_lt {offset : Nat} (ends : EndsLine s.getLast?) (inside : offset < byteLength s) (t : List Char) :
    (LineIndex.ofText (s ++ t)).lineOf offset = (LineIndex.ofText s).lineOf offset ∧
      (LineIndex.ofText s).lineOf offset ≤ (lines s).length := by
  rw [lineOf_ofText, lineOf_ofText, feedsBelow_append, feedsBelow_eq_zero (by omega) t, length_lines ends]
  refine ⟨rfl, ?_⟩
  rcases ends.cases with rfl | ⟨front, rfl⟩
  · simp at inside
  · rw [byteLength_append] at inside
    have one : byteLength ['\n'] = 1 := by decide
    have before := feedsBelow_le_count offset 0 front
    rw [feedsBelow_append, feedsBelow_eq_zero (by omega) ['\n'], List.count_append]
    simp
    omega

theorem lineOf_append_add (ends : EndsLine s.getLast?) (t : List Char) (offset : Nat) :
    (LineIndex.ofText (s ++ t)).lineOf (byteLength s + offset) = (lines s).length + (LineIndex.ofText t).lineOf offset := by
  have own : feedsBelow (byteLength s + offset) 0 s = s.count '\n' := feedsBelow_eq_count (by omega)
  have further := feedsBelow_add (byteLength s) offset 0 t
  rw [lineOf_ofText, lineOf_ofText, feedsBelow_append, own, length_lines ends, Nat.zero_add, ← further, Nat.add_zero]
  omega

end Text

end Conformance
