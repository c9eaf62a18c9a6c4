import Conformance.Proofs.Report.Lines
import Conformance.Proofs.Text.Lines
import Mathlib.Data.List.Nodup

namespace Conformance

variable {α β : Type}

/-- The items with others put in: `gaps n` in front of item `n`, and the last of them behind all. The first item is
counted as `n`. -/
def withGaps (gaps : Nat → List α) : Nat → List α → List α
  | n, [] => gaps n
  | n, a :: rest => gaps n ++ a :: withGaps gaps (n + 1) rest

def putInBefore (gaps : Nat → List α) : Nat → Nat
  | 0 => 0
  | n + 1 => putInBefore gaps n + (gaps (n + 1)).length

def withLaterGaps (gaps : Nat → List α) (n : Nat) : List α → List α
  | [] => []
  | a :: rest => a :: withGaps gaps (n + 1) rest

theorem withGaps_eq (gaps : Nat → List α) (n : Nat) (items : List α) :
    withGaps gaps n items = gaps n ++ withLaterGaps gaps n items := by
  cases items with
  | nil => exact (List.append_nil _).symm
  | cons a rest => rfl

theorem withGaps_nil {gaps : Nat → List α} {n : Nat} (none : ∀ m ≥ n, gaps m = []) (items : List α) :
    withGaps gaps n items = items := by
  induction items generalizing n with
  | nil => exact none n (Nat.le_refl n)
  | cons a items ih =>
    have onward := ih fun m later => none m (Nat.le_of_succ_le later)
    simp [withGaps, none n (Nat.le_refl n), onward]

theorem filter_withGaps {gaps : Nat → List α} {keep : α → Bool} (none : ∀ n, ∀ a ∈ gaps n, keep a = false) (n : Nat)
    (items : List α) : (withGaps gaps n items).filter keep = items.filter keep := by
  have passed : ∀ n, (gaps n).filter keep = [] := fun n => List.filter_eq_nil_iff.mpr (by simpa using none n)
  induction items generalizing n with
  | nil => exact passed n
  | cons a items ih => rw [withGaps, List.filter_append, passed, List.nil_append, List.filter_cons, ih, List.filter_cons]

namespace Text

/-- What is found in items by themselves, with their numbers, when the first item has the number `k + 1`. -/
def foundFrom (look : α → Option β) (k : Nat) (items : List α) : List (Nat × β) :=
  (items.zipIdx k).filterMap fun (a, i) => (look a).map (i + 1, ·)

variable {look : α → Option β}

theorem foundFrom_cons (k : Nat) (a : α) (items : List α) :
    foundFrom look k (a :: items) = ((look a).map (k + 1, ·)).toList ++ foundFrom look (k + 1) items := by
  cases own : look a <;> simp [foundFrom, own]

theorem foundFrom_append (k : Nat) (front back : List α) :
    foundFrom look k (front ++ back) = foundFrom look k front ++ foundFrom look (k + front.length) back := by
  rw [foundFrom, List.zipIdx_append, List.filterMap_append]
  rfl

theorem foundFrom_eq_nil {items : List α} (none : ∀ a ∈ items, look a = Option.none) (k : Nat) :
    foundFrom look k items = [] := by
  rw [foundFrom, List.filterMap_eq_nil_iff]
  rintro ⟨a, i⟩ member
  change (look a).map _ = Option.none
  rw [none a (List.fst_mem_of_mem_zipIdx member), Option.map_none]

def raised (gaps : Nat → List α) (x : Nat × β) : Nat × β :=
  (x.1 + putInBefore gaps x.1, x.2)

theorem foundFrom_withGaps {gaps : Nat → List α} (none : ∀ n, ∀ a ∈ gaps n, look a = Option.none) (k : Nat)
    (items : List α) : foundFrom look (k + putInBefore gaps k) (withGaps gaps (k + 1) items) =
      (foundFrom look k items).map (raised gaps) := by
  induction items generalizing k with
  | nil => exact foundFrom_eq_nil (none (k + 1)) _
  | cons a items ih =>
    have further : k + putInBefore gaps k + (gaps (k + 1)).length + 1 = k + 1 + putInBefore gaps (k + 1) := by
      rw [putInBefore]
      omega
    rw [withGaps, foundFrom_append, foundFrom_eq_nil (none (k + 1)), List.nil_append, foundFrom_cons, further, ih,
      foundFrom_cons, List.map_append]
    cases look a with
    | none => rfl
    | some b => rfl

theorem of_mem_foundFrom {k : Nat} {items : List α} {x : Nat × β} (member : x ∈ foundFrom look k items) :
    ∃ i a, items[i]? = some a ∧ look a = some x.2 ∧ x.1 = k + i + 1 := by
  induction items generalizing k with
  | nil => cases member
  | cons a items ih =>
    rw [foundFrom_cons, List.mem_append] at member
    rcases member with here | later
    · obtain ⟨b, own, rfl⟩ := Option.map_eq_some_iff.mp (Option.mem_toList.mp here)
      exact ⟨0, a, rfl, own, rfl⟩
    · obtain ⟨i, c, held, own, number⟩ := ih later
      exact ⟨i + 1, c, held, own, by omega⟩

theorem pairwise_foundFrom (look : α → Option β) (k : Nat) (items : List α) :
    (foundFrom look k items).Pairwise fun x y => x.1 < y.1 := by
  induction items generalizing k with
  | nil => exact .nil
  | cons a items ih =>
    rw [foundFrom_cons]
    cases look a with
    | none => exact ih (k + 1)
    | some b =>
      refine List.pairwise_cons.mpr ⟨fun y later => ?_, ih (k + 1)⟩
      obtain ⟨i, _, _, _, number⟩ := of_mem_foundFrom later
      dsimp only
      omega

section Lines

variable {gaps : Nat → List (List Char)}

def withLinesBelow (gaps : Nat → List (List Char)) : Nat → List Char → List Char
  | _, [] => []
  | n, c :: s =>
    if c = '\n' then c :: (unlines (gaps (n + 1)) ++ withLinesBelow gaps (n + 1) s) else c :: withLinesBelow gaps n s

/-- The text with lines put in: `gaps n` in front of line `n`, or behind the last line if a line feed ends it. -/
def withLines (gaps : Nat → List (List Char)) (text : List Char) : List Char :=
  unlines (gaps 1) ++ withLinesBelow gaps 1 text

theorem endsLine_unlines (ls : List (List Char)) : EndsLine (unlines ls).getLast? := by
  induction ls with
  | nil => rintro c ⟨⟩
  | cons l ls ih =>
    have whole : unlines (l :: ls) = l ++ '\n' :: unlines ls := by simp [unlines]
    rw [whole, List.getLast?_append, List.getLast?_cons]
    intro c last
    cases rest : (unlines ls).getLast? with
    | none => simpa [rest, eq_comm] using last
    | some d =>
      obtain rfl : d = c := by simpa [rest] using last
      exact ih d rest

theorem lines_unlines {ls : List (List Char)} (free : ∀ l ∈ ls, '\n' ∉ l) : lines (unlines ls) = ls.map dropReturn := by
  rw [lines, split_unlines free, linesOfPieces_append (by simp)]
  simp [linesOfPieces]

theorem split_of_open {s : List Char} (open_ : '\n' ∉ s) : split (· == '\n') s = [s] := by
  refine split_of_free fun c member => beq_eq_false_iff_ne.mpr ?_
  rintro rfl
  exact open_ member

theorem lines_of_open {s : List Char} (open_ : '\n' ∉ s) : lines s = if s.isEmpty then [] else [s] := by
  rw [lines, split_of_open open_]
  rfl

theorem lines_open_feed {s : List Char} (open_ : '\n' ∉ s) (t : List Char) :
    lines (s ++ '\n' :: t) = dropReturn s :: lines t := by
  rw [lines_feed, split_of_open open_]
  rfl

/-- What is on line `n` so far is `pre`. -/
theorem lines_withLinesBelow (free : ∀ n, ∀ l ∈ gaps n, '\n' ∉ l) (pre : List Char) (open_ : '\n' ∉ pre) (n : Nat)
    (s : List Char) (ends : EndsLine (pre ++ s).getLast? ∨ gaps (n + (lines (pre ++ s)).length) = []) :
    lines (pre ++ withLinesBelow gaps n s) = withLaterGaps (fun n => (gaps n).map dropReturn) n (lines (pre ++ s)) := by
  induction s generalizing pre n with
  | nil =>
    rw [withLinesBelow, List.append_nil] at *
    rw [lines_of_open open_] at *
    cases pre with
    | nil => rfl
    | cons c pre =>
      have unended : ¬ EndsLine (c :: pre).getLast? := by
        intro ended
        rcases ended.cases with none | ⟨front, whole⟩
        · cases none
        · exact open_ (by simp [whole])
      have none : gaps (n + 1) = [] := ends.resolve_left unended
      simp [withLaterGaps, withGaps, none]
  | cons c s ih =>
    by_cases feed : c = '\n'
    · subst feed
      rw [lines_open_feed open_] at ends ⊢
      have ends' : EndsLine ([] ++ s).getLast? ∨ gaps (n + 1 + (lines ([] ++ s)).length) = [] := by
        rw [List.length_cons, ← Nat.add_assoc, Nat.add_right_comm] at ends
        refine ends.imp_left fun ended c last => ended c ?_
        rw [List.nil_append, Option.mem_def] at last
        simp [List.getLast?_append, List.getLast?_cons, last]
      rw [withLinesBelow, if_pos rfl, lines_open_feed open_, lines_append (endsLine_unlines _), lines_unlines (free _),
        withLaterGaps, withGaps_eq]
      exact congrArg (dropReturn pre :: (gaps (n + 1)).map dropReturn ++ ·) (ih [] (by simp) (n + 1) ends')
    · rw [withLinesBelow, if_neg feed, List.append_cons, List.append_cons pre c s]
      rw [List.append_cons pre c s] at ends
      exact ih (pre ++ [c]) (by simp [open_, Ne.symm feed]) n ends

theorem lines_withLines (free : ∀ n, ∀ l ∈ gaps n, '\n' ∉ l) {text : List Char}
    (ends : EndsLine text.getLast? ∨ gaps ((lines text).length + 1) = []) :
    lines (withLines gaps text) = withGaps (fun n => (gaps n).map dropReturn) 1 (lines text) := by
  rw [withLines, lines_append (endsLine_unlines _), lines_unlines (free 1), withGaps_eq]
  refine congrArg _ (lines_withLinesBelow free [] (by simp) 1 text (ends.imp_right fun none => ?_))
  rwa [Nat.add_comm]

end Lines

end Text

end Conformance
