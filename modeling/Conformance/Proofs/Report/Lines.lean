import Conformance.Proofs.Text.OneLine
import Conformance.Report.Render
import Conformance.Text.Pieces

namespace Conformance

namespace Text

def unlines (ls : List (List Char)) : List Char :=
  ls.flatMap (· ++ ['\n'])

theorem unlines_append (first second : List (List Char)) : unlines (first ++ second) = unlines first ++ unlines second :=
  List.flatMap_append

theorem split_unlines {ls : List (List Char)} (free : ∀ l ∈ ls, '\n' ∉ l) : split (· == '\n') (unlines ls) = ls ++ [[]] := by
  induction ls with
  | nil => rfl
  | cons l ls ih =>
    have first : unlines (l :: ls) = l ++ '\n' :: unlines ls := by simp [unlines]
    have own : ∀ c ∈ l, (c == '\n') = false := by
      intro c member
      have apart : c ≠ '\n' := fun same => free l (by simp) (same ▸ member)
      simpa using apart
    rw [first, split_append_stop (by simp), split_of_free own, ih fun l' member => free l' (by simp [member])]
    rfl

end Text

def Hangs (s : String) : Prop :=
  ∃ (first : List Char) (rest : List (List Char)), s.toList = first ++ rest.flatMap ('\n' :: ·) ∧ '\n' ∉ first ∧
    ∀ l ∈ rest, '\n' ∉ l ∧ l.head? = some ' '

def CheckResult.markLine (r : CheckResult) : List Char :=
  (if r.passed then s!"✓ {r.name}: clean" else s!"✗ {r.name}: {r.violations.length} violation(s)").toList

def isMarked (line : List Char) : Bool :=
  line.head? == some '✓' || line.head? == some '✗'

def isQuiet (line : List Char) : Bool :=
  line.isEmpty || line.head? == some ' '

theorem not_isMarked_of_isQuiet {line : List Char} (quiet : isQuiet line = true) : isMarked line = false := by
  cases line with
  | nil => rfl
  | cons c line =>
    obtain rfl : c = ' ' := by simpa [isQuiet] using quiet
    rfl

namespace Report

def linesOf (text : String) : List (List Char) :=
  Text.split (· == '\n') text.toList

def titleLines : List (List Char) :=
  [[], "=== Architecture Enforcement ===".toList, []]

def warningLine (f : Freshness) : List Char :=
  s!"⚠ Quality grades freshness: {f.message}".toList

def verdictLine (results : List CheckResult) : List Char :=
  let failed := CheckResult.failures results
  let total := results.length
  let violations := CheckResult.totalViolations results
  (if failed = 0 then s!"All {total}/{total} checks passed."
    else s!"{failed}/{total} check(s) failed with {violations} total violation(s).").toList

def closingLines (results : List CheckResult) : List (List Char) :=
  [[], "--- Summary ---".toList, [], verdictLine results, [], []]

/-- No line of the plain report is taken for one that the report itself writes: the marked lines are those of
the results in their order, and between the title and the last words every other line is empty, begins with a
space, or is the warning about the quality report. -/
def Unforged (results : List CheckResult) (freshness : Freshness) : Prop :=
  (linesOf (render false results freshness)).filter isMarked = results.map CheckResult.markLine ∧
    ∃ body, linesOf (render false results freshness) = titleLines ++ body ++ closingLines results ∧
      ∀ l ∈ body, isMarked l = true ∨ isQuiet l = true ∨ freshness.stale = true ∧ l = warningLine freshness

structure Prints (pieces : List Conformance.Piece) (ls : List (List Char)) : Prop where
  text : (Piece.renderAll false pieces).toList = Text.unlines ls
  free : ∀ l ∈ ls, '\n' ∉ l

namespace Prints

variable {pieces more : List Conformance.Piece} {ls ls' : List (List Char)}

theorem nil : Prints [] [] :=
  ⟨by simp [Piece.renderAll, Text.unlines], by simp⟩

theorem append (first : Prints pieces ls) (second : Prints more ls') : Prints (pieces ++ more) (ls ++ ls') where
  text := by
    rw [Text.unlines_append, ← first.text, ← second.text]
    simp [Piece.renderAll]
  free := by
    intro l member
    exact (List.mem_append.mp member).elim (first.free l) (second.free l)

end Prints

def PrintsQuietly (pieces : List Conformance.Piece) : Prop :=
  ∃ ls, Prints pieces ls ∧ ∀ l ∈ ls, isQuiet l = true

namespace PrintsQuietly

variable {pieces more : List Conformance.Piece}

theorem append (first : PrintsQuietly pieces) (second : PrintsQuietly more) : PrintsQuietly (pieces ++ more) := by
  obtain ⟨ls, prints, quiet⟩ := first
  obtain ⟨ls', prints', quiet'⟩ := second
  refine ⟨ls ++ ls', prints.append prints', ?_⟩
  intro l member
  exact (List.mem_append.mp member).elim (quiet l) (quiet' l)

theorem flatMap {α : Type} {items : List α} {pieces : α → List Conformance.Piece}
    (each : ∀ x ∈ items, PrintsQuietly (pieces x)) : PrintsQuietly (items.flatMap pieces) := by
  induction items with
  | nil => exact ⟨[], .nil, by simp⟩
  | cons x items ih => exact (each x (by simp)).append (ih fun y member => each y (by simp [member]))

end PrintsQuietly

theorem flatMap_line (first : List Char) (rest : List (List Char)) :
    first ++ rest.flatMap ('\n' :: ·) ++ ['\n'] = Text.unlines (first :: rest) := by
  induction rest generalizing first with
  | nil => simp [Text.unlines]
  | cons next rest ih =>
    have behind := ih next
    simp only [Text.unlines, List.flatMap_cons, List.append_assoc, List.cons_append, List.nil_append] at behind ⊢
    rw [behind]

theorem printsQuietly_violation {v : String} (hangs : Hangs v) :
    PrintsQuietly [⟨"  ", none⟩, ⟨v, some .dimmed⟩, ⟨"\n", none⟩] := by
  obtain ⟨first, rest, whole, free, others⟩ := hangs
  refine ⟨(' ' :: ' ' :: first) :: rest, ⟨?_, ?_⟩, ?_⟩
  · rw [← flatMap_line]
    simp [Piece.renderAll, Piece.render, whole]
  · intro l member
    rcases List.mem_cons.mp member with rfl | member
    · simpa using free
    · exact (others l member).1
  · intro l member
    rcases List.mem_cons.mp member with rfl | member
    · rfl
    · simp [isQuiet, (others l member).2]

theorem prints_header : Prints header titleLines where
  text := by simp [Piece.renderAll, header, Piece.render, titleLines, Text.unlines]
  free := by simp [titleLines]

theorem prints_warning {f : Freshness} (free : OneLine f.message) (stale : f.stale = true) :
    Prints (warning f) [[], warningLine f] where
  text := by simp [Piece.renderAll, warning, stale, Piece.render, warningLine, Text.unlines, toString]
  free := by
    have message : '\n' ∉ f.message.toList := free
    simp [warningLine, toString, message]

theorem prints_summary (results : List CheckResult) :
    Prints (summary results) [[], "--- Summary ---".toList, [], verdictLine results, []] := by
  by_cases passed : CheckResult.failures results = 0
  · refine ⟨?_, ?_⟩
    · simp [Piece.renderAll, summary, passed, Piece.render, verdictLine, Text.unlines, toString]
    · simp [verdictLine, passed, toString, Text.newline_not_mem_toDigits]
  · refine ⟨?_, ?_⟩
    · simp [Piece.renderAll, summary, passed, Piece.render, verdictLine, Text.unlines, toString]
    · simp [verdictLine, passed, toString, Text.newline_not_mem_toDigits]

theorem isMarked_markLine (r : CheckResult) : isMarked r.markLine = true := by
  cases passed : r.passed <;> simp [CheckResult.markLine, passed, toString, isMarked]

/-- The lines of a result: its own line, and below it lines that are empty or begin with a space. -/
theorem prints_result {r : CheckResult} (name : OneLine r.name) (each : ∀ v ∈ r.violations, Hangs v) :
    ∃ below, Prints (result r) (r.markLine :: below) ∧ ∀ l ∈ below, isQuiet l = true := by
  have nameFree : '\n' ∉ r.name.toList := name
  cases passed : r.passed with
  | true =>
    refine ⟨[], ⟨?_, ?_⟩, by simp⟩
    · simp [Piece.renderAll, result, passed, Piece.render, CheckResult.markLine, Text.unlines, toString]
    · simp [CheckResult.markLine, passed, toString, nameFree]
  | false =>
    have head : Prints [⟨"✗", some .red⟩, ⟨s!" {r.name}: ", none⟩, ⟨s!"{r.violations.length} violation(s)", some .red⟩,
        ⟨"\n\n", none⟩] [r.markLine, []] := by
      refine ⟨?_, ?_⟩
      · simp [Piece.renderAll, Piece.render, CheckResult.markLine, passed, Text.unlines, toString]
      · simp [CheckResult.markLine, passed, toString, nameFree, Text.newline_not_mem_toDigits]
    have listed := PrintsQuietly.flatMap fun v member => printsQuietly_violation (each v member)
    have last : PrintsQuietly [⟨"\n", none⟩] :=
      ⟨[[]], ⟨by simp [Piece.renderAll, Piece.render, Text.unlines], by simp⟩, by simp [isQuiet]⟩
    obtain ⟨below, prints, quiet⟩ := listed.append last
    refine ⟨[] :: below, ?_, ?_⟩
    · have whole := head.append prints
      simpa [result, passed] using whole
    · intro l member
      rcases List.mem_cons.mp member with rfl | member
      · rfl
      · exact quiet l member

/-- The lines of results: one marked line each, in their order, between lines that are empty or begin with a
space. -/
theorem prints_results {results : List CheckResult}
    (each : ∀ r ∈ results, OneLine r.name ∧ ∀ v ∈ r.violations, Hangs v) :
    ∃ ls, Prints (results.flatMap result) ls ∧ ls.filter isMarked = results.map CheckResult.markLine ∧
      ∀ l ∈ ls, isMarked l = true ∨ isQuiet l = true := by
  induction results with
  | nil => exact ⟨[], .nil, rfl, by simp⟩
  | cons r results ih =>
    obtain ⟨name, violations⟩ := each r (by simp)
    obtain ⟨below, prints, quiet⟩ := prints_result name violations
    obtain ⟨ls, others, marked, kinds⟩ := ih fun r' member => each r' (by simp [member])
    have unmarked : below.filter isMarked = [] :=
      List.filter_eq_nil_iff.mpr fun l member => by simp [not_isMarked_of_isQuiet (quiet l member)]
    refine ⟨r.markLine :: below ++ ls, prints.append others, ?_, ?_⟩
    · rw [List.filter_append, List.filter_cons, if_pos (isMarked_markLine r), unmarked, marked]
      rfl
    · intro l member
      rcases List.mem_append.mp member with member | member
      · rcases List.mem_cons.mp member with rfl | member
        · exact Or.inl (isMarked_markLine r)
        · exact Or.inr (quiet l member)
      · exact kinds l member

theorem not_isMarked_of_mem_titleLines : ∀ l ∈ titleLines, isMarked l = false := by
  simp [titleLines, isMarked]

theorem not_isMarked_of_mem_closingLines (results : List CheckResult) : ∀ l ∈ closingLines results, isMarked l = false := by
  have digit : ∀ n : Nat, ∀ s : List Char, isMarked (Nat.toDigits 10 n ++ s) = false := by
    intro n s
    cases digits : Nat.toDigits 10 n with
    | nil => exact absurd digits (Nat.toDigits_ne_nil)
    | cons c more =>
      have inside : c ∈ Nat.toDigits 10 n := by rw [digits]; exact List.mem_cons_self
      have shown := Nat.isDigit_of_mem_toDigits (by decide) (by decide) inside
      have check : c ≠ '✓' := by rintro rfl; revert shown; decide
      have cross : c ≠ '✗' := by rintro rfl; revert shown; decide
      simp [isMarked, check, cross]
  have verdict : isMarked (verdictLine results) = false := by
    by_cases passed : CheckResult.failures results = 0
    · simp [verdictLine, passed, toString, isMarked]
    · simp only [verdictLine, if_neg passed, toString]
      simpa using digit _ _
  have others : ∀ l ∈ ([[], "--- Summary ---".toList] : List (List Char)), isMarked l = false := by simp [isMarked]
  intro l member
  simp only [closingLines, List.mem_cons, List.not_mem_nil, or_false] at member others
  rcases member with rfl | rfl | rfl | rfl | rfl | rfl
  · rfl
  · exact others _ (Or.inr rfl)
  · rfl
  · exact verdict
  · rfl
  · rfl

theorem prints_freshness {f : Freshness} (free : OneLine f.message) :
    ∃ ls, Prints (warning f) ls ∧ ls.filter isMarked = [] ∧
      ∀ l ∈ ls, isQuiet l = true ∨ f.stale = true ∧ l = warningLine f := by
  cases stale : f.stale with
  | true =>
    refine ⟨_, prints_warning free stale, ?_, by simp [isQuiet]⟩
    simp [warningLine, isMarked, toString]
  | false =>
    have none : warning f = [] := by simp [warning, stale]
    exact ⟨[], none ▸ .nil, rfl, by simp⟩

/-- The report on results whose names are on one line and whose violations hang. -/
theorem unforged_of_hangs {results : List CheckResult} {freshness : Freshness}
    (each : ∀ r ∈ results, OneLine r.name ∧ ∀ v ∈ r.violations, Hangs v) (message : OneLine freshness.message) :
    Unforged results freshness := by
  obtain ⟨ls, prints, marked, kinds⟩ := prints_results each
  obtain ⟨more, advises, unmarked, others⟩ := prints_freshness message
  have whole := ((prints_header.append prints).append advises).append (prints_summary results)
  have cut : linesOf (render false results freshness) = titleLines ++ (ls ++ more) ++ closingLines results := by
    rw [linesOf, show render false results freshness = Piece.renderAll false _ from rfl, pieces, whole.text,
      Text.split_unlines whole.free]
    simp [closingLines]
  refine ⟨?_, ls ++ more, cut, ?_⟩
  · have title : titleLines.filter isMarked = [] :=
      List.filter_eq_nil_iff.mpr fun l member => by simp [not_isMarked_of_mem_titleLines l member]
    have closing : (closingLines results).filter isMarked = [] :=
      List.filter_eq_nil_iff.mpr fun l member => by simp [not_isMarked_of_mem_closingLines results l member]
    rw [cut, List.filter_append, List.filter_append, List.filter_append, title, closing, marked, unmarked]
    simp
  · intro l member
    rcases List.mem_append.mp member with member | member
    · exact (kinds l member).imp_right Or.inl
    · exact Or.inr (others l member)

theorem exists_line_of_infix {text : String} {c : Char} (visible : c ≠ '\n') (inside : ['\n', c] <:+: text.toList) :
    ∃ line ∈ linesOf text, line.head? = some c := by
  obtain ⟨front, back, whole⟩ := inside
  have parted : linesOf text = Text.split (· == '\n') front ++ Text.split (· == '\n') (c :: back) := by
    have joined : front ++ ['\n', c] ++ back = front ++ '\n' :: c :: back := by simp
    rw [linesOf, ← whole, joined, Text.split_append_stop (by simp)]
  have stop : (c == '\n') = false := by simpa using visible
  cases later : Text.split (· == '\n') back with
  | nil => exact absurd later (Text.split_ne_nil _ _)
  | cons line lines =>
    refine ⟨c :: line, ?_, rfl⟩
    rw [parted, Text.split, stop, later]
    simp

theorem text_infix_of_mem {pieces : List Conformance.Piece} {piece : Conformance.Piece} (member : piece ∈ pieces) :
    piece.text.toList <:+: (Piece.renderAll false pieces).toList := by
  obtain ⟨front, back, rfl⟩ := List.append_of_mem member
  refine ⟨(Piece.renderAll false front).toList, (Piece.renderAll false back).toList, ?_⟩
  simp [Piece.renderAll, Piece.render]

/-- A violation that has a check mark behind a line feed adds a line that belongs to no check, if none passed. -/
theorem not_unforged_of_infix {results : List CheckResult} {freshness : Freshness}
    (failed : ∀ r ∈ results, r.passed = false) {r : CheckResult} (member : r ∈ results) {v : String}
    (listed : v ∈ r.violations) (forges : ['\n', '✓'] <:+: v.toList) : ¬ Unforged results freshness := by
  intro honest
  have piece : (⟨v, some .dimmed⟩ : Conformance.Piece) ∈ pieces results freshness := by
    have own : (⟨v, some .dimmed⟩ : Conformance.Piece) ∈ result r := by
      have shown : (⟨v, some .dimmed⟩ : Conformance.Piece) ∈
          r.violations.flatMap fun v => [⟨"  ", none⟩, ⟨v, some .dimmed⟩, ⟨"\n", none⟩] :=
        List.mem_flatMap.mpr ⟨v, listed, by simp⟩
      rw [result, failed r member]
      exact List.mem_append_left _ (List.mem_append_right _ shown)
    have among := List.mem_flatMap.mpr ⟨r, member, own⟩
    exact List.mem_append_left _ (List.mem_append_left _ (List.mem_append_right _ among))
  have shown := text_infix_of_mem piece
  obtain ⟨line, inside, head⟩ := exists_line_of_infix (by decide) (forges.trans shown)
  have marked : line ∈ (linesOf (render false results freshness)).filter isMarked :=
    List.mem_filter.mpr ⟨inside, by simp [isMarked, head]⟩
  rw [honest.1] at marked
  obtain ⟨r', other, rfl⟩ := List.mem_map.mp marked
  simp [CheckResult.markLine, failed r' other, toString] at head

end Report

end Conformance
