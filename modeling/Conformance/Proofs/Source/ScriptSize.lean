import Conformance.Proofs.Source.ShellWords
import Conformance.Proofs.Text.PutIn
import Conformance.Proofs.Text.Trim
import Mathlib.Data.List.TakeWhile

namespace Conformance.Source.Script

section Cut

variable {q : Quoting} {s line : List Char} {c : Char}

theorem codeAfter_beginning (q : Quoting) (s : List Char) : codeAfter q s <+: s := by
  induction s generalizing q with
  | nil => exact List.prefix_rfl
  | cons c s ih =>
    rw [codeAfter]
    split
    · exact List.nil_prefix
    · exact List.cons_prefix_cons.mpr ⟨rfl, ih _⟩

theorem codeAfter_codeAfter (q : Quoting) (s : List Char) : codeAfter q (codeAfter q s) = codeAfter q s := by
  induction s generalizing q with
  | nil => rfl
  | cons c s ih =>
    rw [codeAfter]
    split
    · rfl
    · rename_i kept
      rw [codeAfter, if_neg kept, ih]

-- what stands behind a text is cut off with its comment, or kept
theorem codeAfter_concat (other : c ≠ '#') (q : Quoting) (s : List Char) :
    codeAfter q (s ++ [c]) = codeAfter q s ∨ codeAfter q (s ++ [c]) = codeAfter q s ++ [c] := by
  induction s generalizing q with
  | nil => exact Or.inr (keeps_char (fun hash => absurd hash other) rfl).codeAfter_eq
  | cons d s ih =>
    rw [List.cons_append, codeAfter, codeAfter]
    split
    · exact Or.inl rfl
    · exact (ih (q.next d)).imp (congrArg (d :: ·)) (congrArg (d :: ·))

theorem trim_concat (blank : Text.isBlank c = true) (s : List Char) : Text.trim (s ++ [c]) = Text.trim s := by
  have start : Text.trimStart (s ++ [c]) = Text.trimStart s ∨ Text.trimStart (s ++ [c]) = Text.trimStart s ++ [c] := by
    rw [Text.trimStart, Text.trimStart, List.dropWhile_append]
    split
    · rename_i none
      rw [List.isEmpty_iff.mp none]
      exact Or.inl (List.dropWhile_cons_of_pos blank)
    · exact Or.inr rfl
  rw [Text.trim, Text.trim]
  rcases start with same | longer
  · rw [same]
  · rw [longer, Text.trimEnd, List.reverse_concat, List.dropWhile_cons_of_pos blank]
    rfl

end Cut

/-- A line without code: it is blank, or its first character that is not blank is a `#`. -/
def Codeless (line : List Char) : Prop :=
  ∀ c ∈ (Text.trimStart line).head?, c = '#'

instance (line : List Char) : Decidable (Codeless line) :=
  decidable_of_iff ((Text.trimStart line).head?.all (· == '#') = true) (by simp [Codeless, Option.all_eq_true])

namespace Complexity

section Sums

variable (a b c : Complexity)

theorem add_eq : a + b = ⟨a.lines + b.lines, a.branches + b.branches, a.loops + b.loops⟩ := rfl

theorem zero_add : {} + a = a := by
  simp only [add_eq, Nat.zero_add]

theorem add_zero : a + {} = a := rfl

theorem add_assoc : a + b + c = a + (b + c) := by
  simp only [add_eq, Nat.add_assoc]

theorem estimate_add : (a + b).estimate = a.estimate + (b.branches + b.loops) := by
  simp only [add_eq, estimate]
  omega

end Sums

section Lines

variable {s t line : List Char} {ls : List (List Char)}

theorem foldl_ofLine (size : Complexity) (ls : List (List Char)) :
    ls.foldl (fun total line => total + ofLine line) size = size + ls.foldl (fun total line => total + ofLine line) {} := by
  induction ls generalizing size with
  | nil => rfl
  | cons line ls ih => rw [List.foldl_cons, List.foldl_cons, ih, ih ({} + ofLine line), zero_add, add_assoc]

theorem ofText_append (ends : EndsLine s.getLast?) (t : List Char) : ofText (s ++ t) = ofText s + ofText t := by
  rw [ofText, Text.lines_append ends, List.foldl_append, foldl_ofLine]
  rfl

theorem ofText_open (open_ : '\n' ∉ line) : ofText line = ofLine line := by
  rw [ofText, Text.lines_of_open open_]
  cases line with
  | nil => rfl
  | cons c line => exact zero_add _

theorem ofLine_of_trim (same : Text.trim (withoutComment s) = Text.trim (withoutComment t)) : ofLine s = ofLine t := by
  rw [ofLine, ofLine, same]

theorem ofLine_return (line : List Char) : ofLine (line ++ ['\r']) = ofLine line := by
  apply ofLine_of_trim
  rcases codeAfter_concat (c := '\r') (by decide) {} line with same | longer
  · exact congrArg Text.trim same
  · rw [withoutComment, longer]
    exact trim_concat (by decide) _

theorem ofLine_dropReturn (line : List Char) : ofLine (Text.dropReturn line) = ofLine line := by
  rw [Text.dropReturn]
  split
  · rename_i ends
    obtain ⟨front, rfl⟩ := List.getLast?_eq_some_iff.mp ends
    rw [List.dropLast_concat, ofLine_return]
  · rfl

theorem exists_lastLine (s : List Char) : ∃ front line, s = front ++ line ∧ EndsLine front.getLast? ∧ '\n' ∉ line := by
  induction s with
  | nil => exact ⟨[], [], rfl, nofun, nofun⟩
  | cons c s ih =>
    obtain ⟨front, line, rfl, ends, open_⟩ := ih
    cases front with
    | cons d front => exact ⟨c :: d :: front, line, rfl, by simpa [List.getLast?_cons] using ends, open_⟩
    | nil =>
      by_cases feed : c = '\n'
      · exact ⟨[c], line, rfl, by simp [EndsLine, feed], open_⟩
      · exact ⟨[], c :: line, rfl, nofun, by simp [open_, Ne.symm feed]⟩

theorem ofText_return (s : List Char) : ofText (s ++ ['\r']) = ofText s := by
  obtain ⟨front, line, rfl, ends, open_⟩ := exists_lastLine s
  have open' : '\n' ∉ line ++ ['\r'] := by simp [open_]
  rw [List.append_assoc, ofText_append ends, ofText_append ends, ofText_open open', ofText_open open_, ofLine_return]

theorem ofText_ended (s : List Char) : ofText (s ++ ['\n']) = ofText s := by
  obtain ⟨front, line, rfl, ends, open_⟩ := exists_lastLine s
  have last : ofText (line ++ ['\n']) = ofLine line := by
    rw [ofText, Text.lines_line open_, List.foldl_cons, List.foldl_nil, zero_add, ofLine_dropReturn]
  rw [List.append_assoc, ofText_append ends, ofText_append ends, last, ofText_open open_]

theorem ofText_feed (s t : List Char) : ofText (s ++ '\n' :: t) = ofText s + ofText t := by
  have ends : EndsLine (s ++ ['\n']).getLast? := by simp [EndsLine]
  rw [List.append_cons, ofText_append ends, ofText_ended]

theorem estimate_ofText (s : List Char) : (ofText s).estimate =
    1 + total ((Text.lines s).map fun line => (ofText line).branches + (ofText line).loops) := by
  have each : ∀ line ∈ Text.lines s, ofText line = ofLine line :=
    fun line member => ofText_open (Text.newline_not_mem_of_mem_lines member)
  rw [ofText]
  revert each
  generalize Text.lines s = ls
  intro each
  induction ls with
  | nil => rfl
  | cons line ls ih =>
    obtain ⟨own, others⟩ := List.forall_mem_cons.mp each
    have rest := ih others
    rw [List.foldl_cons, zero_add, foldl_ofLine]
    rw [estimate] at rest
    rw [List.map_cons, total_cons, own, estimate_add, estimate]
    omega

end Lines

end Complexity

/-- Two texts that differ only in whether line feeds have a carriage return in front. -/
inductive SwitchedEnds : List Char → List Char → Prop
  | done : SwitchedEnds [] []
  | same {s t : List Char} (c : Char) (rest : SwitchedEnds s t) : SwitchedEnds (c :: s) (c :: t)
  | gains {s t : List Char} (rest : SwitchedEnds s t) : SwitchedEnds ('\n' :: s) ('\r' :: '\n' :: t)
  | loses {s t : List Char} (rest : SwitchedEnds s t) : SwitchedEnds ('\r' :: '\n' :: s) ('\n' :: t)

namespace Complexity

variable {s t line : List Char} {ls : List (List Char)} {gaps : Nat → List (List Char)}

theorem ofText_returned (s t : List Char) : ofText (s ++ '\r' :: '\n' :: t) = ofText (s ++ '\n' :: t) := by
  rw [List.append_cons, ofText_feed, ofText_feed, ofText_return]

theorem ofText_switched (switched : SwitchedEnds s t) (front : List Char) : ofText (front ++ s) = ofText (front ++ t) := by
  induction switched generalizing front with
  | done => rfl
  | @same s t c _ ih =>
    rw [List.append_cons front c s, List.append_cons front c t]
    exact ih _
  | gains _ ih =>
    rw [ofText_returned, ofText_feed, ofText_feed]
    exact congrArg _ (ih [])
  | loses _ ih =>
    rw [ofText_returned, ofText_feed, ofText_feed]
    exact congrArg _ (ih [])

theorem keeps_blanks (blank : ∀ c ∈ s, Text.isBlank c = true) (b : Char) : Keeps (unquoted b) s (unquoted (lastOr b s)) := by
  induction s generalizing b with
  | nil => exact keeps_nil _
  | cons c s ih =>
    obtain ⟨own, others⟩ := List.forall_mem_cons.mp blank
    have solid : ∀ d ∈ ['#', '\'', '"'], Text.isBlank d = false := by decide
    have ordinary : c ≠ '#' ∧ c ≠ '\'' ∧ c ≠ '"' := by
      refine ⟨?_, ?_, ?_⟩ <;> rintro rfl <;> simp [solid] at own
    rw [lastOr_cons]
    exact (keeps_plain ordinary b).cons (ih others c)

theorem ofLine_codeless (codeless : Codeless line) : ofLine line = {} := by
  have whole : line = line.takeWhile Text.isBlank ++ Text.trimStart line := List.takeWhile_append_dropWhile.symm
  have blank : ∀ c ∈ line.takeWhile Text.isBlank, Text.isBlank c = true := fun c => List.mem_takeWhile_imp
  have cut : ∀ b, codeAfter (unquoted b) (Text.trimStart line) = [] := by
    intro b
    cases rest : Text.trimStart line with
    | nil => rfl
    | cons c rest' =>
      obtain rfl : c = '#' := codeless c (by simp [rest])
      rfl
  have code : withoutComment line = line.takeWhile Text.isBlank := by
    rw [whole, withoutComment]
    have keeps := keeps_blanks blank '\x00' (Text.trimStart line)
    rw [cut, List.append_nil] at keeps
    rwa [← whole] at keeps ⊢
  have none : Text.trim (withoutComment line) = Text.trim (withoutComment []) := by
    rw [code, Text.trim_eq_nil_iff.mpr blank]
    rfl
  exact ofLine_of_trim none

theorem ofText_unlines (codeless : ∀ line ∈ ls, '\n' ∉ line ∧ Codeless line) (t : List Char) :
    ofText (Text.unlines ls ++ t) = ofText t := by
  induction ls with
  | nil => rfl
  | cons line ls ih =>
    obtain ⟨⟨open_, own⟩, others⟩ := List.forall_mem_cons.mp codeless
    have first : Text.unlines (line :: ls) ++ t = line ++ '\n' :: (Text.unlines ls ++ t) := by simp [Text.unlines]
    rw [first, ofText_feed, ofText_open open_, ofLine_codeless own, zero_add, ih others]

theorem ofText_withLinesBelow (codeless : ∀ n, ∀ line ∈ gaps n, '\n' ∉ line ∧ Codeless line) (n : Nat) (front s : List Char) :
    ofText (front ++ Text.withLinesBelow gaps n s) = ofText (front ++ s) := by
  induction s generalizing front n with
  | nil => rfl
  | cons c s ih =>
    rw [Text.withLinesBelow]
    split
    · rename_i feed
      rw [feed, ofText_feed, ofText_feed, ofText_unlines (codeless _)]
      exact congrArg _ (ih (n + 1) [])
    · rw [List.append_cons, List.append_cons front c s]
      exact ih n _

/-- The size of a script is the sum of the sizes of its lines, whatever ends them: that of two texts joined by a line
feed is the sum of theirs. Lines without code add nothing, wherever they are put in, and no line that is added makes the
estimate smaller. The code of a line is its beginning, and code itself is cut no further. -/
theorem ofText_byLines :
    (∀ s t, ofText (s ++ '\n' :: t) = ofText s + ofText t) ∧
    (∀ s t, SwitchedEnds s t → ofText s = ofText t) ∧
    (∀ gaps, (∀ n, ∀ line ∈ gaps n, '\n' ∉ line ∧ Codeless line) → ∀ s, ofText (Text.withLines gaps s) = ofText s) ∧
    (∀ s line, '\n' ∉ line → Codeless line → ofText (s ++ '\n' :: line) = ofText s) ∧
    (∀ line, withoutComment line <+: line ∧ withoutComment (withoutComment line) = withoutComment line) ∧
    (∀ s, (ofText s).estimate = 1 + total ((Text.lines s).map fun line => (ofText line).branches + (ofText line).loops)) ∧
    (∀ s t, (ofText s).estimate ≤ (ofText (s ++ '\n' :: t)).estimate) ∧
    ∀ s t, EndsLine s.getLast? → (ofText s).estimate ≤ (ofText (s ++ t)).estimate := by
  refine ⟨ofText_feed, fun s t switched => ofText_switched switched [], fun gaps codeless s => ?_,
    fun s line open_ codeless => ?_, fun line => ⟨codeAfter_beginning _ line, codeAfter_codeAfter _ line⟩, estimate_ofText,
    fun s t => ?_, fun s t ends => ?_⟩
  · rw [Text.withLines, ofText_unlines (codeless 1)]
    exact ofText_withLinesBelow codeless 1 [] s
  · rw [ofText_feed, ofText_open open_, ofLine_codeless codeless, add_zero]
  · rw [ofText_feed, estimate_add]
    exact Nat.le_add_right _ _
  · rw [ofText_append ends, estimate_add]
    exact Nat.le_add_right _ _

def remarks : Nat → List (List Char)
  | 1 => ["  # for a in && b".toList, " \t".toList]
  | _ => []

theorem shortScript_byLines :
    let script := "a||b\nif".toList
    let returned := "a||b\r\nif".toList
    ofText script = ⟨2, 2, 0⟩ ∧
      (SwitchedEnds script returned ∧ ofText script = ofText returned) ∧
      ((∀ n, ∀ line ∈ remarks n, '\n' ∉ line ∧ Codeless line) ∧ ofText (Text.withLines remarks script) = ofText script) ∧
      ('\n' ∉ "#||".toList ∧ Codeless "#||".toList ∧ ofText (script ++ '\n' :: "#||".toList) = ofText script) ∧
      EndsLine "a||b\n".toList.getLast? ∧ (ofText "a||b\n".toList).estimate ≤ (ofText ("a||b\n".toList ++ "if".toList)).estimate := by
  have switched : SwitchedEnds "a||b\nif".toList "a||b\r\nif".toList :=
    .same 'a' (.same '|' (.same '|' (.same 'b' (.gains (.same 'i' (.same 'f' .done))))))
  have codeless : ∀ n, ∀ line ∈ remarks n, '\n' ∉ line ∧ Codeless line := by
    intro n
    unfold remarks
    split <;> decide
  have codeless' : Codeless "#||".toList := by decide
  have ends : EndsLine "a||b\n".toList.getLast? := by decide
  obtain ⟨_, ofEnds, ofPutIn, ofAdded, _, _, _, ofAppended⟩ := ofText_byLines
  exact ⟨by decide +kernel, ⟨switched, ofEnds _ _ switched⟩, ⟨codeless, ofPutIn _ codeless _⟩,
    ⟨by decide, codeless', ofAdded _ _ (by decide) codeless'⟩, ends, ofAppended _ _ ends⟩

end Complexity

end Conformance.Source.Script
