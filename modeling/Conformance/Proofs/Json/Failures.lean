import Conformance.Endpoint.Hosting
import Conformance.Proofs.Text.OneLine

namespace Conformance

theorem Text.newline_not_mem_escapeShown (c : Char) : '\n' ∉ escapeShown c := by
  have code : '\n' ∉ "\\u\x7b".toList ++ Nat.toDigits 16 c.toNat ++ "\x7d".toList := by
    simp [newline_not_mem_toDigits]
  by_cases feed : c = '\n'
  · rw [feed]
    decide
  · have own : '\n' ∉ [c] := by simpa using Ne.symm feed
    unfold escapeShown
    rw [if_neg feed]
    repeat' split
    all_goals first | exact code | exact own | simp

theorem OneLine.quoted (s : List Char) : OneLine (Text.quoted s) := by
  rw [Text.quoted, ofList_iff]
  intro inside
  simp only [List.cons_append, List.mem_cons, List.mem_append, List.mem_flatMap] at inside
  rcases inside with first | ⟨c, _, within⟩ | last
  · cases first
  · exact Text.newline_not_mem_escapeShown c within
  · simp at last

namespace Json

def Problem.IsPlain : Problem → Prop
  | wrongType found expected => OneLine found ∧ OneLine expected
  | wrongLength _ expected => OneLine expected
  | repeatedField name => OneLine name
  | noVariant type => OneLine type
  | _ => True

theorem Problem.IsPlain.oneLine_message {problem : Problem} (plain : problem.IsPlain) : OneLine problem.message := by
  cases problem with
  | wrongType found expected =>
    change OneLine s!"invalid type: {found}, expected {expected}"
    have quoted : OneLine found ∧ OneLine expected := plain
    simp only [OneLine.append_iff, OneLine.toString_iff, quoted, and_true]
    exact ⟨.literal (by decide), .literal (by decide)⟩
  | wrongLength found expected =>
    change OneLine s!"invalid length {found}, expected {expected}"
    have quoted : OneLine expected := plain
    simp only [OneLine.append_iff, OneLine.toString_iff, quoted, OneLine.nat, and_true]
    exact ⟨.literal (by decide), .literal (by decide)⟩
  | repeatedField name =>
    change OneLine s!"duplicate field `{name}`"
    have quoted : OneLine name := plain
    simp only [OneLine.append_iff, OneLine.toString_iff, quoted, and_true]
    exact ⟨.literal (by decide), .literal (by decide)⟩
  | noVariant type =>
    change OneLine s!"data did not match any variant of untagged enum {type}"
    have quoted : OneLine type := plain
    simp only [OneLine.append_iff, OneLine.toString_iff, quoted, and_true]
    exact .literal (by decide)
  | _ => exact .literal (by decide)

def Failure.problem : Failure → Problem
  | placed problem _ | loose problem _ => problem

theorem Failure.oneLine_message {failure : Failure} (plain : failure.problem.IsPlain) : OneLine failure.message := by
  have line : OneLine " at line " := .literal (by decide)
  have column : OneLine " column " := .literal (by decide)
  have problem := plain.oneLine_message
  cases failure with
  | placed inner p =>
    change OneLine s!"{inner.message} at line {p.line} column {p.column}"
    simp only [OneLine.append_iff, OneLine.toString_iff, OneLine.nat, line, column, and_true]
    exact problem
  | loose inner r =>
    change OneLine s!"{inner.message} at line {r.line} column {r.column}"
    simp only [OneLine.append_iff, OneLine.toString_iff, OneLine.nat, line, column, and_true]
    exact problem

def FailsPlain {α : Type} (e : Except Failure α) : Prop :=
  ∀ failure, e = .error failure → failure.problem.IsPlain

section

variable {α β : Type}

namespace FailsPlain

theorem ok (a : α) : FailsPlain (.ok a : Except Failure α) := by
  rintro _ ⟨⟩

theorem error {failure : Failure} (plain : failure.problem.IsPlain) : FailsPlain (.error failure : Except Failure α) := by
  rintro _ ⟨⟩
  exact plain

theorem here {problem : Problem} (plain : problem.IsPlain) (r : Reader) :
    FailsPlain (failHere problem r : Except Failure α) :=
  error plain

theorem next {problem : Problem} (plain : problem.IsPlain) (r : Reader) :
    FailsPlain (failNext problem r : Except Failure α) :=
  error plain

theorem bind {x : Except Failure α} {f : α → Except Failure β} (first : FailsPlain x) (next : ∀ a, FailsPlain (f a)) :
    FailsPlain (x >>= f) := by
  cases x with
  | error failure => exact error (first failure rfl)
  | ok a => exact next a

theorem map {x : Except Failure α} {f : α → β} (first : FailsPlain x) : FailsPlain (x.map f) := by
  cases x with
  | error failure => exact error (first failure rfl)
  | ok a => exact ok (f a)

end FailsPlain

theorem failsPlain_readWord (word : List Char) (r : Reader) : FailsPlain (readWord word r) := by
  induction word generalizing r with
  | nil => exact .ok r
  | cons expected word ih =>
    rw [readWord]
    split
    · exact .here (by trivial) r
    · split
      · exact ih _
      · exact .next (by trivial) r

theorem failsPlain_readHex (r : Reader) : FailsPlain (readHex r) := by
  unfold readHex
  split
  · exact .ok _
  · split <;> exact .error (by trivial)

theorem failsPlain_readPairMark (mark : Char) (r : Reader) : FailsPlain (readPairMark mark r) := by
  unfold readPairMark
  split
  · exact .here (by trivial) r
  · split
    · exact .ok _
    · exact .next (by trivial) r

theorem failsPlain_readCodePoint (r : Reader) : FailsPlain (readCodePoint r) := by
  refine .bind (failsPlain_readHex r) fun (n, r) => ?_
  dsimp only
  split
  · exact .here (by trivial) r
  · split
    · exact .ok _
    · refine .bind (failsPlain_readPairMark _ _) fun r => ?_
      refine .bind (failsPlain_readPairMark _ _) fun r => ?_
      refine .bind (failsPlain_readHex r) fun (low, r) => ?_
      dsimp only
      split
      · exact .here (by trivial) r
      · exact .ok _

theorem failsPlain_readEscape (r : Reader) : FailsPlain (readEscape r) := by
  unfold readEscape
  split
  · exact .here (by trivial) r
  · exact failsPlain_readCodePoint _
  · split
    · exact .ok _
    · exact .next (by trivial) r

theorem failsPlain_readStringBody (limit : Nat) (r : Reader) : FailsPlain (readStringBody limit r) := by
  induction limit generalizing r with
  | zero => exact .here (by trivial) r
  | succ limit ih =>
    rw [readStringBody]
    split
    · exact .here (by trivial) r
    · exact .ok _
    · refine .bind (failsPlain_readEscape _) fun (c, r) => ?_
      exact .bind (ih r) fun _ => .ok _
    · split
      · exact .next (by trivial) r
      · exact .bind (ih _) fun _ => .ok _

theorem failsPlain_readString (r : Reader) : FailsPlain (readString r) :=
  failsPlain_readStringBody _ r

theorem failsPlain_floatOf (positive : Bool) (significand : Nat) (exponent : Int) (r : Reader) :
    FailsPlain (floatOf positive significand exponent r) := by
  unfold floatOf
  split
  · exact .ok _
  · exact .here (by trivial) r

theorem failsPlain_readExponent (positive : Bool) (significand : Nat) (start : Int) (r : Reader) :
    FailsPlain (readExponent positive significand start r) := by
  unfold readExponent
  dsimp only
  split
  · exact .here (by trivial) _
  · split
    · exact .next (by trivial) _
    · split
      · exact failsPlain_floatOf _ _ _ _
      · split
        · exact .here (by trivial) _
        · exact .ok _

theorem failsPlain_finishNumber (positive : Bool) (significand : Nat) (exponent : Int) (r : Reader) :
    FailsPlain (finishNumber positive significand exponent r) := by
  unfold finishNumber
  split
  · exact failsPlain_readExponent _ _ _ _
  · exact failsPlain_floatOf _ _ _ _

theorem failsPlain_readFraction (positive : Bool) (significand : Nat) (exponent : Int) (r : Reader) :
    FailsPlain (readFraction positive significand exponent r) := by
  unfold readFraction
  dsimp only
  split
  · split
    · exact .here (by trivial) _
    · exact .next (by trivial) _
  · exact failsPlain_finishNumber _ _ _ _

theorem failsPlain_wholeNumber (positive : Bool) (n : Nat) (r : Reader) : FailsPlain (wholeNumber positive n r) := by
  unfold wholeNumber
  split
  · exact .ok _
  · split
    · exact .ok _
    · exact failsPlain_floatOf _ _ _ _

theorem failsPlain_readNumber (positive : Bool) (r : Reader) : FailsPlain (readNumber positive r) := by
  unfold readNumber
  split
  · exact .here (by trivial) r
  · split
    · exact .next (by trivial) r
    · dsimp only
      split
      · exact .next (by trivial) _
      · split
        · exact failsPlain_readFraction _ _ _ _
        · split
          · exact failsPlain_wholeNumber _ _ _
          · exact failsPlain_finishNumber _ _ _ _

theorem failsPlain_skipEscape (r : Reader) : FailsPlain (skipEscape r) := by
  unfold skipEscape
  split
  · exact .here (by trivial) r
  · exact .map (failsPlain_readHex _)
  · split
    · exact .ok _
    · exact .next (by trivial) r

theorem failsPlain_skipStringBody (limit : Nat) (r : Reader) : FailsPlain (skipStringBody limit r) := by
  induction limit generalizing r with
  | zero => exact .here (by trivial) r
  | succ limit ih =>
    rw [skipStringBody]
    split
    · exact .here (by trivial) r
    · exact .ok _
    · exact .bind (failsPlain_skipEscape _) fun r => ih r
    · split
      · exact .here (by trivial) r
      · exact ih _

theorem failsPlain_skipExponent (r : Reader) : FailsPlain (skipExponent r) := by
  unfold skipExponent
  dsimp only
  split
  · exact .here (by trivial) _
  · split
    · exact .ok _
    · exact .next (by trivial) _

theorem failsPlain_skipNumberEnd (r : Reader) : FailsPlain (skipNumberEnd r) := by
  unfold skipNumberEnd
  split
  · exact failsPlain_skipExponent r
  · exact .ok r

theorem failsPlain_skipNumber (r : Reader) : FailsPlain (skipNumber r) := by
  unfold skipNumber
  split
  · exact .here (by trivial) r
  · split
    · exact .next (by trivial) r
    · split
      · exact .next (by trivial) _
      · dsimp only
        split
        · split
          · exact .next (by trivial) _
          · exact failsPlain_skipNumberEnd _
        · exact failsPlain_skipNumberEnd _

theorem isPlain_of_leaveList {r : Reader} {failure : Failure} (left : (leaveList r).2 = some failure) :
    failure.problem.IsPlain := by
  unfold leaveList at left
  dsimp only at left
  split at left
  · cases left
  · cases left
    simp only [Failure.problem]
    split <;> trivial
  · cases left
    trivial
  · cases left
    trivial

theorem isPlain_of_leaveObject {r : Reader} {failure : Failure} (left : (leaveObject r).2 = some failure) :
    failure.problem.IsPlain := by
  unfold leaveObject at left
  dsimp only at left
  split at left <;> cases left <;> trivial

theorem failsPlain_close {leave : Reader → Reader × Option Failure}
    (leaves : ∀ r failure, (leave r).2 = some failure → failure.problem.IsPlain) {inside : Except Failure (α × Reader)}
    (plain : FailsPlain inside) : FailsPlain (close leave inside) := by
  unfold close
  split
  · rename_i r
    split
    · exact .ok _
    · rename_i failure left
      exact .error (leaves r failure (by rw [left]))
  · exact .error (plain _ rfl)
  · exact .here (plain _ rfl) _

theorem failsPlain_nextItem (first : Bool) (r : Reader) : FailsPlain (nextItem first r) := by
  unfold nextItem
  dsimp only
  split
  · exact .here (by trivial) _
  · exact .ok _
  · split
    · exact .ok _
    · split
      · split
        · exact .here (by trivial) _
        · exact .next (by trivial) _
        · exact .ok _
      · exact .next (by trivial) _

theorem failsPlain_nextKey (first : Bool) (r : Reader) : FailsPlain (nextKey first r) := by
  unfold nextKey
  dsimp only
  split
  · exact .here (by trivial) _
  · exact .ok _
  · split
    · split
      · exact .ok _
      · exact .next (by trivial) _
    · split
      · split
        · exact .here (by trivial) _
        · exact .ok _
        · exact .next (by trivial) _
        · exact .next (by trivial) _
      · exact .next (by trivial) _

theorem failsPlain_readColon (r : Reader) : FailsPlain (readColon r) := by
  unfold readColon
  dsimp only
  split
  · exact .here (by trivial) _
  · exact .ok _
  · exact .next (by trivial) _

theorem failsPlain_readItems {item : α → Reader → Except Failure (α × Reader)} (own : ∀ done r, FailsPlain (item done r))
    (limit : Nat) (first : Bool) (done : α) (r : Reader) : FailsPlain (readItems item limit first done r) := by
  induction limit generalizing first done r with
  | zero => exact .here (by trivial) r
  | succ limit ih =>
    refine .bind (failsPlain_nextItem first r) fun (more, r) => ?_
    cases more with
    | false => exact .ok _
    | true => exact .bind (own done r) fun (done, r) => ih _ done r

theorem failsPlain_readMembers {member : α → List Char → Reader → Except Failure (α × Reader)}
    (own : ∀ done key r, FailsPlain (member done key r)) (limit : Nat) (first : Bool) (done : α) (r : Reader) :
    FailsPlain (readMembers member limit first done r) := by
  induction limit generalizing first done r with
  | zero => exact .here (by trivial) r
  | succ limit ih =>
    refine .bind (failsPlain_nextKey first r) fun (more, r) => ?_
    cases more with
    | false => exact .ok _
    | true =>
      refine .bind (failsPlain_readString _) fun (key, r) => ?_
      exact .bind (own done key r) fun (done, r) => ih _ done r

theorem failsPlain_readValue (limit depth : Nat) (r : Reader) : FailsPlain (readValue limit depth r) := by
  induction limit generalizing depth r with
  | zero => exact .here (by trivial) r
  | succ limit ih =>
    rw [readValue]
    split
    · exact .here (by trivial) _
    · exact .bind (failsPlain_readWord _ _) fun _ => .ok _
    · exact .bind (failsPlain_readWord _ _) fun _ => .ok _
    · exact .bind (failsPlain_readWord _ _) fun _ => .ok _
    · exact .bind (failsPlain_readString _) fun _ => .ok _
    · split
      · exact .next (by trivial) _
      · refine failsPlain_close (fun _ _ => isPlain_of_leaveList) ?_
        refine .bind (failsPlain_readItems (fun done r => ?_) _ _ _ _) fun _ => .ok _
        exact .bind (ih _ r) fun _ => .ok _
    · split
      · exact .next (by trivial) _
      · refine failsPlain_close (fun _ _ => isPlain_of_leaveObject) ?_
        refine .bind (failsPlain_readMembers (fun done key r => ?_) _ _ _ _) fun _ => .ok _
        exact .bind (failsPlain_readColon r) fun r => .bind (ih _ r) fun _ => .ok _
    · split
      · exact .bind (failsPlain_readNumber _ _) fun _ => .ok _
      · split
        · exact .bind (failsPlain_readNumber _ _) fun _ => .ok _
        · exact .next (by trivial) _

/-- Passing a value, items or members fails plainly; each calls the others with a lower limit. -/
theorem failsPlain_skip (limit : Nat) (r : Reader) :
    FailsPlain (skipValue limit r) ∧ FailsPlain (skipItems limit r) ∧ FailsPlain (skipMembers limit r) := by
  induction limit generalizing r with
  | zero => exact ⟨.here (by trivial) r, .here (by trivial) r, .here (by trivial) r⟩
  | succ limit ih =>
    refine ⟨?_, ?_, ?_⟩
    · rw [skipValue]
      dsimp only
      split
      · exact .here (by trivial) _
      · exact failsPlain_readWord _ _
      · exact failsPlain_readWord _ _
      · exact failsPlain_readWord _ _
      · exact failsPlain_skipStringBody _ _
      · split
        · exact .ok _
        · split
          · exact .here (by trivial) _
          · exact (ih _).2.1
      · split
        · exact .ok _
        · exact (ih _).2.2
      · split
        · exact failsPlain_skipNumber _
        · split
          · exact failsPlain_skipNumber _
          · exact .next (by trivial) _
    · rw [skipItems]
      refine .bind (ih r).1 fun r => ?_
      dsimp only
      split
      · exact .here (by trivial) _
      · exact (ih _).2.1
      · exact .ok _
      · exact .next (by trivial) _
    · rw [skipMembers]
      dsimp only
      split
      · exact .here (by trivial) _
      · refine .bind (failsPlain_skipStringBody _ _) fun r => ?_
        refine .bind (failsPlain_readColon r) fun r => ?_
        refine .bind (ih r).1 fun r => ?_
        split
        · exact .here (by trivial) _
        · exact (ih _).2.2
        · exact .ok _
        · exact .next (by trivial) _
      · exact .next (by trivial) _

end

end Json

namespace Binary

theorem newline_not_mem_layout {digits : List Char} (free : '\n' ∉ digits) (exponent : Int) :
    '\n' ∉ layout digits exponent := by
  have power : ∀ n, '\n' ∉ signed n := by
    intro n
    unfold signed
    split <;> simp [Text.newline_not_mem_toDigits]
  have front : ∀ n, '\n' ∉ digits.take n := fun n inside => free (List.take_subset _ _ inside)
  have back : ∀ n, '\n' ∉ digits.drop n := fun n inside => free (List.drop_subset _ _ inside)
  unfold layout
  dsimp only
  split
  · simp [free]
  · split
    · simp [front, back]
    · split
      · simp [free]
      · split
        · simp
        · simpa [power] using free
        · simpa [power] using free

theorem oneLine_written (b : Binary) : OneLine b.written := by
  have kept : '\n' ∉ b.shortest.trimmed.1 := by
    intro inside
    have within := List.mem_reverse.mp (List.dropWhile_subset _ (List.mem_reverse.mp inside))
    exact Text.newline_not_mem_toDigits 10 _ within
  unfold written
  split
  · exact .literal (by decide)
  · exact OneLine.ofList_iff.mpr (newline_not_mem_layout kept _)

end Binary

namespace Json

theorem Number.oneLine_shown (n : Number) : OneLine n.shown := by
  have mark : OneLine "`" := .literal (by decide)
  cases n with
  | natural n =>
    change OneLine s!"integer `{n}`"
    simp only [OneLine.append_iff, OneLine.toString_iff, OneLine.nat, mark, and_true]
    exact .literal (by decide)
  | negative n =>
    change OneLine s!"integer `-{n}`"
    simp only [OneLine.append_iff, OneLine.toString_iff, OneLine.nat, mark, and_true]
    exact .literal (by decide)
  | float positive b =>
    have written := b.oneLine_written
    cases positive with
    | true =>
      change OneLine s!"floating point `{b.written}`"
      simp only [OneLine.append_iff, OneLine.toString_iff, written, mark, and_true]
      exact .literal (by decide)
    | false =>
      change OneLine s!"floating point `-{b.written}`"
      simp only [OneLine.append_iff, OneLine.toString_iff, written, mark, and_true]
      exact .literal (by decide)

theorem isPlain_foundWord {expected what : String} (free : OneLine expected) (own : OneLine what) (chars : List Char)
    (r : Reader) :
    (match readWord chars r with
      | .ok r => Failure.placed (.wrongType what expected) r.here
      | .error failure => failure).problem.IsPlain := by
  have fails := failsPlain_readWord chars r
  split
  · exact ⟨own, free⟩
  · exact fails _ ‹_›

theorem isPlain_foundNumber {expected : String} (free : OneLine expected) (positive : Bool) (r : Reader) :
    (match readNumber positive r with
      | .ok (n, r) => Failure.placed (.wrongType n.shown expected) r.here
      | .error failure => failure).problem.IsPlain := by
  have fails := failsPlain_readNumber positive r
  split
  · exact ⟨Number.oneLine_shown _, free⟩
  · exact fails _ ‹_›

/-- A value of another type than the expected one is named on one line: a text that it quotes is escaped. -/
theorem isPlain_mismatch {expected : String} (free : OneLine expected) (r : Reader) :
    (mismatch expected r).problem.IsPlain := by
  have named : ∀ (what : String) (r : Reader), OneLine what →
      (Failure.placed (.wrongType what expected) r.here).problem.IsPlain := fun _ _ what => ⟨what, free⟩
  unfold mismatch
  dsimp only
  split
  · exact isPlain_foundWord free (.literal (by decide)) _ _
  · exact isPlain_foundWord free (.literal (by decide)) _ _
  · exact isPlain_foundWord free (.literal (by decide)) _ _
  · have fails := failsPlain_readString r.eat
    split
    · rename_i chars _ _
      refine named _ _ (OneLine.append_iff.mpr ⟨.literal (by decide), ?_⟩)
      exact .quoted chars
    · exact fails _ ‹_›
  · exact named _ _ (.literal (by decide))
  · exact named _ _ (.literal (by decide))
  · exact isPlain_foundNumber free _ _
  · split
    · exact isPlain_foundNumber free _ _
    · trivial
  · trivial

section

variable {α : Type}

theorem failsPlain_readOptional {read : Reader → Except Failure (α × Reader)} (own : ∀ r, FailsPlain (read r))
    (r : Reader) : FailsPlain (readOptional read r) := by
  unfold readOptional
  dsimp only
  split
  · exact .bind (failsPlain_readWord _ _) fun _ => .ok _
  · exact .bind (own _) fun _ => .ok _

theorem failsPlain_readText (r : Reader) : FailsPlain (readText r) := by
  unfold readText
  dsimp only
  split
  · exact .here (by trivial) _
  · exact .bind (failsPlain_readString _) fun _ => .ok _
  · exact .error (isPlain_mismatch (.literal (by decide)) _)

theorem failsPlain_readSequence {read : Reader → Except Failure (α × Reader)} (own : ∀ r, FailsPlain (read r))
    (r : Reader) : FailsPlain (readSequence read r) := by
  unfold readSequence
  dsimp only
  split
  · exact .here (by trivial) _
  · refine failsPlain_close (fun _ _ => isPlain_of_leaveList) (failsPlain_readItems (fun done r => ?_) _ _ _ _)
    exact .bind (own r) fun _ => .ok _
  · exact .error (isPlain_mismatch (.literal (by decide)) _)

/-- The name and the keys of the shape are on one line, and its fields are read with plain failures. -/
structure Shape.FailsPlain (shape : Shape α) : Prop where
  name : OneLine shape.name
  keys : ∀ field ∈ shape.fields, OneLine field.key
  reads : ∀ field ∈ shape.fields, ∀ done r, Json.FailsPlain (field.read done r)

namespace Shape.FailsPlain

variable {shape : Shape α}

theorem endsEarly (plain : shape.FailsPlain) (found : Nat) : (shape.endsEarly found).IsPlain := by
  change OneLine s!"struct {shape.name} with {shape.fields.length} elements"
  simp only [OneLine.append_iff, OneLine.toString_iff, plain.name, OneLine.nat, and_true]
  exact ⟨⟨.literal (by decide), .literal (by decide)⟩, .literal (by decide)⟩

theorem readFields (plain : shape.FailsPlain) {fields : List (Field α)} (within : fields ⊆ shape.fields) (found : Nat)
    (done : α) (r : Reader) : Json.FailsPlain (shape.readFields found fields done r) := by
  induction fields generalizing found done r with
  | nil => exact .ok _
  | cons field fields ih =>
    refine .bind (failsPlain_nextItem _ r) fun (more, r) => ?_
    cases more with
    | true =>
      refine .bind (plain.reads field (within (by simp)) done r) fun (done, r) => ?_
      exact ih (fun x member => within (by simp [member])) _ done r
    | false =>
      dsimp only
      split
      · contradiction
      · split
        · exact .ok _
        · exact .error (plain.endsEarly found)

theorem readMember (plain : shape.FailsPlain) (state : List String × α) (key : List Char) (r : Reader) :
    Json.FailsPlain (shape.readMember state key r) := by
  obtain ⟨seen, done⟩ := state
  unfold Shape.readMember
  dsimp only
  split
  · refine .bind (failsPlain_readColon r) fun r => ?_
    exact .bind (failsPlain_skip _ r).1 fun r => .ok _
  · rename_i field found
    have listed := List.mem_of_find?_eq_some found
    split
    · exact .error (plain.keys field listed)
    · refine .bind (failsPlain_readColon r) fun r => ?_
      exact .bind (plain.reads field listed done r) fun _ => .ok _

theorem read (plain : shape.FailsPlain) (r : Reader) : Json.FailsPlain (shape.read r) := by
  unfold Shape.read
  dsimp only
  split
  · exact .here (by trivial) _
  · exact failsPlain_close (fun _ _ => isPlain_of_leaveList) (plain.readFields (fun _ member => member) _ _ _)
  · refine .bind (failsPlain_close (fun _ _ => isPlain_of_leaveObject) ?_) fun _ => .ok _
    exact failsPlain_readMembers plain.readMember _ _ _ _
  · refine .error (isPlain_mismatch (OneLine.append_iff.mpr ⟨.literal (by decide), plain.name⟩) _)

end Shape.FailsPlain

theorem failsPlain_readWhole {read : Reader → Except Failure (α × Reader)} (own : ∀ r, FailsPlain (read r))
    (text : List Char) : FailsPlain (readWhole read text) := by
  refine .bind (own _) fun (value, r) => ?_
  dsimp only
  split
  · exact .ok _
  · exact .next (by trivial) _

end

end Json

namespace Endpoint.Hosting

open Json

theorem failsPlain_readFunction (r : Reader) : FailsPlain (readFunction r) := by
  refine .bind (failsPlain_readValue _ _ r) fun (value, r) => ?_
  dsimp only
  split
  · exact .ok _
  · exact .error (OneLine.literal (by decide))

theorem failsPlain_item : item.FailsPlain where
  name := .literal (by decide)
  keys := by
    intro field member
    simp only [item, List.mem_cons, List.not_mem_nil, or_false] at member
    rcases member with rfl | rfl <;> exact .literal (by decide)
  reads := by
    intro field member done r
    simp only [item, List.mem_cons, List.not_mem_nil, or_false] at member
    rcases member with rfl | rfl
    · exact .bind (failsPlain_readOptional failsPlain_readText r) fun _ => .ok _
    · exact .bind (failsPlain_readOptional failsPlain_readFunction r) fun _ => .ok _

theorem failsPlain_hosting : hosting.FailsPlain where
  name := .literal (by decide)
  keys := by
    intro field member
    obtain rfl := List.mem_singleton.mp member
    exact .literal (by decide)
  reads := by
    intro field member done r
    obtain rfl := List.mem_singleton.mp member
    exact failsPlain_readSequence failsPlain_item.read r

theorem failsPlain_configuration : configuration.FailsPlain where
  name := .literal (by decide)
  keys := by
    intro field member
    obtain rfl := List.mem_singleton.mp member
    exact .literal (by decide)
  reads := by
    intro field member done r
    obtain rfl := List.mem_singleton.mp member
    exact .bind (failsPlain_readOptional failsPlain_hosting.read r) fun _ => .ok _

theorem oneLine_of_rules {text : List Char} {failure : Failure} (fails : rules text = .error failure) :
    OneLine failure.message := by
  have plain : FailsPlain (rules text) :=
    .bind (failsPlain_readWhole failsPlain_configuration.read text) fun _ => .ok _
  exact Failure.oneLine_message (plain failure fails)

end Endpoint.Hosting

end Conformance
