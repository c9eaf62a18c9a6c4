import Conformance.Source.Script
import Mathlib.Data.List.Basic

namespace Conformance.Source.Script

/-- A character as a shell reads it: plain, which a backslash and the special characters are not, or behind a
backslash that takes its meaning from it. -/
inductive Letter (special : List Char) where
  | plain (c : Char) (ordinary : c ∉ '\\' :: special)
  | escaped (c : Char)

inductive Piece where
  /-- A character outside quotation marks. -/
  | bare (letter : Letter ['\'', '"'])
  /-- A part in single quotation marks, where a backslash is a character like others. -/
  | single (inside : List Char) (closed : '\'' ∉ inside)
  /-- A part in double quotation marks. -/
  | double (inside : List (Letter ['"']))

def Letter.written {special : List Char} : Letter special → List Char
  | plain c _ => [c]
  | escaped c => ['\\', c]

namespace Piece

def inside? : Piece → Option (List Char)
  | bare _ => none
  | single inside _ => some inside
  | double inside => some (inside.flatMap Letter.written)

def written : Piece → List Char
  | bare letter => letter.written
  | single inside _ => '\'' :: (inside ++ ['\''])
  | double inside => '"' :: (inside.flatMap Letter.written ++ ['"'])

def isPlainHash : Piece → Bool
  | bare (.plain c _) => c == '#'
  | _ => false

def isHash : Piece → Bool
  | bare (.escaped c) => c == '#'
  | piece => piece.isPlainHash

def endsWord : Piece → Bool
  | bare (.plain c _) => Text.isBlank c || Pattern.among ";&|()" c
  | _ => false

end Piece

def written (pieces : List Piece) : List Char :=
  pieces.flatMap Piece.written

/-- What a shell reads of a line: the pieces up to the first plain `#` that begins a word. -/
def shellReads (begins : Bool) : List Piece → List Piece
  | [] => []
  | piece :: rest =>
    if begins && piece.isPlainHash then [] else piece :: shellReads piece.endsWord rest

/-- No quotation mark that opens or closes a part stands right behind a backslash. -/
def ClearMarks (behindBackslash : Bool) : List Piece → Prop
  | [] => True
  | piece :: rest =>
    (∀ inside ∈ piece.inside?, behindBackslash = false ∧ inside.getLast? ≠ some '\\') ∧
      ClearMarks (piece.written.getLast? == some '\\') rest

instance decidableClearMarks (behindBackslash : Bool) : (pieces : List Piece) → Decidable (ClearMarks behindBackslash pieces)
  | [] => .isTrue trivial
  | piece :: rest =>
    have := decidableClearMarks (piece.written.getLast? == some '\\') rest
    inferInstanceAs (Decidable (_ ∧ _))

def lastOr (b : Char) (s : List Char) : Char :=
  s.getLast?.getD b

@[simp] theorem lastOr_nil (b : Char) : lastOr b [] = b := rfl

@[simp] theorem lastOr_cons (b c : Char) (s : List Char) : lastOr b (c :: s) = lastOr c s := by
  rw [lastOr, List.getLast?_cons]
  rfl

@[simp] theorem lastOr_append (b : Char) (s t : List Char) : lastOr b (s ++ t) = lastOr (lastOr b s) t := by
  rw [lastOr, List.getLast?_append]
  cases own : t.getLast? <;> simp [lastOr, own]

theorem lastOr_ne {b d : Char} {s : List Char} (other : b ≠ d) (own : s.getLast? ≠ some d) : lastOr b s ≠ d := by
  cases last : s.getLast? with
  | none => simpa [lastOr, last] using other
  | some c => simpa [lastOr, last] using own

/-- A text is kept as a whole when it is read with a quoting, which leaves another quoting for what follows. -/
def Keeps (q : Quoting) (s : List Char) (q' : Quoting) : Prop :=
  ∀ t, codeAfter q (s ++ t) = s ++ codeAfter q' t

section Keeps

variable {q q' q'' : Quoting} {s t inside : List Char} {b c : Char}

theorem keeps_nil (q : Quoting) : Keeps q [] q :=
  fun _ => rfl

theorem Keeps.append (first : Keeps q s q') (second : Keeps q' t q'') : Keeps q (s ++ t) q'' := by
  intro u
  rw [List.append_assoc, first, second, List.append_assoc]

theorem Keeps.cons (first : Keeps q [c] q') (rest : Keeps q' s q'') : Keeps q (c :: s) q'' :=
  first.append rest

theorem Keeps.codeAfter_eq (keeps : Keeps q s q') : codeAfter q s = s := by
  have alone := keeps []
  rwa [List.append_nil, codeAfter, List.append_nil] at alone

theorem keeps_char (kept : c = '#' → q.single = true ∨ q.double = true) (next : q.next c = q') : Keeps q [c] q' := by
  intro t
  subst next
  have goesOn : (decide (c = '#') && !q.single && !q.double) = false := by
    by_cases hash : c = '#'
    · rcases kept hash with open_ | open_ <;> simp [open_]
    · simp [hash]
  rw [List.singleton_append, codeAfter, goesOn, if_neg Bool.false_ne_true]
  rfl

def unquoted (b : Char) : Quoting :=
  ⟨false, false, b⟩

def inSingle (b : Char) : Quoting :=
  ⟨true, false, b⟩

def inDouble (b : Char) : Quoting :=
  ⟨false, true, b⟩

theorem keeps_single (closed : '\'' ∉ inside) (b : Char) : Keeps (inSingle b) inside (inSingle (lastOr b inside)) := by
  induction inside generalizing b with
  | nil => exact keeps_nil _
  | cons c inside ih =>
    obtain ⟨other, closed⟩ : '\'' ≠ c ∧ '\'' ∉ inside := by simpa using closed
    have first : Keeps (inSingle b) [c] (inSingle c) :=
      keeps_char (fun _ => Or.inl rfl) (by simp [Quoting.next, inSingle, Ne.symm other])
    rw [lastOr_cons]
    exact first.cons (ih closed c)

theorem keeps_inDouble (ordinary : c = '"' → b = '\\') : Keeps (inDouble b) [c] (inDouble c) := by
  refine keeps_char (fun _ => Or.inr rfl) ?_
  by_cases mark : c = '"'
  · simp [Quoting.next, inDouble, mark, ordinary mark]
  · simp [Quoting.next, inDouble, mark]

theorem keeps_doubleLetter (letter : Letter ['"']) (b : Char) :
    Keeps (inDouble b) letter.written (inDouble (lastOr b letter.written)) := by
  cases letter with
  | plain c ordinary => exact keeps_inDouble fun mark => absurd (by simp [mark]) ordinary
  | escaped c => exact (keeps_inDouble (by simp)).cons (keeps_inDouble fun _ => rfl)

theorem keeps_double (inside : List (Letter ['"'])) (b : Char) :
    Keeps (inDouble b) (inside.flatMap Letter.written) (inDouble (lastOr b (inside.flatMap Letter.written))) := by
  induction inside generalizing b with
  | nil => exact keeps_nil _
  | cons letter inside ih =>
    rw [List.flatMap_cons, lastOr_append]
    exact (keeps_doubleLetter letter b).append (ih _)

theorem keeps_plain (ordinary : c ≠ '#' ∧ c ≠ '\'' ∧ c ≠ '"') (b : Char) : Keeps (unquoted b) [c] (unquoted c) :=
  keeps_char (fun hash => absurd hash ordinary.1) (by simp [Quoting.next, unquoted, ordinary.2.1, ordinary.2.2])

-- a mark behind a backslash opens nothing
theorem keeps_escaped (other : c ≠ '#') (b : Char) : Keeps (unquoted b) ['\\', c] (unquoted c) := by
  have second : Keeps (unquoted '\\') [c] (unquoted c) :=
    keeps_char (fun hash => absurd hash other) (by simp [Quoting.next, unquoted])
  exact (keeps_plain (by decide) b).cons second

theorem keeps_piece {piece : Piece} (other : piece.isHash = false)
    (clear : ∀ inside ∈ piece.inside?, b ≠ '\\' ∧ inside.getLast? ≠ some '\\') :
    Keeps (unquoted b) piece.written (unquoted (lastOr b piece.written)) := by
  cases piece with
  | bare letter =>
    cases letter with
    | plain c ordinary =>
      have free : c ≠ '\\' ∧ c ≠ '\'' ∧ c ≠ '"' := by simpa using ordinary
      exact keeps_plain ⟨by simpa [Piece.isHash, Piece.isPlainHash] using other, free.2⟩ b
    | escaped c => exact keeps_escaped (by simpa [Piece.isHash] using other) b
  | single inside closed =>
    obtain ⟨opens, closes⟩ := clear inside rfl
    have last : lastOr '\'' inside ≠ '\\' := lastOr_ne (by decide) closes
    have first : Keeps (unquoted b) ['\''] (inSingle '\'') :=
      keeps_char (fun hash => absurd hash (by decide)) (by simp [Quoting.next, unquoted, inSingle, opens])
    have final : Keeps (inSingle (lastOr '\'' inside)) ['\''] (unquoted '\'') :=
      keeps_char (fun _ => Or.inl rfl) (by simp [Quoting.next, unquoted, inSingle, last])
    have whole := first.cons ((keeps_single closed '\'').append final)
    simpa [Piece.written] using whole
  | double inside =>
    obtain ⟨opens, closes⟩ := clear _ rfl
    have last : lastOr '"' (inside.flatMap Letter.written) ≠ '\\' := lastOr_ne (by decide) closes
    have first : Keeps (unquoted b) ['"'] (inDouble '"') :=
      keeps_char (fun hash => absurd hash (by decide)) (by simp [Quoting.next, unquoted, inDouble, opens])
    have final : Keeps (inDouble (lastOr '"' (inside.flatMap Letter.written))) ['"'] (unquoted '"') :=
      keeps_char (fun _ => Or.inr rfl) (by simp [Quoting.next, unquoted, inDouble, last])
    have whole := first.cons ((keeps_double inside '"').append final)
    simpa [Piece.written] using whole

theorem exists_getLast?_written (piece : Piece) : ∃ c, piece.written.getLast? = some c := by
  rcases piece with ⟨letter | letter⟩ | ⟨inside, _⟩ | inside <;> simp [Piece.written, Letter.written, List.getLast?_cons]

theorem keeps_written {pieces : List Piece} (clear : ClearMarks (b == '\\') pieces)
    (free : ∀ piece ∈ pieces, piece.isHash = false) :
    Keeps (unquoted b) (written pieces) (unquoted (lastOr b (written pieces))) := by
  induction pieces generalizing b with
  | nil => exact keeps_nil _
  | cons piece pieces ih =>
    obtain ⟨here, later⟩ := clear
    obtain ⟨own, others⟩ := List.forall_mem_cons.mp free
    obtain ⟨c, last⟩ := exists_getLast?_written piece
    have first := keeps_piece own fun inside member =>
      ⟨beq_eq_false_iff_ne.mp (here inside member).1, (here inside member).2⟩
    have behind : lastOr b piece.written = c := by simp [lastOr, last]
    have rest : Keeps (unquoted c) (written pieces) (unquoted (lastOr c (written pieces))) :=
      ih (by simpa [last] using later) others
    rw [behind] at first
    have whole := first.append rest
    rwa [← behind, ← lastOr_append] at whole

end Keeps

/-- A line of shell words is cut at its first `#` outside quotation marks, at whatever place of a word that stands: it
is kept if it has none, also with a backslash at its end, and whatever follows the first one is cut off with it. -/
theorem withoutComment_written {pieces : List Piece} (clear : ClearMarks false pieces)
    (free : ∀ piece ∈ pieces, piece.isHash = false) :
    withoutComment (written pieces) = written pieces ∧
    withoutComment (written pieces ++ ['\\']) = written pieces ++ ['\\'] ∧ ∀ back,
      withoutComment (written pieces ++ '#' :: back) = written pieces ∧
      withoutComment (written pieces ++ '\\' :: '#' :: back) = written pieces ++ ['\\'] := by
  have keeps : Keeps {} (written pieces) (unquoted (lastOr '\x00' (written pieces))) := keeps_written clear free
  have continued := keeps.append (keeps_plain (c := '\\') (by decide) _)
  refine ⟨keeps.codeAfter_eq, continued.codeAfter_eq, fun back => ⟨?_, ?_⟩⟩
  · rw [withoutComment, keeps]
    simp [codeAfter, unquoted]
  · rw [withoutComment, keeps]
    simp [codeAfter, unquoted, Quoting.next]

def barePieces (s : List Char) (ordinary : ∀ c ∈ s, c ∉ '\\' :: ['\'', '"']) : List Piece :=
  s.pmap (fun c h => .bare (.plain c h)) ordinary

def quotedHashes : List Piece :=
  barePieces "echo ".toList (by decide) ++
    [.double [.plain 'a' (by decide), .plain '#' (by decide), .escaped '"'], .single "b#\"".toList (by decide),
      .bare (.escaped '\'')] ++ barePieces " ".toList (by decide)

theorem quotedHashes_withoutComment :
    written quotedHashes = "echo \"a#\\\"\"'b#\"'\\' ".toList ∧ ClearMarks false quotedHashes ∧
      (∀ piece ∈ quotedHashes, piece.isHash = false) ∧
      withoutComment (written quotedHashes ++ ['\\']) = written quotedHashes ++ ['\\'] ∧
      withoutComment (written quotedHashes ++ '#' :: " don't".toList) = written quotedHashes := by
  have clear : ClearMarks false quotedHashes := by decide
  have free : ∀ piece ∈ quotedHashes, piece.isHash = false := by decide
  obtain ⟨_, continued, cut⟩ := withoutComment_written clear free
  exact ⟨by decide, clear, free, continued, (cut _).1⟩

def argumentCount : List Piece :=
  barePieces "[ $# -gt 0 ] && shift".toList (by decide)

theorem argumentCount_cut :
    ClearMarks false argumentCount ∧ written (shellReads true argumentCount) = "[ $# -gt 0 ] && shift".toList ∧
      withoutComment (written argumentCount) = "[ $".toList ∧
      withoutComment (written argumentCount) ≠ written (shellReads true argumentCount) ∧
      (Complexity.ofLine (written argumentCount)).branches = 0 ∧
      logicalOperator.count (written (shellReads true argumentCount)) = 1 := by
  decide +kernel

end Conformance.Source.Script
