import Mathlib.Data.List.Basic

namespace Conformance.Endpoint

inductive ByteMode where
  | code
  | quoted (mark : UInt8)
  | lineComment
  | blockComment
deriving DecidableEq

namespace ByteMode

def isComment : ByteMode → Bool
  | .lineComment | .blockComment => true
  | .code | .quoted _ => false

def isQuoted : ByteMode → Bool
  | .quoted _ => true
  | .code | .lineComment | .blockComment => false

def uncommented : ByteMode → ByteMode
  | .quoted mark => .quoted mark
  | .code | .lineComment | .blockComment => .code

end ByteMode

def isQuoteByte (b : UInt8) : Bool :=
  b == 0x27 || b == 0x22 || b == 0x60

/-- The copying loop: the bytes of a text that are in no comment. A block comment leaves a space and a line comment
its line feed. -/
def strippedBytes : ByteMode → List UInt8 → List UInt8
  | _, [] => []
  | .code, 0x2F :: 0x2F :: s => strippedBytes .lineComment s
  | .code, 0x2F :: 0x2A :: s => strippedBytes .blockComment s
  | .code, b :: s => b :: strippedBytes (if isQuoteByte b then .quoted b else .code) s
  | .quoted mark, 0x5C :: b :: s => 0x5C :: b :: strippedBytes (.quoted mark) s
  | .quoted mark, b :: s => b :: strippedBytes (if b = mark then .code else .quoted mark) s
  | .lineComment, b :: s => if b = 0x0A then b :: strippedBytes .code s else strippedBytes .lineComment s
  | .blockComment, 0x2A :: 0x2F :: s => 0x20 :: strippedBytes .code s
  | .blockComment, _ :: s => strippedBytes .blockComment s

/-- One step of the scan: the mode it is made in, the bytes it takes and the mode it leads to. -/
structure ByteStep where
  mode : ByteMode
  taken : List UInt8
  next : ByteMode
deriving DecidableEq

def byteSteps : ByteMode → List UInt8 → List ByteStep
  | _, [] => []
  | .code, 0x2F :: 0x2F :: s => ⟨.code, [0x2F, 0x2F], .lineComment⟩ :: byteSteps .lineComment s
  | .code, 0x2F :: 0x2A :: s => ⟨.code, [0x2F, 0x2A], .blockComment⟩ :: byteSteps .blockComment s
  | .code, b :: s =>
    ⟨.code, [b], if isQuoteByte b then .quoted b else .code⟩ :: byteSteps (if isQuoteByte b then .quoted b else .code) s
  | .quoted mark, 0x5C :: b :: s => ⟨.quoted mark, [0x5C, b], .quoted mark⟩ :: byteSteps (.quoted mark) s
  | .quoted mark, b :: s =>
    ⟨.quoted mark, [b], if b = mark then .code else .quoted mark⟩ :: byteSteps (if b = mark then .code else .quoted mark) s
  | .lineComment, b :: s =>
    ⟨.lineComment, [b], if b = 0x0A then .code else .lineComment⟩ :: byteSteps (if b = 0x0A then .code else .lineComment) s
  | .blockComment, 0x2A :: 0x2F :: s => ⟨.blockComment, [0x2A, 0x2F], .code⟩ :: byteSteps .code s
  | .blockComment, b :: s => ⟨.blockComment, [b], .blockComment⟩ :: byteSteps .blockComment s

theorem flatMap_taken (mode : ByteMode) (s : List UInt8) : (byteSteps mode s).flatMap ByteStep.taken = s := by
  fun_induction byteSteps mode s <;> simp_all

def ByteStep.code? (step : ByteStep) : Option UInt8 :=
  if step.mode = .code ∧ step.next = .code then step.taken.head? else none

def codeBytes (offset : Nat) : List ByteStep → List (Nat × UInt8)
  | [] => []
  | step :: rest => (step.code?.map (offset, ·)).toList ++ codeBytes (offset + step.taken.length) rest

theorem map_snd_codeBytes (offset : Nat) (steps : List ByteStep) :
    (codeBytes offset steps).map Prod.snd = steps.filterMap ByteStep.code? := by
  induction steps generalizing offset with
  | nil => rfl
  | cons step steps ih => cases own : step.code? <;> simp [codeBytes, own, ih]

def literals : List ByteStep → List (List UInt8)
  | [] => []
  | step :: rest =>
    if step.mode = .code ∧ step.next.isQuoted then
      (step.taken ++ (rest.takeWhile (·.mode.isQuoted)).flatMap ByteStep.taken) :: literals rest
    else literals rest

/-- What is left of a step when comments are taken out: the space and the line feed that comments leave are code. -/
def keptStep (step : ByteStep) : Option ByteStep :=
  match step.mode with
  | .code => if step.next.isComment then none else some step
  | .quoted _ => some step
  | .lineComment => if step.taken = [0x0A] then some ⟨.code, [0x0A], .code⟩ else none
  | .blockComment => if step.taken = [0x2A, 0x2F] then some ⟨.code, [0x20], .code⟩ else none

theorem isComment_quote (b : UInt8) : (if isQuoteByte b then ByteMode.quoted b else .code).isComment = false := by
  split <;> rfl

theorem strippedBytes_eq (mode : ByteMode) (s : List UInt8) :
    strippedBytes mode s = ((byteSteps mode s).filterMap keptStep).flatMap ByteStep.taken := by
  fun_induction byteSteps mode s with
  | case1 mode => simp [strippedBytes]
  | case2 s ih | case3 s ih => simpa [strippedBytes, keptStep, ByteMode.isComment] using ih
  | case4 b s noLine noBlock ih =>
    rw [strippedBytes.eq_4 _ _ noLine noBlock, ih]
    simp [keptStep, isComment_quote]
  | case5 mark b s ih => simp [strippedBytes, keptStep, ih]
  | case6 mark b s noEscape ih => simp [strippedBytes.eq_6 _ _ _ noEscape, keptStep, ih]
  | case7 b s ih =>
    by_cases ends : b = 0x0A
    · simpa [strippedBytes, keptStep, ends] using ih
    · simpa [strippedBytes, keptStep, ends] using ih
  | case8 s ih => simp [strippedBytes, keptStep, ih]
  | case9 b s noEnd ih => simpa [strippedBytes.eq_9 _ _ noEnd, keptStep] using ih

theorem strippedBytes_ne_cons {s : List UInt8} {b : UInt8} (apart : ∀ s', s ≠ 0x2F :: s') (other : ∀ s', s ≠ b :: s')
    (left : List UInt8) : strippedBytes .code s ≠ b :: left := by
  cases s with
  | nil => simp [strippedBytes]
  | cons c s =>
    have noSlash : c ≠ 0x2F := fun same => apart s (by rw [same])
    rw [strippedBytes.eq_4 _ _ (fun _ same => absurd same noSlash) (fun _ same => absurd same noSlash)]
    intro same
    exact other s (by rw [(List.cons.inj same).1])

/-- What the copying loop leaves is scanned as the text was, less the steps in comments. -/
theorem byteSteps_strippedBytes (mode : ByteMode) (s : List UInt8) :
    byteSteps mode.uncommented (strippedBytes mode s) = (byteSteps mode s).filterMap keptStep := by
  fun_induction byteSteps mode s with
  | case1 mode => simp [strippedBytes, byteSteps]
  | case2 s ih | case3 s ih => simpa [strippedBytes, keptStep, ByteMode.isComment, ByteMode.uncommented] using ih
  | case4 b s noLine noBlock ih =>
    have onward : (if isQuoteByte b then ByteMode.quoted b else .code).uncommented =
        if isQuoteByte b then .quoted b else .code := by split <;> rfl
    have alone : ∀ c, c = 0x2F ∨ c = 0x2A → ∀ left, b = 0x2F →
        strippedBytes (if isQuoteByte b then .quoted b else .code) s ≠ c :: left := by
      rintro c mark left rfl
      apply strippedBytes_ne_cons (fun s' same => noLine s' rfl same)
      rcases mark with rfl | rfl
      · exact fun s' same => noLine s' rfl same
      · exact fun s' same => noBlock s' rfl same
    rw [onward] at ih
    rw [strippedBytes.eq_4 _ _ noLine noBlock, ByteMode.uncommented,
      byteSteps.eq_4 _ _ (fun left slash => alone _ (.inl rfl) left slash)
        (fun left slash => alone _ (.inr rfl) left slash), ih]
    simp [keptStep, isComment_quote]
  | case5 mark b s ih =>
    rw [ByteMode.uncommented] at ih
    simp [strippedBytes, ByteMode.uncommented, byteSteps, keptStep, ih]
  | case6 mark b s noEscape ih =>
    have onward : (if b = mark then ByteMode.code else .quoted mark).uncommented =
        if b = mark then .code else .quoted mark := by split <;> rfl
    have alone : ∀ c left, b = 0x5C → strippedBytes (if b = mark then .code else .quoted mark) s ≠ c :: left := by
      intro c left escape
      cases s with
      | nil => simp [strippedBytes]
      | cons d s => exact absurd rfl (noEscape d s escape)
    rw [onward] at ih
    rw [strippedBytes.eq_6 _ _ _ noEscape, ByteMode.uncommented, byteSteps.eq_6 _ _ _ alone, ih]
    simp [keptStep]
  | case7 b s ih =>
    by_cases ends : b = 0x0A
    · subst ends
      simpa [strippedBytes, ByteMode.uncommented, byteSteps, isQuoteByte, keptStep] using ih
    · simpa [strippedBytes, ByteMode.uncommented, keptStep, ends] using ih
  | case8 s ih => simpa [strippedBytes, ByteMode.uncommented, byteSteps, isQuoteByte, keptStep] using ih
  | case9 b s noEnd ih => simpa [strippedBytes.eq_9 _ _ noEnd, ByteMode.uncommented, keptStep] using ih

theorem byteSteps_code_strippedBytes (s : List UInt8) :
    byteSteps .code (strippedBytes .code s) = (byteSteps .code s).filterMap keptStep :=
  byteSteps_strippedBytes .code s

theorem isComment_next {mode : ByteMode} {s : List UInt8} {step : ByteStep} (member : step ∈ byteSteps mode s)
    (quoted : step.mode.isQuoted) : step.next.isComment = false := by
  fun_induction byteSteps mode s with
  | case1 => cases member
  | case6 mark b s noEscape ih =>
    rcases List.mem_cons.mp member with rfl | later
    · dsimp only
      split <;> rfl
    · exact ih later
  | _ =>
    rcases List.mem_cons.mp member with rfl | later
    · first | rfl | cases quoted
    · exact ‹step ∈ _ → _› later

/-- The scan of what the copying loop leaves does not come into a comment. -/
theorem isComment_of_mem {s : List UInt8} {step : ByteStep} (member : step ∈ byteSteps .code (strippedBytes .code s)) :
    step.mode.isComment = false ∧ step.next.isComment = false := by
  have onward := isComment_next member
  rw [byteSteps_code_strippedBytes, List.mem_filterMap] at member
  obtain ⟨⟨mode, taken, next⟩, -, kept⟩ := member
  cases mode with
  | code =>
    by_cases comment : next.isComment
    · simp [keptStep, comment] at kept
    · obtain rfl : ⟨.code, taken, next⟩ = step := by simpa [keptStep, comment] using kept
      exact ⟨rfl, by simpa using comment⟩
  | quoted mark =>
    obtain rfl := Option.some.inj kept
    exact ⟨rfl, onward rfl⟩
  | lineComment =>
    by_cases ends : taken = [0x0A]
    · obtain rfl : ⟨.code, [0x0A], .code⟩ = step := by simpa [keptStep, ends] using kept
      exact ⟨rfl, rfl⟩
    · simp [keptStep, ends] at kept
  | blockComment =>
    by_cases ends : taken = [0x2A, 0x2F]
    · obtain rfl : ⟨.code, [0x20], .code⟩ = step := by simpa [keptStep, ends] using kept
      exact ⟨rfl, rfl⟩
    · simp [keptStep, ends] at kept

theorem keptStep_of_not_isComment {step : ByteStep} (inMode : step.mode.isComment = false)
    (inNext : step.next.isComment = false) : keptStep step = some step := by
  obtain ⟨mode, taken, next⟩ := step
  cases mode <;> simp_all [keptStep, ByteMode.isComment]

theorem strippedBytes_strippedBytes (s : List UInt8) :
    strippedBytes .code (strippedBytes .code s) = strippedBytes .code s := by
  have unchanged : (byteSteps .code (strippedBytes .code s)).filterMap keptStep = byteSteps .code (strippedBytes .code s) := by
    rw [List.filterMap_congr (g := some), List.filterMap_some]
    intro step member
    exact keptStep_of_not_isComment (isComment_of_mem member).1 (isComment_of_mem member).2
  rw [strippedBytes_eq, unchanged, flatMap_taken]

def isSolid (b : UInt8) : Bool :=
  b != 0x20 && b != 0x0A

theorem code?_keptStep (step : ByteStep) :
    ((keptStep step).bind ByteStep.code?).filter isSolid = step.code?.filter isSolid := by
  obtain ⟨mode, taken, next⟩ := step
  cases mode with
  | code => cases next <;> rfl
  | quoted mark => rfl
  | lineComment => by_cases ends : taken = [0x0A] <;> simp [keptStep, ends, ByteStep.code?, isSolid]
  | blockComment => by_cases ends : taken = [0x2A, 0x2F] <;> simp [keptStep, ends, ByteStep.code?, isSolid]

theorem solid_codeBytes_strippedBytes (s : List UInt8) :
    ((codeBytes 0 (byteSteps .code (strippedBytes .code s))).map Prod.snd).filter isSolid =
      ((codeBytes 0 (byteSteps .code s)).map Prod.snd).filter isSolid := by
  rw [map_snd_codeBytes, map_snd_codeBytes, byteSteps_code_strippedBytes, List.filterMap_filterMap, List.filter_filterMap,
    List.filter_filterMap]
  exact congrArg (List.filterMap · _) (funext code?_keptStep)

theorem takeWhile_byteSteps {mode : ByteMode} (outside : mode.isQuoted = false) (s : List UInt8) :
    (byteSteps mode s).takeWhile (·.mode.isQuoted) = [] := by
  fun_cases byteSteps mode s <;> first | rfl | cases outside

theorem takeWhile_keptStep (mode : ByteMode) (s : List UInt8) :
    ((byteSteps mode s).filterMap keptStep).takeWhile (·.mode.isQuoted) =
      (byteSteps mode s).takeWhile (·.mode.isQuoted) := by
  have outside : ∀ {mode : ByteMode} {s : List UInt8}, mode.isQuoted = false →
      ((byteSteps mode s).filterMap keptStep).takeWhile (·.mode.isQuoted) =
        (byteSteps mode s).takeWhile (·.mode.isQuoted) := by
    intro mode s other
    rw [← byteSteps_strippedBytes, takeWhile_byteSteps other, takeWhile_byteSteps]
    cases mode <;> first | rfl | cases other
  cases inside : mode.isQuoted with
  | false => exact outside inside
  | true =>
    fun_induction byteSteps mode s with
    | case1 => rfl
    | case5 mark b s ih => simpa [keptStep, ByteMode.isQuoted] using ih rfl
    | case6 mark b s noEscape ih =>
      have onward : ((byteSteps (if b = mark then .code else .quoted mark) s).filterMap keptStep).takeWhile (·.mode.isQuoted) =
          (byteSteps (if b = mark then .code else .quoted mark) s).takeWhile (·.mode.isQuoted) := by
        by_cases ends : b = mark
        · exact outside (by rw [if_pos ends]; rfl)
        · exact ih (by rw [if_neg ends]; rfl)
      simpa [keptStep, ByteMode.isQuoted] using onward
    | _ => cases inside

theorem literals_filterMap_keptStep (mode : ByteMode) (s : List UInt8) :
    literals ((byteSteps mode s).filterMap keptStep) = literals (byteSteps mode s) := by
  fun_induction byteSteps mode s with
  | case1 => rfl
  | case2 s ih | case3 s ih => simpa [keptStep, ByteMode.isComment, literals, ByteMode.isQuoted] using ih
  | case4 b s noLine noBlock ih =>
    simp [keptStep, isComment_quote, literals, takeWhile_keptStep, ih]
  | case5 mark b s ih => simpa [keptStep, literals] using ih
  | case6 mark b s noEscape ih => simpa [keptStep, literals] using ih
  | case7 b s ih =>
    by_cases ends : b = 0x0A
    · simpa [keptStep, ends, literals, ByteMode.isQuoted] using ih
    · simpa [keptStep, ends, literals] using ih
  | case8 s ih => simpa [keptStep, literals, ByteMode.isQuoted] using ih
  | case9 b s noEnd ih => simpa [keptStep, literals] using ih

theorem literals_strippedBytes (s : List UInt8) :
    literals (byteSteps .code (strippedBytes .code s)) = literals (byteSteps .code s) := by
  rw [byteSteps_code_strippedBytes, literals_filterMap_keptStep]

end Conformance.Endpoint
