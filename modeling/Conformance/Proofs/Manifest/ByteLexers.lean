import Conformance.Proofs.Manifest.ByteScan
import Conformance.Proofs.Manifest.Scans
import Conformance.Proofs.Manifest.Uncommented
import Conformance.Proofs.Text.ByteOrder

namespace Conformance.Endpoint

def utf8 (s : List Char) : List UInt8 :=
  s.flatMap String.utf8EncodeChar

theorem utf8EncodeChar_ascii {c : Char} (ascii : c.toNat < 128) : String.utf8EncodeChar c = [UInt8.ofNat c.toNat] := by
  have small : c.val.toNat ≤ 127 := Nat.lt_succ_iff.mp ascii
  unfold String.utf8EncodeChar
  dsimp only
  rw [if_pos small]
  rfl

theorem high_of_mem_utf8EncodeChar {c : Char} (wide : 128 ≤ c.toNat) : ∀ b ∈ String.utf8EncodeChar c, 128 ≤ b.toNat := by
  have large : ¬ c.val.toNat ≤ 127 := Nat.not_le.mpr wide
  unfold String.utf8EncodeChar
  generalize c.val.toNat = n at large
  dsimp only
  rw [if_neg large]
  split_ifs <;> simp <;> omega

theorem utf8_cons_ascii {c : Char} (ascii : c.toNat < 128) (s : List Char) :
    utf8 (c :: s) = UInt8.ofNat c.toNat :: utf8 s := by
  rw [utf8, List.flatMap_cons, utf8EncodeChar_ascii ascii]
  rfl

theorem utf8_eq_cons {s : List Char} {b : UInt8} {more : List UInt8} (starts : utf8 s = b :: more) (low : b.toNat < 128) :
    ∃ s', s = Char.ofNat b.toNat :: s' := by
  cases s with
  | nil => cases starts
  | cons c s =>
    by_cases ascii : c.toNat < 128
    · rw [utf8_cons_ascii ascii] at starts
      refine ⟨s, congrArg (· :: s) ?_⟩
      rw [← (List.cons.inj starts).1, UInt8.toNat_ofNat', Nat.mod_eq_of_lt (by omega), Char.ofNat_toNat]
    · obtain ⟨d, rest, own⟩ := List.exists_cons_of_ne_nil (String.utf8EncodeChar_ne_nil (c := c))
      have high := high_of_mem_utf8EncodeChar (Nat.not_lt.mp ascii) d (by simp [own])
      rw [utf8, List.flatMap_cons, own] at starts
      rw [(List.cons.inj starts).1] at high
      omega

theorem isQuote_iff (c : Char) : isQuote c = true ↔ c = '\'' ∨ c = '"' ∨ c = '`' := by
  simp [isQuote, or_assoc]

theorem ascii_of_isQuote {c : Char} (quote : isQuote c = true) : c.toNat < 128 := by
  rcases (isQuote_iff c).mp quote with rfl | rfl | rfl <;> decide

theorem ofNat_inj_ascii {c d : Char} (ascii : c.toNat < 128) (ascii' : d.toNat < 128) :
    UInt8.ofNat c.toNat = UInt8.ofNat d.toNat ↔ c = d := by
  rw [← UInt8.toNat_inj, UInt8.toNat_ofNat', UInt8.toNat_ofNat', Nat.mod_eq_of_lt (by omega),
    Nat.mod_eq_of_lt (by omega)]
  exact ⟨fun same => Char.toNat_inj.mp same, congrArg _⟩

def ByteStep.marked (step : ByteStep) : List (Role × UInt8) :=
  match step.mode with
  | .code =>
    match step.next with
    | .code => step.taken.map (.code, ·)
    | .quoted _ => step.taken.map (.literal, ·)
    | .lineComment | .blockComment => step.taken.map (.comment, ·)
  | .quoted _ => step.taken.map (.literal, ·)
  | .lineComment => if step.taken = [0x0A] then [(.lineEnd, 0x0A)] else step.taken.map (.comment, ·)
  | .blockComment =>
    if step.taken = [0x2A, 0x2F] then [(.comment, 0x2A), (.blockEnd, 0x2F)] else step.taken.map (.comment, ·)

def ByteMode.role : ByteMode → Role
  | .code => .code
  | .quoted _ => .literal
  | .lineComment | .blockComment => .comment

def Mode.inBytes : Mode → ByteMode
  | .code => .code
  | .quoted mark => .quoted (UInt8.ofNat mark.toNat)
  | .lineComment => .lineComment
  | .blockComment => .blockComment

def encoded (x : Role × Char) : List (Role × UInt8) :=
  (String.utf8EncodeChar x.2).map (x.1, ·)

/-- Bytes outside of ASCII begin and end nothing. -/
theorem marked_append_high {mode : ByteMode} {front : List UInt8} (low : ∀ mark, mode = .quoted mark → mark.toNat < 128)
    (high : ∀ b ∈ front, 128 ≤ b.toNat) (s : List UInt8) :
    (byteSteps mode (front ++ s)).flatMap ByteStep.marked =
      front.map (mode.role, ·) ++ (byteSteps mode s).flatMap ByteStep.marked := by
  induction front with
  | nil => rfl
  | cons b front ih =>
    have own := high b (by simp)
    have apart : ∀ c : UInt8, c.toNat < 128 → b ≠ c := by
      rintro c small rfl
      omega
    have onward := ih fun d member => high d (List.mem_cons_of_mem _ member)
    cases mode with
    | code =>
      have slash : b ≠ 0x2F := apart 0x2F (by decide)
      have noQuote : isQuoteByte b = false := by
        have single : b ≠ 0x27 := apart 0x27 (by decide)
        have double : b ≠ 0x22 := apart 0x22 (by decide)
        have back : b ≠ 0x60 := apart 0x60 (by decide)
        simp [isQuoteByte, single, double, back]
      rw [List.cons_append, byteSteps.eq_4 _ _ (fun _ same => absurd same slash) (fun _ same => absurd same slash)]
      simp [noQuote, ByteStep.marked, ByteMode.role, onward]
    | quoted mark =>
      have escape : b ≠ 0x5C := apart 0x5C (by decide)
      have noEnd : b ≠ mark := apart mark (low mark rfl)
      rw [List.cons_append, byteSteps.eq_6 _ _ _ (fun _ _ same => absurd same escape)]
      simp [noEnd, ByteStep.marked, ByteMode.role, onward]
    | lineComment =>
      have noEnd : b ≠ 0x0A := apart 0x0A (by decide)
      simp [byteSteps, noEnd, ByteStep.marked, ByteMode.role, onward]
    | blockComment =>
      have star : b ≠ 0x2A := apart 0x2A (by decide)
      rw [List.cons_append, byteSteps.eq_9 _ _ (fun _ same => absurd same star)]
      simp [ByteStep.marked, ByteMode.role, onward]

theorem isQuoteByte_ofNat {c : Char} (ascii : c.toNat < 128) : isQuoteByte (UInt8.ofNat c.toNat) = isQuote c := by
  have same : ∀ d : Char, d.toNat < 128 → (UInt8.ofNat c.toNat == UInt8.ofNat d.toNat) = (c == d) := by
    intro d ascii'
    rw [Bool.eq_iff_iff, beq_iff_eq, beq_iff_eq, ofNat_inj_ascii ascii ascii']
  have single := same '\'' (by decide)
  have double := same '"' (by decide)
  have back := same '`' (by decide)
  exact congr (congrArg or (congr (congrArg or single) double)) back

theorem encoded_ascii {c : Char} (ascii : c.toNat < 128) (role : Role) :
    encoded (role, c) = [(role, UInt8.ofNat c.toNat)] := by
  rw [encoded, utf8EncodeChar_ascii ascii]
  rfl

theorem utf8EncodeChar_cons (c : Char) :
    ∃ b more, String.utf8EncodeChar c = b :: more ∧ ∀ d ∈ more, 128 ≤ d.toNat := by
  by_cases ascii : c.toNat < 128
  · exact ⟨_, [], utf8EncodeChar_ascii ascii, by simp⟩
  · obtain ⟨b, more, own⟩ := List.exists_cons_of_ne_nil (String.utf8EncodeChar_ne_nil (c := c))
    exact ⟨b, more, own, fun d member => high_of_mem_utf8EncodeChar (Nat.not_lt.mp ascii) d (by simp [own, member])⟩

def Mode.Proper : Mode → Prop
  | .quoted mark => isQuote mark = true
  | .code | .lineComment | .blockComment => True

theorem Mode.Proper.low {mode : Mode} (proper : mode.Proper) {b : UInt8} (same : mode.inBytes = .quoted b) :
    b.toNat < 128 := by
  cases mode with
  | quoted mark =>
    have ascii := ascii_of_isQuote proper
    cases same
    rw [UInt8.toNat_ofNat']
    omega
  | code | lineComment | blockComment => cases same

theorem marked_wide (mode : Mode) (proper : mode.Proper) {c : Char} (wide : ¬ c.toNat < 128) (s : List Char) :
    (byteSteps mode.inBytes (utf8 (c :: s))).flatMap ByteStep.marked =
      encoded (mode.inBytes.role, c) ++ (byteSteps mode.inBytes (utf8 s)).flatMap ByteStep.marked :=
  marked_append_high (fun _ => proper.low) (high_of_mem_utf8EncodeChar (Nat.not_lt.mp wide)) (utf8 s)

section Ascii

variable {c : Char} {s : List Char} (ascii : c.toNat < 128)

include ascii

/-- A character of the code is one step, unless a comment begins with it. -/
theorem byteSteps_code (noLine : ∀ s', c = '/' → s = '/' :: s' → False) (noBlock : ∀ s', c = '/' → s = '*' :: s' → False) :
    byteSteps Mode.code.inBytes (utf8 (c :: s)) =
      ⟨.code, [UInt8.ofNat c.toNat], (if isQuote c then Mode.quoted c else .code).inBytes⟩ ::
        byteSteps (if isQuote c then Mode.quoted c else .code).inBytes (utf8 s) := by
  have next : (if isQuote c then Mode.quoted c else .code).inBytes =
      if isQuoteByte (UInt8.ofNat c.toNat) then .quoted (UInt8.ofNat c.toNat) else .code := by
    rw [isQuoteByte_ofNat ascii]
    split <;> rfl
  rw [next, utf8_cons_ascii ascii, Mode.inBytes, byteSteps.eq_4]
  · intro more slash ahead
    obtain ⟨s', rfl⟩ := utf8_eq_cons ahead (by decide)
    exact noLine s' ((ofNat_inj_ascii (d := '/') ascii (by decide)).mp slash) rfl
  · intro more slash ahead
    obtain ⟨s', rfl⟩ := utf8_eq_cons ahead (by decide)
    exact noBlock s' ((ofNat_inj_ascii (d := '/') ascii (by decide)).mp slash) rfl

theorem byteSteps_quoted {mark : Char} (quote : isQuote mark = true) (noEscape : ∀ d s', c = '\\' → s = d :: s' → False) :
    byteSteps (Mode.quoted mark).inBytes (utf8 (c :: s)) =
      ⟨(Mode.quoted mark).inBytes, [UInt8.ofNat c.toNat], (if c = mark then Mode.code else .quoted mark).inBytes⟩ ::
        byteSteps (if c = mark then Mode.code else .quoted mark).inBytes (utf8 s) := by
  have next : (if c = mark then Mode.code else .quoted mark).inBytes =
      if UInt8.ofNat c.toNat = UInt8.ofNat mark.toNat then .code else .quoted (UInt8.ofNat mark.toNat) := by
    simp only [ofNat_inj_ascii ascii (ascii_of_isQuote quote)]
    split <;> rfl
  rw [next, utf8_cons_ascii ascii, Mode.inBytes, byteSteps.eq_6]
  intro b more escape ahead
  cases s with
  | nil => cases ahead
  | cons d s => exact noEscape d s ((ofNat_inj_ascii (d := '\\') ascii (by decide)).mp escape) rfl

theorem ofNat_ne_feed (inside : c ≠ '\n') : UInt8.ofNat c.toNat ≠ 0x0A :=
  fun same => inside ((ofNat_inj_ascii (d := '\n') ascii (by decide)).mp same)

theorem byteSteps_lineComment (inside : c ≠ '\n') : byteSteps Mode.lineComment.inBytes (utf8 (c :: s)) =
    ⟨.lineComment, [UInt8.ofNat c.toNat], .lineComment⟩ :: byteSteps Mode.lineComment.inBytes (utf8 s) := by
  rw [utf8_cons_ascii ascii, Mode.inBytes, byteSteps, if_neg (ofNat_ne_feed ascii inside)]

theorem byteSteps_blockComment (inside : ∀ s', c = '*' → s = '/' :: s' → False) :
    byteSteps Mode.blockComment.inBytes (utf8 (c :: s)) =
      ⟨.blockComment, [UInt8.ofNat c.toNat], .blockComment⟩ :: byteSteps Mode.blockComment.inBytes (utf8 s) := by
  rw [utf8_cons_ascii ascii, Mode.inBytes, byteSteps.eq_9]
  intro more star ahead
  obtain ⟨s', rfl⟩ := utf8_eq_cons ahead (by decide)
  exact inside s' ((ofNat_inj_ascii (d := '*') ascii (by decide)).mp star) rfl

end Ascii

/-- The steps over the bytes of a text give every byte the role of its character. -/
theorem marked_utf8 (mode : Mode) (s : List Char) (proper : mode.Proper) :
    (byteSteps mode.inBytes (utf8 s)).flatMap ByteStep.marked = (roles mode s).flatMap encoded := by
  fun_induction roles mode s with
  | case1 mode => simp [utf8, byteSteps]
  | case2 s ih =>
    have bytes : utf8 ('/' :: '/' :: s) = 0x2F :: 0x2F :: utf8 s := rfl
    rw [bytes, Mode.inBytes, byteSteps, List.flatMap_cons, List.flatMap_cons, List.flatMap_cons, ← ih trivial]
    rfl
  | case3 s ih =>
    have bytes : utf8 ('/' :: '*' :: s) = 0x2F :: 0x2A :: utf8 s := rfl
    rw [bytes, Mode.inBytes, byteSteps, List.flatMap_cons, List.flatMap_cons, List.flatMap_cons, ← ih trivial]
    rfl
  | case4 c s noLine noBlock quote ih =>
    have ascii := ascii_of_isQuote quote
    rw [byteSteps_code ascii noLine noBlock, if_pos quote, List.flatMap_cons, List.flatMap_cons, encoded_ascii ascii, ih quote]
    rfl
  | case5 c s noLine noBlock noQuote ih =>
    by_cases ascii : c.toNat < 128
    · rw [byteSteps_code ascii noLine noBlock, if_neg noQuote, List.flatMap_cons, List.flatMap_cons, encoded_ascii ascii,
        ih trivial]
      rfl
    · rw [marked_wide .code trivial ascii, ih trivial, List.flatMap_cons]
      rfl
  | case6 mark c s ih =>
    obtain ⟨b, more, own, high⟩ := utf8EncodeChar_cons c
    have bytes : utf8 ('\\' :: c :: s) = 0x5C :: b :: (more ++ utf8 s) := by
      rw [utf8_cons_ascii (by decide), utf8, List.flatMap_cons, own]
      rfl
    have behind := marked_append_high (fun _ => proper.low) high (utf8 s)
    have onward := ih proper
    rw [Mode.inBytes] at behind onward ⊢
    rw [bytes, byteSteps, List.flatMap_cons, behind, onward, List.flatMap_cons, List.flatMap_cons,
      encoded_ascii (by decide), encoded, own]
    simp [ByteStep.marked, ByteMode.role]
  | case7 mark c s noEscape ih =>
    have onward := ih (by split <;> [trivial; exact proper])
    by_cases ascii : c.toNat < 128
    · rw [byteSteps_quoted ascii proper noEscape, List.flatMap_cons, List.flatMap_cons, encoded_ascii ascii, onward]
      rfl
    · have apart : c ≠ mark := by
        rintro rfl
        exact ascii (ascii_of_isQuote proper)
      rw [if_neg apart] at onward ⊢
      rw [marked_wide _ proper ascii, onward, List.flatMap_cons]
      rfl
  | case8 s ih =>
    have bytes : utf8 ('\n' :: s) = 0x0A :: utf8 s := rfl
    rw [bytes, Mode.inBytes, byteSteps, if_pos rfl, List.flatMap_cons, List.flatMap_cons, ← ih trivial]
    rfl
  | case9 c s inside ih =>
    by_cases ascii : c.toNat < 128
    · rw [byteSteps_lineComment ascii inside, List.flatMap_cons, List.flatMap_cons, encoded_ascii ascii, ih trivial]
      simp [ByteStep.marked, ofNat_ne_feed ascii inside]
    · rw [marked_wide .lineComment trivial ascii, ih trivial, List.flatMap_cons]
      rfl
  | case10 s ih =>
    have bytes : utf8 ('*' :: '/' :: s) = 0x2A :: 0x2F :: utf8 s := rfl
    rw [bytes, Mode.inBytes, byteSteps, List.flatMap_cons, List.flatMap_cons, List.flatMap_cons, ← ih trivial]
    rfl
  | case11 c s inside ih =>
    by_cases ascii : c.toNat < 128
    · rw [byteSteps_blockComment ascii inside, List.flatMap_cons, List.flatMap_cons, encoded_ascii ascii, ih trivial]
      simp [ByteStep.marked]
    · rw [marked_wide .blockComment trivial ascii, ih trivial, List.flatMap_cons]
      rfl

theorem marked_byteSteps (s : List Char) :
    (byteSteps .code (utf8 s)).flatMap ByteStep.marked = (roles .code s).flatMap encoded :=
  marked_utf8 .code s trivial

def keptByte : Role × UInt8 → Option UInt8
  | (.code, b) => some b
  | (.literal, b) => some b
  | (.comment, _) => none
  | (.lineEnd, b) => some b
  | (.blockEnd, _) => some 0x20

theorem filterMap_keptByte_map {role : Role} (same : ∀ b, keptByte (role, b) = some b) (bytes : List UInt8) :
    (bytes.map (role, ·)).filterMap keptByte = bytes := by
  rw [List.filterMap_map]
  exact (congrArg (List.filterMap · bytes) (funext same)).trans List.filterMap_some

theorem filterMap_keptByte_comment (bytes : List UInt8) : (bytes.map (Role.comment, ·)).filterMap keptByte = [] := by
  rw [List.filterMap_eq_nil_iff]
  intro x member
  obtain ⟨b, -, rfl⟩ := List.mem_map.mp member
  rfl

theorem filterMap_marked (step : ByteStep) :
    step.marked.filterMap keptByte = (keptStep step).toList.flatMap ByteStep.taken := by
  obtain ⟨mode, taken, next⟩ := step
  have whole : ∀ {role : Role}, (∀ b, keptByte (role, b) = some b) →
      (taken.map (role, ·)).filterMap keptByte = [ByteStep.mk mode taken next].flatMap ByteStep.taken := by
    intro role same
    rw [filterMap_keptByte_map same, List.flatMap_singleton]
  cases mode with
  | code =>
    cases next with
    | code | quoted => exact whole fun _ => rfl
    | lineComment | blockComment => exact filterMap_keptByte_comment taken
  | quoted mark => exact whole fun _ => rfl
  | lineComment =>
    by_cases ends : taken = [0x0A]
    · rw [ends]
      rfl
    · simp only [ByteStep.marked, keptStep, if_neg ends, filterMap_keptByte_comment]
      rfl
  | blockComment =>
    by_cases ends : taken = [0x2A, 0x2F]
    · rw [ends]
      rfl
    · simp only [ByteStep.marked, keptStep, if_neg ends, filterMap_keptByte_comment]
      rfl

theorem eq_slash_of_blockEnd {mode : Mode} {s : List Char} {c : Char} (member : (Role.blockEnd, c) ∈ roles mode s) :
    c = '/' := by
  fun_induction roles mode s with
  | case10 s ih =>
    rcases List.mem_cons.mp member with same | member
    · cases same
    · exact (List.mem_cons.mp member).elim (fun same => (Prod.mk.inj same).2) ih
  | _ => simp_all

theorem filterMap_encoded {x : Role × Char} (ends : x.1 = .blockEnd → x.2 = '/') :
    (encoded x).filterMap keptByte = (kept x).toList.flatMap String.utf8EncodeChar := by
  obtain ⟨role, c⟩ := x
  cases role with
  | code | literal | lineEnd =>
    exact (filterMap_keptByte_map (fun _ => rfl) _).trans (List.flatMap_singleton ..).symm
  | comment => exact filterMap_keptByte_comment _
  | blockEnd =>
    obtain rfl := ends rfl
    rfl

/-- The copying loop leaves the bytes of the characters that are in no comment. -/
theorem strippedBytes_utf8 (s : List Char) : strippedBytes .code (utf8 s) = utf8 (withoutComments s) := by
  calc strippedBytes .code (utf8 s)
      = (byteSteps .code (utf8 s)).flatMap fun step => step.marked.filterMap keptByte := by
        rw [strippedBytes_eq, List.filterMap_eq_flatMap_toList, List.flatMap_assoc]
        exact congrArg (List.flatMap · _) (funext fun step => (filterMap_marked step).symm)
    _ = ((roles .code s).flatMap encoded).filterMap keptByte := by
        rw [← marked_byteSteps, List.filterMap_flatMap]
    _ = (roles .code s).flatMap fun x => (kept x).toList.flatMap String.utf8EncodeChar := by
        rw [List.filterMap_flatMap]
        apply List.flatMap_congr
        rintro ⟨role, c⟩ member
        apply filterMap_encoded
        rintro rfl
        exact eq_slash_of_blockEnd member
    _ = utf8 (withoutComments s) := by
        rw [withoutComments, List.filterMap_eq_flatMap_toList, utf8, List.flatMap_assoc]

def codeAmongBytes (offset : Nat) (marked : List (Role × UInt8)) : List (Nat × UInt8) :=
  (marked.zipIdx offset).filterMap fun (x, at_) => if x.1 = .code then some (at_, x.2) else none

theorem codeAmongBytes_append (offset : Nat) (front back : List (Role × UInt8)) :
    codeAmongBytes offset (front ++ back) = codeAmongBytes offset front ++ codeAmongBytes (offset + front.length) back := by
  rw [codeAmongBytes, List.zipIdx_append, List.filterMap_append]
  rfl

theorem codeAmongBytes_map {role : Role} (other : role ≠ .code) (offset : Nat) (bytes : List UInt8) :
    codeAmongBytes offset (bytes.map (role, ·)) = [] := by
  rw [codeAmongBytes, List.filterMap_eq_nil_iff]
  rintro ⟨x, at_⟩ member
  obtain ⟨b, -, rfl⟩ := List.mem_map.mp (List.fst_mem_of_mem_zipIdx member)
  exact if_neg other

theorem codeBytes_eq (offset : Nat) (mode : ByteMode) (s : List UInt8) :
    codeBytes offset (byteSteps mode s) = codeAmongBytes offset ((byteSteps mode s).flatMap ByteStep.marked) := by
  fun_induction byteSteps mode s generalizing offset with
  | case1 => rfl
  | case4 b s noLine noBlock ih =>
    rw [codeBytes, ih, List.flatMap_cons, codeAmongBytes_append]
    split <;> rfl
  | case7 b s ih =>
    rw [codeBytes, ih, List.flatMap_cons, codeAmongBytes_append]
    by_cases ends : b = 0x0A <;> simp [ByteStep.marked, ends, ByteStep.code?, codeAmongBytes]
  | case9 b s noEnd ih =>
    rw [codeBytes, ih, List.flatMap_cons, codeAmongBytes_append]
    simp [ByteStep.marked, ByteStep.code?, codeAmongBytes]
  | case2 s ih | case3 s ih | case5 mark b s ih | case6 mark b s noEscape ih | case8 s ih =>
    rw [codeBytes, ih, List.flatMap_cons, codeAmongBytes_append]
    rfl

def spread (x : Nat × Char) : List (Nat × UInt8) :=
  ((String.utf8EncodeChar x.2).zipIdx x.1).map Prod.swap

theorem codeAmongBytes_encoded (offset : Nat) (c : Char) :
    codeAmongBytes offset (encoded (.code, c)) = spread (offset, c) := by
  rw [codeAmongBytes, encoded, List.zipIdx_map, List.filterMap_map, spread, ← List.filterMap_eq_map]
  rfl

theorem flatMap_spread (offset : Nat) (marked : List (Role × Char)) :
    (codeAmong offset marked).flatMap spread = codeAmongBytes offset (marked.flatMap encoded) := by
  induction marked generalizing offset with
  | nil => rfl
  | cons x marked ih =>
    obtain ⟨role, c⟩ := x
    have size : (encoded (role, c)).length = c.utf8Size := by
      rw [encoded, List.length_map, String.length_utf8EncodeChar]
    rw [codeAmong_cons, List.flatMap_append, ih, List.flatMap_cons, codeAmongBytes_append, size]
    by_cases code : role = .code
    · rw [if_pos code, code, codeAmongBytes_encoded, List.flatMap_singleton]
    · rw [if_neg code, encoded, codeAmongBytes_map code]
      rfl

theorem codeBytes_utf8 (s : List Char) : codeBytes 0 (byteSteps .code (utf8 s)) = (codeFrom 0 s).flatMap spread := by
  rw [codeFrom_eq, flatMap_spread, codeBytes_eq, marked_byteSteps]

theorem bytes_eq_utf8 (text : String) : Text.bytes text = utf8 text.toList :=
  Text.bytes_eq text

/-- What the copying loop leaves of a text is the text without comments, so it is UTF-8; the scan of it comes into no
comment, and the loop changes nothing in it; the scan hands out the same bytes of it as of the text, but for spaces and
line feeds, and comes over the same literals. -/
theorem scan_strippedBytes (text : String) :
    (codeBytes 0 (byteSteps .code (Text.bytes text)) = (codeFrom 0 text.toList).flatMap spread ∧
      strippedBytes .code (Text.bytes text) = Text.bytes (String.ofList (withoutComments text.toList))) ∧
    String.fromUTF8? (strippedBytes .code (Text.bytes text)).toByteArray = some (String.ofList (withoutComments text.toList)) ∧
    ((∀ step ∈ byteSteps .code (strippedBytes .code (Text.bytes text)),
        step.mode.isComment = false ∧ step.next.isComment = false) ∧
      strippedBytes .code (strippedBytes .code (Text.bytes text)) = strippedBytes .code (Text.bytes text)) ∧
    ((codeBytes 0 (byteSteps .code (strippedBytes .code (Text.bytes text)))).map Prod.snd).filter isSolid =
      ((codeBytes 0 (byteSteps .code (Text.bytes text))).map Prod.snd).filter isSolid ∧
    literals (byteSteps .code (strippedBytes .code (Text.bytes text))) = literals (byteSteps .code (Text.bytes text)) := by
  have left : strippedBytes .code (Text.bytes text) = Text.bytes (String.ofList (withoutComments text.toList)) := by
    rw [bytes_eq_utf8, strippedBytes_utf8, bytes_eq_utf8, String.toList_ofList]
  have valid : String.fromUTF8? (Text.bytes (String.ofList (withoutComments text.toList))).toByteArray =
      some (String.ofList (withoutComments text.toList)) := by
    generalize String.ofList (withoutComments text.toList) = left
    have whole : (Text.bytes left).toByteArray = left.toByteArray := by
      conv_rhs => rw [← String.ofList_toList (s := left), String.toByteArray_ofList]
      rw [Text.bytes_eq]
      rfl
    rw [whole, String.fromUTF8?, dif_pos left.isValidUTF8]
    rfl
  refine ⟨⟨?_, left⟩, left ▸ valid, ⟨fun step => isComment_of_mem, strippedBytes_strippedBytes _⟩,
    solid_codeBytes_strippedBytes _, literals_strippedBytes _⟩
  rw [bytes_eq_utf8, codeBytes_utf8]

end Conformance.Endpoint
