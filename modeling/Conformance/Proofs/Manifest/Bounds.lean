import Conformance.Proofs.Manifest.Lexing
import Conformance.Proofs.Manifest.Scans
import Conformance.Proofs.Pattern.Matches

namespace Conformance.Endpoint.Manifest

open Text

theorem Inert.codeFrom {avoids : Char → Bool} {text left : List Char} (inert : Inert avoids text left) (offset : Nat) :
    ∃ code : List (Nat × Char), (∀ x ∈ code, avoids x.2 = false) ∧
      ∀ rest, Endpoint.codeFrom offset (text ++ rest) = code ++ Endpoint.codeFrom (offset + byteLength text) rest := by
  obtain ⟨marked, closed, _, free⟩ := inert
  refine ⟨codeAmong offset marked, ?_, ?_⟩
  · rintro ⟨at_, c⟩ member
    obtain ⟨front, back, rfl, _⟩ := mem_placed (mem_code_iff.mp member)
    exact free (.code, c) (by simp) rfl
  · intro rest
    rw [codeFrom_eq, closed, codeAmong_append, closed.map_snd, codeFrom_eq]

theorem codeFrom_char {c : Char} (noQuote : isQuote c = false) (noSlash : c ≠ '/') (offset : Nat) (rest : List Char) :
    codeFrom offset (c :: rest) = (offset, c) :: codeFrom (offset + c.utf8Size) rest := by
  have closed := closed_char noQuote noSlash rest
  rw [List.singleton_append] at closed
  rw [codeFrom, closed]
  rfl

theorem closingBracket?_append {code : List (Nat × Char)} (free : ∀ x ∈ code, isSquare x.2 = false) (depth : Nat)
    (more : List (Nat × Char)) : closingBracket? depth (code ++ more) = closingBracket? depth more := by
  induction code with
  | nil => rfl
  | cons x code ih =>
    obtain ⟨at_, c⟩ := x
    obtain ⟨opens, closes⟩ : c ≠ '[' ∧ c ≠ ']' := by simpa [isSquare] using free (at_, c) (by simp)
    rw [List.cons_append, closingBracket?, if_neg opens, if_neg closes, ih fun y member => free y (by simp [member])]

theorem blockBounds_append {code : List (Nat × Char)} (free : ∀ x ∈ code, isBrace x.2 = false) (depth start : Nat)
    (more : List (Nat × Char)) : blockBounds depth start (code ++ more) = blockBounds depth start more := by
  induction code with
  | nil => rfl
  | cons x code ih =>
    obtain ⟨at_, c⟩ := x
    obtain ⟨opens, closes⟩ : c ≠ '\x7b' ∧ c ≠ '\x7d' := by simpa [isBrace] using free (at_, c) (by simp)
    rw [List.cons_append, blockBounds.eq_def]
    dsimp only
    rw [if_neg opens, if_neg closes, ih fun y member => free y (by simp [member])]

theorem closingBracket?_inert {text left : List Char} (inert : Inert isSquare text left) (depth offset : Nat)
    (rest : List Char) :
    closingBracket? depth (codeFrom offset (text ++ rest)) =
      closingBracket? depth (codeFrom (offset + byteLength text) rest) := by
  obtain ⟨code, free, split⟩ := inert.codeFrom offset
  rw [split, closingBracket?_append free]

theorem blockBounds_inert {text left : List Char} (inert : Inert isBrace text left) (depth start offset : Nat)
    (rest : List Char) :
    blockBounds depth start (codeFrom offset (text ++ rest)) =
      blockBounds depth start (codeFrom (offset + byteLength text) rest) := by
  obtain ⟨code, free, split⟩ := inert.codeFrom offset
  rw [split, blockBounds_append free]

theorem cut_append (front part back : List Char) :
    cut (front ++ (part ++ back)) (byteLength front) (byteLength front + byteLength part) = .ok part := by
  have found : slice? (front ++ (part ++ back)) (byteLength front) (byteLength front + byteLength part) = some part :=
    slice?_eq_some_iff.mpr ⟨front, back, by simp, rfl, rfl⟩
  rw [cut, found]

theorem utf8Size_brace : '\x7b'.utf8Size = 1 ∧ '\x7d'.utf8Size = 1 := by
  decide

theorem blockBounds_object {o : Object} (named : o.Named) (start offset : Nat) (rest : List Char) :
    ∃ start', blockBounds 0 start (codeFrom offset (o.written ++ rest)) =
      (offset, offset + byteLength o.written) ::
        blockBounds 0 start' (codeFrom (offset + byteLength o.written) rest) := by
  have inner := inert_object_inside apart_isBrace named
  have size : byteLength o.written = 1 + byteLength (o.text Property.text) + 1 := by
    rw [Object.written, byteLength_cons, byteLength_append, byteLength_cons, byteLength_nil, utf8Size_brace.1,
      utf8Size_brace.2]
    omega
  refine ⟨offset, ?_⟩
  rw [Object.written, List.cons_append, List.append_assoc, codeFrom_char (by decide) (by decide), blockBounds,
    if_pos rfl, if_pos rfl, blockBounds_inert inner, List.singleton_append, codeFrom_char (by decide) (by decide),
    blockBounds, if_neg (by decide), if_pos rfl, ← Object.written, size, utf8Size_brace.1, utf8Size_brace.2]
  simp only [Nat.add_assoc]

def cutBlocks (start : Nat) (front text : List Char) : Except Fault (List (List Char)) :=
  (blockBounds 0 start (codeFrom (byteLength front) text)).mapM fun (open_, close) => cut (front ++ text) open_ close

theorem cutBlocks_inert {passed left : List Char} (inert : Inert isBrace passed left) (start : Nat)
    (front text : List Char) : cutBlocks start front (passed ++ text) = cutBlocks start (front ++ passed) text := by
  rw [cutBlocks, cutBlocks, blockBounds_inert inert, byteLength_append, List.append_assoc]

theorem cutBlocks_object {o : Object} (named : o.Named) (start : Nat) (front text : List Char) :
    ∃ start', cutBlocks start front (o.written ++ text) =
      (cutBlocks start' (front ++ o.written) text).map (o.written :: ·) := by
  obtain ⟨start', found⟩ := blockBounds_object named start (byteLength front) text
  refine ⟨start', ?_⟩
  have cutOut := cut_append front o.written text
  rw [cutBlocks, found, List.mapM_cons, cutBlocks, byteLength_append, List.append_assoc]
  dsimp only
  rw [cutOut]
  rfl

theorem inert_gap (g : Gap) : Inert isBrace g.text g.plain.text :=
  .gap apart_isBrace.blank g

theorem inert_comma : Inert isBrace [','] [','] :=
  .word (by decide) (by decide)

theorem cutBlocks_tail {t : Tail Object} (named : ∀ o ∈ t.items, o.Named) (start : Nat) (front : List Char) :
    cutBlocks start front (t.text Object.written ++ [']']) = .ok (t.items.map Object.written) := by
  have last : ∀ start front, cutBlocks start front [']'] = .ok [] := fun _ _ => rfl
  induction t generalizing start front with
  | done after =>
    rw [Tail.text, cutBlocks_inert (inert_gap after), last]
    rfl
  | comma after more =>
    rw [Tail.text, List.append_assoc, cutBlocks_inert (inert_gap after), List.cons_append, ← List.singleton_append,
      cutBlocks_inert inert_comma, cutBlocks_inert (inert_gap more), last]
    rfl
  | next after before o tail ih =>
    have shape : (Tail.next after before o tail).text Object.written ++ [']'] =
        after.text ++ ([','] ++ (before.text ++ (o.written ++ (tail.text Object.written ++ [']'])))) := by
      simp [Tail.text]
    rw [shape, cutBlocks_inert (inert_gap after), cutBlocks_inert inert_comma, cutBlocks_inert (inert_gap before)]
    obtain ⟨start', first⟩ := cutBlocks_object (named o (by simp [Tail.items])) start
      (front ++ after.text ++ [','] ++ before.text) (tail.text Object.written ++ [']'])
    rw [first, ih fun other member => named other (by simp [Tail.items, member])]
    rfl

/-- The objects that are cut out of an array are the ones that were written. -/
theorem cutBlocks_array {a : ArrayLiteral} (named : ∀ o ∈ a.list, o.Named) :
    cutBlocks 0 [] a.written = .ok (a.list.map Object.written) := by
  have bracket : Inert isBrace ['['] ['['] := .word (by decide) (by decide)
  cases a with
  | empty gap =>
    rw [ArrayLiteral.written, ← List.singleton_append, cutBlocks_inert bracket, Inside.text,
      cutBlocks_inert (inert_gap gap)]
    rfl
  | items before o tail =>
    have shape : ArrayLiteral.written (.items before o tail) =
        ['['] ++ (before.text ++ (o.written ++ (tail.text Object.written ++ [']']))) := by
      simp [ArrayLiteral.written, Inside.text]
    rw [shape, cutBlocks_inert bracket, cutBlocks_inert (inert_gap before)]
    obtain ⟨start', first⟩ := cutBlocks_object (named o (by simp [Inside.list])) 0 ([] ++ ['['] ++ before.text)
      (tail.text Object.written ++ [']'])
    rw [first, cutBlocks_tail fun other member => named other (by simp [Inside.list, member])]
    rfl

theorem inert_array_inside {a : ArrayLiteral} (named : ∀ o ∈ a.list, o.Named) :
    Inert isSquare (a.text Object.written) ((a.plain Object.plain).text Object.written) :=
  inert_inside apart_isSquare fun o member => inert_object (named o member)

/-- The words that declare the manifest are found at the start of its text. -/
theorem declaration_find? (rest : List Char) :
    declaration.find? ("export const ENDPOINT_MANIFEST".toList ++ ' ' :: rest) =
      some ⟨.ofText ("export const ENDPOINT_MANIFEST".toList ++ ' ' :: rest), ⟨30, some 'T', ' ' :: rest⟩, []⟩ := by
  have found : declaration.ways ⟨.ofText ("export const ENDPOINT_MANIFEST".toList ++ ' ' :: rest), []⟩ =
      [⟨⟨30, some 'T', ' ' :: rest⟩, []⟩] := by
    unfold declaration Pattern.someBlanks
    rw [Pattern.ways_chain_text (u := " const ENDPOINT_MANIFEST".toList ++ ' ' :: rest) rfl,
      Pattern.ways_chain_mostOne (w := [' ']) (u := "const ENDPOINT_MANIFEST".toList ++ ' ' :: rest) rfl (by simp)
        (by decide) (Pattern.stops_cons.mpr (by decide))
        (fun m goes => Pattern.ways_chain_text_of_goes goes ⟨'c', by decide, by decide⟩),
      Pattern.ways_chain_text (u := " ENDPOINT_MANIFEST".toList ++ ' ' :: rest) rfl,
      Pattern.ways_chain_mostOne (w := [' ']) (u := "ENDPOINT_MANIFEST".toList ++ ' ' :: rest) rfl (by simp)
        (by decide) (Pattern.stops_cons.mpr (by decide))
        (fun m goes => Pattern.ways_chain_text_of_goes goes ⟨'E', by decide, by decide⟩),
      Pattern.ways_chain_text (u := ' ' :: rest) rfl, Pattern.ways_chain_wordBorder (by rfl)]
    rfl
  have whole := Pattern.matchAt?_of_ways found
  exact Pattern.searchFrom_of_matchAt? whole

theorem dropWhile_append_of_free {code : List (Nat × Char)} (free : ∀ x ∈ code, isSquare x.2 = false)
    (more : List (Nat × Char)) : (code ++ more).dropWhile (·.2 != '[') = more.dropWhile (·.2 != '[') := by
  apply List.dropWhile_append_of_pos
  intro x member
  have other : x.2 ≠ '[' := by
    have outside := free x member
    simp only [isSquare, Bool.or_eq_false_iff, beq_eq_false_iff_ne] at outside
    exact outside.1
  simpa using other

theorem fromBracket_written (gap : Gap) (inside : List Char) :
    fromBracket (codeFrom 30 (' ' :: '=' :: (gap.text ++ '[' :: inside))) =
      codeFrom (32 + byteLength gap.text) ('[' :: inside) := by
  obtain ⟨code, free, split⟩ := (Inert.gap apart_isSquare.blank gap).codeFrom 32
  rw [codeFrom_char (by decide) (by decide), codeFrom_char (by decide) (by decide)]
  change (codeFrom 32 (gap.text ++ '[' :: inside)).dropWhile (·.2 != '[') = _
  rw [split, dropWhile_append_of_free free, codeFrom_char (by decide) (by decide)]
  rfl

theorem arrayBounds_written {array : ArrayLiteral} (named : ∀ o ∈ array.list, o.Named) (gap : Gap) (rest : List Char) :
    arrayBounds (written gap array rest) =
      .ok (32 + byteLength gap.text, 32 + byteLength gap.text + byteLength array.written) := by
  have shape : written gap array rest = "export const ENDPOINT_MANIFEST".toList ++
      ' ' :: '=' :: (gap.text ++ '[' :: (array.text Object.written ++ ']' :: rest)) := by
    have words : "export const ENDPOINT_MANIFEST =".toList = "export const ENDPOINT_MANIFEST".toList ++ [' ', '='] := by
      rfl
    unfold written ArrayLiteral.written
    rw [words]
    simp only [List.append_assoc, List.cons_append, List.nil_append]
  have size : byteLength array.written = byteLength (array.text Object.written) + 2 := by
    rw [ArrayLiteral.written, byteLength_cons, byteLength_append, byteLength_cons, byteLength_nil]
    have one : '['.utf8Size = 1 ∧ ']'.utf8Size = 1 := by decide
    omega
  rw [shape, arrayBounds, declaration_find?]
  dsimp only
  rw [fromBracket_written, codeFrom_char (by decide) (by decide)]
  dsimp only
  rw [closingBracket?, if_pos rfl, closingBracket?_inert (inert_array_inside named),
    codeFrom_char (by decide) (by decide), closingBracket?, if_neg (by decide), if_pos rfl, if_pos (by decide), size]
  have one : '['.utf8Size = 1 := by decide
  have stop : 32 + byteLength gap.text + '['.utf8Size + byteLength (array.text Object.written) + 1 =
      32 + byteLength gap.text + (byteLength (array.text Object.written) + 2) := by omega
  rw [← stop]

theorem arrayText_written {array : ArrayLiteral} (named : ∀ o ∈ array.list, o.Named) (gap : Gap) (rest : List Char) :
    arrayText (written gap array rest) = pure array.written := by
  have front : byteLength ("export const ENDPOINT_MANIFEST =".toList ++ gap.text) = 32 + byteLength gap.text := by
    rw [byteLength_append]
    rfl
  have cutOut := cut_append ("export const ENDPOINT_MANIFEST =".toList ++ gap.text) array.written rest
  rw [front, List.append_assoc] at cutOut
  have whole : cut (written gap array rest) (32 + byteLength gap.text)
      (32 + byteLength gap.text + byteLength array.written) = .ok array.written := cutOut
  unfold arrayText
  rw [arrayBounds_written named]
  change ExceptT.lift (cut _ _ _) = _
  rw [whole]
  rfl

end Conformance.Endpoint.Manifest
