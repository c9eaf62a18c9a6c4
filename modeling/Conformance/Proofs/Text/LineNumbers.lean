import Conformance.Proofs.Text.ByteOrder
import Conformance.Proofs.Text.Lines

namespace Conformance.Text

variable {s line : List Char} {o : Nat}

theorem length_bytes (t : String) : (bytes t).length = byteLength t.toList := by
  rw [bytes_eq]
  induction t.toList with
  | nil => rfl
  | cons c s ih => rw [List.flatMap_cons, List.length_append, String.length_utf8EncodeChar, ih, byteLength_cons]

section Bytes

theorem feed_not_mem_utf8EncodeChar {c : Char} (other : c ≠ '\n') : 0x0A ∉ String.utf8EncodeChar c := by
  have differs : c.val.toNat ≠ 10 := fun same => other (Char.ext (UInt32.toNat_inj.mp same))
  unfold String.utf8EncodeChar
  generalize c.val.toNat = v at *
  dsimp only
  -- one case for each length
  split_ifs <;> simp only [List.mem_cons, List.not_mem_nil, or_false, ← UInt8.toNat_inj, UInt8.toNat_ofNat', UInt8.reduceToNat]
  all_goals omega

theorem count_take_utf8EncodeChar (c : Char) (n : Nat) :
    ((String.utf8EncodeChar c).take n).count 0x0A = if c = '\n' ∧ 0 < n then 1 else 0 := by
  by_cases feed : c = '\n'
  · subst feed
    have one : String.utf8EncodeChar '\n' = [0x0A] := by decide
    rw [one]
    cases n <;> simp
  · rw [if_neg fun both => feed both.1, List.count_eq_zero]
    exact fun inside => feed_not_mem_utf8EncodeChar feed (List.mem_of_mem_take inside)

theorem count_take_flatMap (limit offset : Nat) (s : List Char) :
    ((s.flatMap String.utf8EncodeChar).take (limit - offset)).count 0x0A = feedsBelow limit offset s := by
  induction s generalizing offset with
  | nil => simp [feedsBelow]
  | cons c s ih =>
    rw [List.flatMap_cons, List.take_append, List.count_append, count_take_utf8EncodeChar, String.length_utf8EncodeChar,
      Nat.sub_sub, ih, feedsBelow]
    simp only [Nat.sub_pos_iff_lt]

theorem lineOf_eq_count_bytes (t : String) (o : Nat) :
    (LineIndex.ofText t.toList).lineOf o = 1 + ((bytes t).take o).count 0x0A := by
  rw [lineOf_ofText, bytes_eq, ← count_take_flatMap, Nat.sub_zero]

end Bytes

/-- A line with the ending behind it: what stands in front ends a line, and the ending is a line feed, which takes a
carriage return along, or else the end of the text. -/
structure IsLine (front line ending back : List Char) : Prop where
  start : EndsLine front.getLast?
  free : '\n' ∉ line
  closed : ending = ['\n'] ∧ line.getLast? ≠ some '\r' ∨ ending = ['\r', '\n'] ∨ ending = [] ∧ back = []

/-- The byte at an offset of the text is one of the line, or of the ending behind it, and `above` lines stand in front. -/
def StandsOn (s : List Char) (o above : Nat) (line : List Char) : Prop :=
  ∃ front ending back, s = front ++ (line ++ (ending ++ back)) ∧ IsLine front line ending back ∧
    (lines front).length = above ∧ byteLength front ≤ o ∧ o < byteLength (front ++ (line ++ ending))

theorem StandsOn.behind (ends : EndsLine s.getLast?) {t : List Char} {above : Nat} (stands : StandsOn t o above line) :
    StandsOn (s ++ t) (byteLength s + o) ((lines s).length + above) line := by
  obtain ⟨front, ending, back, rfl, ⟨start, free, closed⟩, rfl, low, high⟩ := stands
  refine ⟨s ++ front, ending, back, by simp, ⟨?_, free, closed⟩, ?_, by simpa using low, ?_⟩
  · rw [List.getLast?_append]
    intro c last
    cases own : front.getLast? with
    | none => exact ends c (by simpa [own] using last)
    | some d => exact start c (by simpa [own] using last)
  · rw [lines_append ends, List.length_append]
  · simp only [byteLength_append] at high ⊢
    omega

theorem standsOn_first (free : '\n' ∉ s) (inside : o < byteLength (s ++ ['\n'])) (back : List Char) :
    StandsOn ((s ++ ['\n']) ++ back) o 0 (dropReturn s) := by
  by_cases returned : s.getLast? = some '\r'
  · obtain ⟨line, rfl⟩ := List.getLast?_eq_some_iff.mp returned
    have own : dropReturn (line ++ ['\r']) = line := by simp [dropReturn]
    have open_ : '\n' ∉ line := fun feed => free (by simp [feed])
    rw [own]
    exact ⟨[], ['\r', '\n'], back, by simp, ⟨by simp [EndsLine], open_, .inr (.inl rfl)⟩, rfl, Nat.zero_le o,
      by simpa using inside⟩
  · rw [dropReturn, if_neg returned]
    exact ⟨[], ['\n'], back, by simp, ⟨by simp [EndsLine], free, .inl ⟨rfl, returned⟩⟩, rfl, Nat.zero_le o,
      by simpa using inside⟩

theorem standsOn_last (free : '\n' ∉ s) (inside : o < byteLength s) : StandsOn s o 0 s :=
  ⟨[], [], [], by simp, ⟨by simp [EndsLine], free, .inr (.inr ⟨rfl, rfl⟩)⟩, rfl, Nat.zero_le o, by simpa using inside⟩

/-- Every byte of a text stands on the line whose number is that of its offset. -/
theorem exists_line (inside : o < byteLength s) :
    ∃ line, (lines s)[(LineIndex.ofText s).lineOf o - 1]? = some line ∧
      StandsOn s o ((LineIndex.ofText s).lineOf o - 1) line := by
  -- line by line: the byte is on the first one, or on a line of what follows
  induction size : s.length using Nat.strongRecOn generalizing s o with
  | ind n ih =>
    by_cases feed : '\n' ∈ s
    · obtain ⟨first, back, rfl, free⟩ := List.eq_append_cons_of_mem feed
      rw [show first ++ '\n' :: back = (first ++ ['\n']) ++ back by simp] at *
      have ends : EndsLine (first ++ ['\n']).getLast? := by simp [EndsLine]
      by_cases here : o < byteLength (first ++ ['\n'])
      · rw [(lineOf_append_of_lt ends here back).1, lineOf_line free here, lines_append ends, lines_line free]
        exact ⟨dropReturn first, rfl, standsOn_first free here back⟩
      · obtain ⟨o, rfl⟩ := Nat.exists_eq_add_of_le (Nat.not_lt.mp here)
        rw [byteLength_append (first ++ ['\n'])] at inside
        have shorter : back.length < n := by
          rw [← size, List.length_append, List.length_append]
          exact Nat.lt_add_of_pos_left (Nat.succ_pos _)
        obtain ⟨line, held, stands⟩ := ih back.length shorter (Nat.lt_of_add_lt_add_left inside) rfl
        have number : (LineIndex.ofText ((first ++ ['\n']) ++ back)).lineOf (byteLength (first ++ ['\n']) + o) - 1 =
            (lines (first ++ ['\n'])).length + ((LineIndex.ofText back).lineOf o - 1) := by
          rw [lineOf_append_add ends, Nat.add_sub_assoc (one_le_lineOf back o)]
        refine ⟨line, ?_, number ▸ stands.behind ends⟩
        rw [number, lines_append ends, List.getElem?_append_right (Nat.le_add_right _ _), Nat.add_sub_cancel_left]
        exact held
    · have some : s ≠ [] := by
        rintro rfl
        cases inside
      rw [lineOf_of_free feed, lines_of_free some feed]
      exact ⟨s, rfl, standsOn_last feed inside⟩

end Conformance.Text
