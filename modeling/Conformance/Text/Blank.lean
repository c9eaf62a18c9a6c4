import Conformance.Text.Pieces

/-!
Sets of characters given by ranges of code points, blank characters, and the removal of blanks from the ends of a
text.

Blank means the Unicode property `White_Space`, so a no-break space and the line separators count.
-/

namespace Conformance.Text

structure CodeRange where
  first : Nat
  last : Nat

namespace CodeRange

def holds (r : CodeRange) (n : Nat) : Bool :=
  r.first ≤ n && n ≤ r.last

theorem holds_iff (r : CodeRange) (n : Nat) : r.holds n = true ↔ r.first ≤ n ∧ n ≤ r.last := by
  simp [holds]

end CodeRange

def inRanges (ranges : List CodeRange) (c : Char) : Bool :=
  ranges.any fun r => r.holds c.toNat

def blankRanges : List CodeRange :=
  [⟨0x9, 0xD⟩, ⟨0x20, 0x20⟩, ⟨0x85, 0x85⟩, ⟨0xA0, 0xA0⟩, ⟨0x1680, 0x1680⟩, ⟨0x2000, 0x200A⟩,
    ⟨0x2028, 0x2029⟩, ⟨0x202F, 0x202F⟩, ⟨0x205F, 0x205F⟩, ⟨0x3000, 0x3000⟩]

def isBlank (c : Char) : Bool :=
  inRanges blankRanges c

def trimStart (s : List Char) : List Char :=
  s.dropWhile isBlank

def trimEnd (s : List Char) : List Char :=
  (s.reverse.dropWhile isBlank).reverse

def trim (s : List Char) : List Char :=
  trimEnd (trimStart s)

def words (s : List Char) : List (List Char) :=
  (split isBlank s).filter (!·.isEmpty)

end Conformance.Text
