import Conformance.Bisection
import Conformance.Text.Offset
import Conformance.Text.Pieces

namespace Conformance.Text

def dropReturn (line : List Char) : List Char :=
  if line.getLast? = some '\r' then line.dropLast else line

/-- The pieces between line feeds as lines: only a piece that a feed ended loses its carriage
return, and a last piece without characters is no line. -/
def linesOfPieces : List (List Char) → List (List Char)
  | [] => []
  | [last] => if last.isEmpty then [] else [last]
  | piece :: pieces => dropReturn piece :: linesOfPieces pieces

def lines (s : List Char) : List (List Char) :=
  linesOfPieces (split (· == '\n') s)

def numbered {α : Type} (items : List α) : List (Nat × α) :=
  items.zipIdx.map fun (item, i) => (i + 1, item)

def numberedLines (s : List Char) : List (Nat × List Char) :=
  numbered (lines s)

/-- The byte offsets at which lines start, when the text begins at byte `offset`, except for the
first line. -/
def laterLineStarts (offset : Nat) : List Char → List Nat
  | [] => []
  | c :: s =>
    let next := offset + c.utf8Size
    if c = '\n' then next :: laterLineStarts next s else laterLineStarts next s

structure LineIndex where
  starts : List Nat

namespace LineIndex

def ofText (s : List Char) : LineIndex :=
  ⟨0 :: laterLineStarts 0 s⟩

/-- The number of the line at a byte offset, counted from one: the line that starts there, or else the last
one that starts before. -/
def lineOf (index : LineIndex) (offset : Nat) : Nat :=
  match Bisection.search index.starts offset with
  | .exactly place => place + 1
  | .before place => place

end LineIndex

def feedsBelow (limit offset : Nat) : List Char → Nat
  | [] => 0
  | c :: s =>
    (if c = '\n' ∧ offset < limit then 1 else 0) + feedsBelow limit (offset + c.utf8Size) s

end Conformance.Text
