import Conformance.Text.Pieces
import Conformance.Text.Word

namespace Conformance

structure Cursor where
  offset : Nat
  before : Option Char
  rest : List Char

namespace Cursor

def ofText (s : List Char) : Cursor :=
  ⟨0, none, s⟩

def past (at_ : Cursor) (c : Char) (rest : List Char) : Cursor :=
  ⟨at_.offset + c.utf8Size, some c, rest⟩

def next? (at_ : Cursor) : Option Cursor :=
  match at_.rest with
  | [] => none
  | c :: rest => some (at_.past c rest)

def atWordBorder (at_ : Cursor) : Bool :=
  at_.before.any Text.isWord != at_.rest.head?.any Text.isWord

def atLineStart (at_ : Cursor) : Bool :=
  at_.before.all (· == '\n')

def textTo (start stop : Cursor) : List Char :=
  start.rest.take (start.rest.length - stop.rest.length)

def reach (accepts : Char → Bool) (offset : Nat) (before : Option Char) : List Char → List Cursor
  | [] => [⟨offset, before, []⟩]
  | c :: rest =>
    ⟨offset, before, c :: rest⟩ ::
      if accepts c then reach accepts (offset + c.utf8Size) (some c) rest else []

end Cursor

end Conformance
