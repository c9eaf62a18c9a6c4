namespace Conformance

inductive Style where
  | bold
  | green
  | red
  | yellow
  | dimmed
  | heading
  | alarm

def Style.escape : Style → String
  | bold => "\x1b[1m"
  | green => "\x1b[32m"
  | red => "\x1b[31m"
  | yellow => "\x1b[33m"
  | dimmed => "\x1b[2m"
  | heading => "\x1b[1m\x1b[4m"
  | alarm => "\x1b[1m\x1b[31m"

def Style.reset : String := "\x1b[0m"

structure Piece where
  text : String
  style : Option Style := none

namespace Piece

def render (colored : Bool) (piece : Piece) : String :=
  match piece.style, colored with
  | some style, true => style.escape ++ piece.text ++ Style.reset
  | _, _ => piece.text

def renderAll (colored : Bool) (pieces : List Piece) : String :=
  String.join (pieces.map (render colored))

end Piece

end Conformance
