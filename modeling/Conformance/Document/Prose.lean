import Conformance.Text.Blank
import Conformance.Text.Lines

/-!
The lines of a Markdown text that lie outside fenced code.

A line that begins with three backticks opens or closes a fence; a fence that is never closed reaches
to the end of the text.
-/

namespace Conformance.Document

def isFence (line : List Char) : Bool :=
  Text.startsWith (Text.trimStart line) "```"

def outsideFences (fenced : Bool) : List (Nat × List Char) → List (Nat × List Char)
  | [] => []
  | (number, line) :: rest =>
    if isFence line then outsideFences (!fenced) rest
    else if fenced then outsideFences fenced rest
    else (number, line) :: outsideFences fenced rest

def prose (text : List Char) : List (Nat × List Char) :=
  outsideFences false (Text.numberedLines text)

end Conformance.Document
