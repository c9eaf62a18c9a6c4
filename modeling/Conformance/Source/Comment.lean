import Conformance.Pattern.Search

namespace Conformance.Source

def isCommentLine (line : List Char) : Bool :=
  let code := Text.trimStart line
  Text.startsWith code "//" || Text.startsWith code "/*" || Text.startsWith code "*"

def trailingComment : Pattern :=
  .chain [.char Text.isBlank, .text "//", .most (· != '\n'), .textEnd]

/-- The text without a comment at its end. Slashes right behind another character, as in a web
address, begin no comment. -/
def withoutTrailingComment (line : List Char) : List Char :=
  match trailingComment.find? line with
  | some m => (Cursor.ofText line).textTo m.start ++ m.stop.rest
  | none => line

end Conformance.Source
