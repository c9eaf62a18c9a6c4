import Conformance.Repeats
import Conformance.Source.Comment
import Conformance.Text.Lines

namespace Conformance.Source

structure Import where
  specifier : String
  line : Nat
deriving DecidableEq

namespace Import

def fromClause : Pattern :=
  .chain [.wordBorder, .anyOf "import" ["export"], .wordBorder, .fewest (Pattern.outside ";'\"`=()"),
    .wordBorder, .text "from", .blanks, .quoted 1]

def sideEffect : Pattern :=
  .chain [.lineStart, .most (Pattern.among " \t"), .text "import", .someBlanks, .quoted 1]

def call : Pattern :=
  .chain [.wordBorder, .anyOf "require" ["import"], .blanks, .text "(", .blanks, .quoted 1, .blanks,
    .text ")"]

def isRelative (i : Import) : Bool :=
  Text.startsWith i.specifier.toList "."

def found (text : List Char) (index : Text.LineIndex) (form : Pattern) : List (Nat × Import) :=
  (form.findAll text).filterMap fun m =>
    (m.group? 1).map fun specifier =>
      (m.start.offset, ⟨String.ofList specifier, index.lineOf m.start.offset⟩)

def onCodeLine (lines : List (List Char)) (i : Import) : Bool :=
  (lines[i.line - 1]?).all (!isCommentLine ·)

/-- The modules that a source refers to, in the order of the text. A reference that two forms find is
listed once. -/
def ofText (text : List Char) : List Import :=
  let lines := Text.lines text
  let all := [fromClause, sideEffect, call].flatMap (found text (.ofText text))
  let counted := all.filter fun (_, i) => i.onCodeLine lines
  dropRepeats ((counted.mergeSort fun a b => a.1 ≤ b.1).map Prod.snd)

end Import

end Conformance.Source
