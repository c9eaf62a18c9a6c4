import Conformance.FileSystem.Walk
import Conformance.Pattern.Search
import Conformance.Repeats
import Conformance.Text.Lines

namespace Conformance.Source.AppType

inductive Kind where
  | classType
  | actorType
deriving DecidableEq

def declaration : Pattern :=
  .chain [.textStart, .blanks,
    .many (.seq (.anyOf "final" ["public", "internal", "private", "fileprivate", "open"]) .someBlanks),
    .group 1 (.anyOf "class" ["actor"]), .someBlanks,
    .group 2 (.seq (.char fun c => c.isAlpha || c == '_') (.most Text.isWord))]

def memberKeywords : List String :=
  ["func", "var", "let", "subscript", "init"]

def nameOfLine? (kinds : List Kind) (line : List Char) : Option String := do
  let m ← declaration.find? line
  let keyword ← m.group? 1
  let name := String.ofList (← m.group? 2)
  let kind : Kind := if keyword = "actor".toList then .actorType else .classType
  if kinds.contains kind && !memberKeywords.contains name then pure name else none

def namesOfText (kinds : List Kind) (text : List Char) : List String :=
  (Text.lines text).filterMap (nameOfLine? kinds)

/-- The names declared in the Swift files directly inside a directory, sorted and each once. A file
that cannot be read declares nothing. -/
def declaredNames (fs : FileSystem) (kinds : List Kind) (dir : Path) : List String :=
  sortedTexts ((fs.listFiles (Text.endsWith ·.toList ".swift") dir).flatMap fun path =>
    match fs.read path with
    | .ok text => namesOfText kinds text
    | .error _ => [])

end Conformance.Source.AppType
