import Conformance.Pattern.Search
import Conformance.Text.Lines

namespace Conformance.Source.Script

def interpreters : List String :=
  ["sh", "bash", "dash", "ksh", "zsh", "ash", "csh", "tcsh"]

def isInterpreter (word : List Char) : Bool :=
  let name := (Text.afterLast (· == '/') word).map Char.toLower
  interpreters.contains (String.ofList name)

def isShebang (line : List Char) : Bool :=
  match Text.afterLead? "#!".toList line with
  | none => false
  | some command =>
    match Text.words command with
    | [] => false
    | program :: arguments =>
      isInterpreter program || (Text.endsWith program "/env" && arguments.any isInterpreter)

def startsAsScript (text : List Char) : Bool :=
  isShebang ((Text.lines text).headD [])

structure Quoting where
  single : Bool := false
  double : Bool := false
  before : Char := '\x00'

/-- The quoting after one more character. A mark behind a backslash, or inside marks of the other
kind, is an ordinary character. -/
def Quoting.next (q : Quoting) (c : Char) : Quoting :=
  { single := if c = '\'' && !q.double && q.before != '\\' then !q.single else q.single
    double := if c = '"' && !q.single && q.before != '\\' then !q.double else q.double
    before := c }

/-- The line up to the first `#` outside quotation marks, when the characters before have left this
quoting. -/
def codeAfter (q : Quoting) : List Char → List Char
  | [] => []
  | c :: rest =>
    if c = '#' && !q.single && !q.double then [] else c :: codeAfter (q.next c) rest

def withoutComment (line : List Char) : List Char :=
  codeAfter {} line

/-- The number of words of a line that are in a list. A word is made of ASCII letters, digits and
underscores. -/
def countWords (keywords : List String) (code : List Char) : Nat :=
  (Text.split (fun c => !(c.isAlphanum || c == '_')) code).countP fun word =>
    keywords.contains (String.ofList word)

def logicalOperator : Pattern :=
  .anyOf "&&" ["||"]

structure Complexity where
  lines : Nat := 0
  branches : Nat := 0
  loops : Nat := 0
deriving DecidableEq

namespace Complexity

instance : Add Complexity where
  add a b := ⟨a.lines + b.lines, a.branches + b.branches, a.loops + b.loops⟩

def estimate (c : Complexity) : Nat :=
  1 + c.branches + c.loops

def ofLine (line : List Char) : Complexity :=
  let code := Text.trim (withoutComment line)
  if code.isEmpty then {}
  else
    { lines := 1
      branches := countWords ["if", "elif", "case"] code + logicalOperator.count code
      loops := countWords ["for", "while", "until", "select"] code }

def ofText (text : List Char) : Complexity :=
  (Text.lines text).foldl (fun total line => total + ofLine line) {}

end Complexity

end Conformance.Source.Script
