namespace Conformance

structure Violation where
  headline : String
  sections : List (String × List String) := []
deriving DecidableEq

namespace Violation

def at_ (location message : String) : Violation :=
  { headline := location ++ " " ++ message }

def addSection (v : Violation) (label : String) (lines : List String) : Violation :=
  { v with sections := v.sections ++ [(label, lines)] }

def rule (v : Violation) (text : String) : Violation :=
  v.addSection "Rule" [text]

def fix (v : Violation) (text : String) : Violation :=
  v.addSection "Fix" [text]

def fixLines (v : Violation) (lines : List String) : Violation :=
  v.addSection "Fix" lines

def steps (v : Violation) (texts : List String) : Violation :=
  v.addSection "Fix" (texts.zipIdx.map fun (text, i) => s!"{i + 1}. {text}")

def showing (v : Violation) (lines : List String) : Violation :=
  v.addSection "Example" ("" :: lines)

def see (v : Violation) (document : String) : Violation :=
  v.addSection "See" [document]

def margin : String := "    "

/-- A section: its label, its first line behind the label unless that is empty, and the others below
the place where the first begins. The place is counted in bytes. -/
def renderSection (label : String) : List String → String
  | [] => s!"\n{margin}{label}:"
  | first :: rest =>
    let hanging := String.ofList (List.replicate (label.utf8ByteSize + 2) ' ')
    let lead := if first = "" then s!"\n{margin}{label}:" else s!"\n{margin}{label}: {first}"
    lead ++ String.join (rest.map fun line => s!"\n{margin}{hanging}{line}")

def render (v : Violation) : String :=
  v.headline ++ String.join (v.sections.map fun (label, lines) => renderSection label lines)

end Violation

end Conformance
