import Conformance.Fault
import Conformance.Layout
import Conformance.Report.Result
import Conformance.Source.Comment
import Conformance.Text.Lines

namespace Conformance

structure Repository where
  files : FileSystem
  layout : Layout

namespace Repository

def relative (repo : Repository) (p : Path) : String :=
  repo.layout.relative p

def unreadable (name : String) (cause : ReadError) : Violation :=
  { headline := s!"{name} could not be read: {cause}" }

def inspectFile (repo : Repository) (inspect : String → List Char → List Violation) (p : Path) :
    List Violation :=
  match repo.files.read p with
  | .ok text => inspect (repo.relative p) text
  | .error cause => [unreadable (repo.relative p) cause]

def inspectFiles (repo : Repository) (paths : List Path)
    (inspect : String → List Char → List Violation) : List Violation :=
  paths.flatMap (repo.inspectFile inspect)

def layerSources (repo : Repository) (layers : List String) : List Path :=
  layers.flatMap fun layer =>
    repo.files.listFiles FileSystem.isSourceName (repo.layout.layer layer)

def testsInside (repo : Repository) (dirs : List Path) : List Path :=
  dirs.flatMap (repo.files.listFiles FileSystem.isTestName)

end Repository

structure Check where
  id : String
  name : String
  find : Repository → Except Fault (List Violation)

namespace Check

def run (repo : Repository) (check : Check) : CheckResult :=
  match check.find repo with
  | .ok violations => .ofViolations check.name (violations.map Violation.render)
  | .error fault => .degraded check.name s!"check panicked: {fault.message}"

def runAll (repo : Repository) (checks : List Check) : List CheckResult :=
  checks.map (run repo)

structure Hit where
  line : Nat
  matched : String
deriving DecidableEq

/-- The first match of a pattern on each line that is no comment: its first group if it has one, else
all of it. -/
def codeHits (pattern : Pattern) (text : List Char) : List Hit :=
  ((Text.numberedLines text).filter fun (_, line) => !Source.isCommentLine line).filterMap
    fun (number, line) =>
      (pattern.find? line).map fun m => ⟨number, String.ofList ((m.group? 1).getD m.text)⟩

end Check

end Conformance
