import Conformance.Check.Basic
import Conformance.Source.Script

namespace Conformance

namespace Check.Scripts

inductive Class where
  | ordinary
  | transitional
  | shim
deriving DecidableEq

namespace Class

def limit? : Class → Option Nat
  | ordinary => some 10
  | transitional => some 20
  | shim => none

def shown : Class → String
  | ordinary => "default"
  | transitional => "transitional legacy"
  | shim => "shim"

end Class

def transitionalNames : List String :=
  ["qa-start.sh", "qa-stop.sh", "setup-ios-testing.sh"]

def shimPaths : List String :=
  ["hooks/pre-commit", "scripts/validate.sh", "scripts/doctor.sh",
    "scripts/run-integration-tests.sh", "scripts/arch-lint", "scripts/arch-guard",
    "scripts/brad-precommit", "scripts/brad-validate"]

def wrapperNames : List String :=
  ["arch-lint", "arch-guard", "brad-precommit", "brad-validate"]

def isWrapper (name : List Char) (text : List Char) : Bool :=
  wrapperNames.contains (String.ofList name) && Text.contains text "target/release/" &&
    Text.contains text "cargo build" &&
    (Text.lines text).any fun line => Text.startsWith (Text.trimStart line) "exec "

def classOf (file : String) (text : List Char) : Class :=
  let name := Text.afterLast (· == '/') file.toList
  if shimPaths.any (Text.endsWith file.toList) || isWrapper name text then .shim
  else if transitionalNames.contains (String.ofList name) then .transitional
  else .ordinary

def walkRules : WalkRules :=
  { skipped := skipping ["ios", "public"] }

def startsAsScript (files : FileSystem) (p : Path) : Bool :=
  match files.read p with
  | .ok text => Source.Script.startsAsScript text
  | .error _ => false

/-- The scripts of a repository in the order of their paths: the files that are called so, and those
among the hooks and scripts that begin so. -/
def scripts (files : FileSystem) (root : Path) : List Path :=
  let isNamed (name : String) := Text.endsWith name.toList ".sh"
  let named := files.collectFiles walkRules isNamed root
  let marked := ["hooks", "scripts"].flatMap fun (dir : String) =>
    (files.collectFiles walkRules (!isNamed ·) (root / dir)).filter (startsAsScript files)
  (named ++ marked).mergeSort Path.le

def violation (file : String) (size : Source.Script.Complexity) (kind : Class) (limit : Nat) : Violation :=
  ({ headline :=
      s!"{file}: CC_estimate={size.estimate}, lines={size.lines}, branches={size.branches}, loops={size.loops} ({kind.shown} script limit {limit})." } :
    Violation)
  |>.addSection "Guidance"
    ["Reduce orchestration complexity in this shell script or migrate it to a Rust tool under tools/."]
  |>.see "docs/conventions/workflow.md"

def inspect (file : String) (text : List Char) : List Violation :=
  let kind := classOf file text
  let size := Source.Script.Complexity.ofText text
  match kind.limit? with
  | none => []
  | some limit => if size.estimate ≤ limit then [] else [violation file size kind limit]

end Check.Scripts

def Check.scriptSizes : Check where
  id := "shell-complexity"
  name := "Shell script complexity guardrail"
  find repo := .ok (repo.inspectFiles (Scripts.scripts repo.files repo.layout.root) Scripts.inspect)

end Conformance
