import Conformance.Check.Basic

namespace Conformance

def qualityReport : String := "docs/quality-grades.md"

namespace Check.Debt

inductive Scope where
  | handlers
  | backendTests

def Scope.files (repo : Repository) : Scope → List Path
  | handlers => repo.files.sourceFiles alwaysSkipped repo.layout.handlers
  | backendTests => repo.files.testFiles repo.layout.functions

inductive Evidence where
  /-- A file that can be read and has all the markers in it. -/
  | file (path : String) (markers : List String)
  /-- At least so many files of a scope in which a pattern occurs. -/
  | usage (scope : Scope) (pattern : Pattern) (least : Nat) (what : String)

namespace Evidence

def readAnd (repo : Repository) (test : List Char → Bool) (p : Path) : Bool :=
  match repo.files.read p with
  | .ok text => test text
  | .error _ => false

def holds (repo : Repository) : Evidence → Bool
  | file path markers =>
    readAnd repo (fun text => markers.all (Text.contains text)) (repo.layout.root / path)
  | usage scope pattern least _ => least ≤ (scope.files repo).countP (readAnd repo pattern.occursIn)

def shown : Evidence → String
  | file path _ => path
  | usage _ _ least what => s!"at least {least} {what}"

end Evidence

structure Rule where
  label : String
  evidence : List Evidence

def factoryCall : Pattern :=
  .chain [.wordBorder, .anyOf "createResourceRouter" ["createBaseApp"], .blanks, .text "("]

def utilitiesImport : Pattern :=
  .chain [.quote, .text "../test-utils/index.js", .quote]

def rules : List Rule :=
  [{ label := "Calendar missing cycling activities"
     evidence :=
      [.file "packages/functions/src/services/calendar.service.ts"
          ["import \x7b getCyclingActivities \x7d from './firestore-cycling.service.js';",
            "type: 'cycling'", "dayData.summary.hasCycling = true;"],
        .file "packages/functions/src/services/calendar.service.test.ts"
          ["should include cycling activities in days map",
            "should set hasCycling flag and increment totals when cycling exists"]] },
    { label := "createResourceRouter factory"
      evidence :=
      [.file "packages/functions/src/middleware/create-resource-router.ts"
          ["export function createResourceRouter", "export function createBaseApp"],
        .file "packages/functions/src/middleware/create-resource-router.test.ts" [],
        .usage .handlers factoryCall 1
          "handler calling createResourceRouter or createBaseApp"] },
    { label := "Shared test utilities"
      evidence :=
      [.file "packages/functions/src/test-utils/index.ts" [],
        .file "packages/functions/src/test-utils/firestore-mock.ts" [],
        .usage .backendTests utilitiesImport 3
          "backend test files importing ../test-utils/index.js"] }]

def openItem : Pattern :=
  .chain [.textStart, .blanks, .text "-", .blanks, .text "[ ]", .blanks, .text "**",
    .group 1 (.mostOne (· != '*')), .text "**"]

def isHeading (line : List Char) : Bool :=
  Text.startsWith (Text.trimStart line) "## Active Tech Debt"

def isOtherHeading (line : List Char) : Bool :=
  Text.startsWith (Text.trimStart line) "## "

def labelOf? (line : List Char) : Option String :=
  ((openItem.find? line).bind (·.group? 1)).map fun label => String.ofList (Text.trim label)

/-- The open items under the heading of the open debt: their lines and labels. The heading may come
again; any other heading of its level ends the list. -/
def openItems (text : List Char) : List (Nat × String) :=
  let below := (Text.numberedLines text).dropWhile fun (_, line) => !isHeading line
  let section_ := below.takeWhile fun (_, line) => isHeading line || !isOtherHeading line
  (section_.filter fun (_, line) => !isHeading line).filterMap fun (number, line) =>
    (labelOf? line).map (number, ·)

def violation (line : Nat) (rule : Rule) : Violation :=
  (Violation.at_ s!"{qualityReport}:{line}"
    s!"keeps \"{rule.label}\" unchecked, but source evidence shows completion."
  ).rule "Unchecked technical debt must not remain once code evidence indicates completion."
  |>.fix "Set the item to [x] or move it to `## Recently Completed` with evidence details."
  |>.addSection "Evidence" (rule.evidence.map Evidence.shown)
  |>.see "docs/golden-principles.md"

def find (repo : Repository) : List Violation :=
  let path := repo.layout.root / qualityReport
  if !repo.files.isFile path then []
  else
    match repo.files.read path with
    | .error cause => [Repository.unreadable qualityReport cause]
    | .ok text =>
      (openItems text).filterMap fun (line, label) => do
        let rule ← rules.find? (·.label == label)
        if rule.evidence.all (Evidence.holds repo) then pure (violation line rule) else none

end Check.Debt

def Check.openDebt : Check where
  id := "quality-debt"
  name := "Quality-grade debt completion"
  find repo := .ok (Debt.find repo)

end Conformance
