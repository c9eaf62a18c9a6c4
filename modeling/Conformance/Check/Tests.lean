import Conformance.Check.Basic

namespace Conformance

namespace Check.Tests

/-- A call or a tagged template of a test function with a modifier, or of one of its short names; what
is called is group 1. -/
def modified (modifier : String) (shortName : String) (shortNames : List String) : Pattern :=
  .chain [.wordBorder,
    .group 1 (.either
      (.chain [.anyOf "it" ["test", "describe", "context", "suite"],
        .optional (.seq (.text ".") (.anyOf "concurrent" ["sequential"])), .text modifier])
      (.anyOf shortName shortNames)),
    .blanks, .optional (.text ".each"), .blanks, .char (Pattern.among "(`")]

def skippedTest : Pattern :=
  modified ".skip" "xit" ["xdescribe", "xtest", "xcontext"]

def focusedTest : Pattern :=
  modified ".only" "fit" ["fdescribe"]

def skipped (file : String) (hit : Hit) : Violation :=
  (Violation.at_ s!"{file}:{hit.line}" s!"has a skipped test ({hit.matched})."
  ).rule "Never skip or disable tests to fix a build. Fix the test or remove it."
  |>.fixLines
    ["Either fix the failing test so it passes, or delete it if no longer relevant.",
      "Do not use .skip, xit, or xdescribe as a workaround."]
  |>.see "docs/conventions/testing.md"

def focused (file : String) (hit : Hit) : Violation :=
  (Violation.at_ s!"{file}:{hit.line}" s!"has a focused test ({hit.matched})."
  ).rule "Never commit focused tests. A focused test silently skips every other test in the suite."
  |>.fixLines
    ["Remove the .only modifier. If debugging, filter by name instead:",
      "npx vitest run -t \"test name pattern\""]
  |>.see "docs/conventions/testing.md"

def inspectTests (repo : Repository) (pattern : Pattern) (violation : String → Hit → Violation) :
    List Violation :=
  repo.inspectFiles (repo.files.testFiles repo.layout.root) fun file text =>
    (codeHits pattern text).map (violation file)

def factory : Pattern :=
  .chain [.lineStart, .optional (.seq (.text "export") .someBlanks), .anyOf "function" ["const"],
    .someBlanks,
    .group 1 (.either (.seq (.text "createMock") (.mostOne Text.isWord))
      (.either (.seq (.text "createTest") (.mostOne Text.isWord))
        (.chain [.text "mock", .mostOne Text.isWord, .text "Factory"])))]

def sharedImport : Pattern :=
  .chain [.text "from", .someBlanks, .quote, .most (Pattern.outside "'\""),
    .anyOf "__tests__/utils" ["test-utils"]]

def ownFactory? (text : List Char) : Option String :=
  if sharedImport.occursIn text then none
  else ((factory.find? text).bind (·.group? 1)).map String.ofList

def unshared (file factory : String) : Violation :=
  (Violation.at_ file
    s!"defines inline test factories ({factory}) but doesn't import from the shared test utilities."
  ).addSection "Suggestion"
    ["Move reusable factories to packages/functions/src/__tests__/utils/ and import them."]
  |>.see "docs/conventions/testing.md"

def unsharedFactories (repo : Repository) : List Violation :=
  let dirs := ["handlers", "services", "repositories"].map repo.layout.layer
  repo.inspectFiles (repo.testsInside dirs) fun file text =>
    ((ownFactory? text).map (unshared file)).toList

def responseType : Pattern :=
  .chain [.lineStart, .optional (.seq (.text "export") .someBlanks), .anyOf "interface" ["type"],
    .someBlanks, .text "ApiResponse", .wordBorder]

def ownResponseType (file : String) (line : Nat) : Violation :=
  (Violation.at_ s!"{file}:{line}" "defines an inline ApiResponse type."
  ).fix "Import it from packages/functions/src/__tests__/utils/api-types.ts instead."

def ownResponseTypes (repo : Repository) : List Violation :=
  let dirs := ["handlers", "services", "repositories", "__tests__/integration"].map repo.layout.layer
  repo.inspectFiles (repo.testsInside dirs) fun file text =>
    ((responseType.find? text).map fun m =>
      ownResponseType file ((Text.LineIndex.ofText text).lineOf m.start.offset)).toList

end Check.Tests

def Check.skippedTests : Check where
  id := "no-skipped-tests"
  name := "No skipped tests"
  find repo := .ok (Tests.inspectTests repo Tests.skippedTest Tests.skipped)

def Check.focusedTests : Check where
  id := "no-focused-tests"
  name := "No focused tests (.only)"
  find repo := .ok (Tests.inspectTests repo Tests.focusedTest Tests.focused)

def Check.sharedFactories : Check where
  id := "test-factory-usage"
  name := "Shared test factory usage"
  find repo := .ok (Tests.unsharedFactories repo)

def Check.sharedResponse : Check where
  id := "no-inline-api-response"
  name := "No inline ApiResponse in tests"
  find repo := .ok (Tests.ownResponseTypes repo)

end Conformance
