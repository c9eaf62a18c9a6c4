import Conformance.Check.Basic
import Conformance.Text.Case

namespace Conformance

namespace Check.Coverage

def stemOf (name : String) : String :=
  String.ofList (Text.dropTails ".ts".toList name.toList)

def isRepository (name : String) : Bool :=
  Text.endsWith name.toList ".repository.ts" && name != "base.repository.ts"

def untestedRepository (file test : String) : Violation :=
  (Violation.at_ file "has no colocated test file."
  ).rule "Every non-abstract repository must have a colocated .test.ts file."
  |>.fixLines
    [s!"Create {test} with tests for all public methods.",
      "If this file is intentionally untested (e.g. an abstract base class), add it to ALLOWED_UNTESTED."]

def untestedRepositories (repo : Repository) : List Violation :=
  let dir := repo.layout.layer "repositories"
  (repo.files.listFiles isRepository dir).filterMap fun p => do
    let stem := stemOf (← p.fileName?)
    let test := dir / s!"{stem}.test.ts"
    if repo.files.pathExists test then none
    else pure (untestedRepository (repo.relative p) (repo.relative test))

def riskWords : List String :=
  ["today-coach", "openai", "ai", "coach"]

def risksOf (stem : String) : List String :=
  riskWords.filter (Text.contains (Text.toLower stem.toList))

def isTested (repo : Repository) (dir : Path) (stem : String) : Bool :=
  let short := String.ofList (Text.dropTails ".service".toList stem.toList)
  let integration :=
    repo.layout.functions / "__tests__/integration" / s!"{short}.integration.test.ts"
  repo.files.pathExists (dir / s!"{stem}.test.ts") || repo.files.pathExists integration

def riskyViolation (file kind test : String) (risks : List String) : Violation :=
  let listed := ", ".intercalate risks
  (Violation.at_ file s!"is a high-risk {kind} (matches: {listed}) with no test file."
  ).rule "High-risk files (AI integrations, coach logic) MUST have tests."
  |>.fix s!"Create {test} with at least basic smoke tests."
  |>.see "docs/golden-principles.md"

def untestedRisks (repo : Repository) (layer kind : String) : List Violation :=
  let dir := repo.layout.layer layer
  let files := repo.files.listFiles (fun n => FileSystem.isSourceName n && n != "index.ts") dir
  files.filterMap fun p => do
    let stem := stemOf (← p.fileName?)
    let risks := risksOf stem
    if risks.isEmpty || isTested repo dir stem then none
    else
      let test := repo.relative (dir / s!"{stem}.test.ts")
      pure (riskyViolation (repo.relative p) kind test risks)

end Check.Coverage

def Check.riskCoverage : Check where
  id := "untested-high-risk"
  name := "Untested high-risk files"
  find repo := .ok (Coverage.untestedRisks repo "handlers" "handler" ++
    Coverage.untestedRisks repo "services" "service")

def Check.repositoryCoverage : Check where
  id := "repository-test-coverage"
  name := "Repository test coverage"
  find repo := .ok (Coverage.untestedRepositories repo)

end Conformance
