import Conformance.Check.Basic

namespace Conformance

namespace Check.Tidiness

def consoleCall : Pattern :=
  .chain [.wordBorder,
    .group 1 (.seq (.text "console.") (.anyOf "log" ["warn", "error", "info"])), .blanks, .text "("]

def printing (file : String) (hit : Hit) : Violation :=
  (Violation.at_ s!"{file}:{hit.line}" s!"uses {hit.matched} instead of the Firebase logger."
  ).rule "Cloud Functions must use the structured Firebase logger, not console.*."
  |>.fixLines
    ["import \x7b logger \x7d from 'firebase-functions/logger';",
      "Replace console.log(...) with logger.info(...), console.warn(...) with logger.warn(...), etc."]
  |>.see "docs/golden-principles.md"

def consoleCalls (repo : Repository) : List Violation :=
  let sources := repo.files.sourceFiles (skipping ["__tests__", "test-utils", "scripts"])
    repo.layout.functions
  repo.inspectFiles sources fun file text => (codeHits consoleCall text).map (printing file)

def strayPlan (file name : String) : Violation :=
  (Violation.at_ file "is a plan file in the root directory."
  ).rule "Plans must live in thoughts/shared/plans/active/ or thoughts/shared/plans/completed/, not the root."
  |>.fixLines
    ["Move the file to the appropriate subdirectory:",
      s!"git mv {file} thoughts/shared/plans/active/{name}     # if in progress",
      s!"git mv {file} thoughts/shared/plans/completed/{name}  # if shipped",
      "Then update thoughts/shared/plans/index.md with a summary row."]

def strayPlans (repo : Repository) : List Violation :=
  let isPlan (name : String) := Text.endsWith name.toList ".md" && name != "index.md"
  (repo.files.listFiles isPlan repo.layout.plans).map fun p =>
    strayPlan (repo.relative p) (p.fileName?.getD "")

def isArchiveName (name : String) : Bool :=
  let lowered := name.toList.map Char.toLower
  lowered == "archive".toList || lowered == "archives".toList

def archive (dir : String) : Violation :=
  ({ headline := s!"{dir} exists." } : Violation)
  |>.rule "Archive directories are not allowed."
  |>.fix s!"Move any still-relevant content into active docs/plans, then delete {dir}/."
  |>.see "docs/golden-principles.md"

def archives (repo : Repository) : List Violation :=
  let dirs := repo.files.collectDirs { skipped := alwaysSkipped, skipsHidden := true }
    repo.layout.root
  (dirs.filter fun dir => dir.fileName?.any isArchiveName).map fun dir =>
    archive (repo.relative dir)

end Check.Tidiness

def Check.consoleUse : Check where
  id := "no-console-log"
  name := "No console.log in Cloud Functions"
  find repo := .ok (Tidiness.consoleCalls repo)

def Check.planPlaces : Check where
  id := "plan-lifecycle"
  name := "Plan lifecycle"
  find repo := .ok (Tidiness.strayPlans repo)

def Check.archiveDirs : Check where
  id := "no-archive-dirs"
  name := "No archive directories"
  find repo := .ok (Tidiness.archives repo)

end Conformance
