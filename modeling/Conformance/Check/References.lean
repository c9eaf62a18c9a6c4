import Conformance.Check.Basic
import Conformance.Document.Prose
import Conformance.Document.Reference
import Conformance.Path.Basic

namespace Conformance

namespace Check.References

def onProse (extract : List Char → List (List Char)) (text : List Char) : List (Nat × String) :=
  (Document.prose text).flatMap fun (number, line) =>
    (extract line).map fun item => (number, String.ofList item)

def isDangling (repo : Repository) (path : String) : Bool :=
  !repo.files.pathExists (repo.layout.root / path)

def renameHint (path : String) : String :=
  s!"Run `git log --diff-filter=R -- '{path}'` to find renames."

def mapRoots : List String :=
  ["packages", "ios", "scripts", "docs", "thoughts"]

def danglingFile (file : String) (line : Nat) (path : String) : Violation :=
  (Violation.at_ s!"{file}:{line}" s!"references `{path}` but file does not exist."
  ).rule "All backtick-quoted file paths in architecture docs must resolve to real files on disk."
  |>.steps
    [s!"If the file was renamed or moved, update the path in {file}.",
      "If the file was deleted, remove the reference from the doc.", renameHint path]
  |>.see "docs/golden-principles.md"

def mapFiles (repo : Repository) : List Violation :=
  let documents := repo.files.listFiles (Text.endsWith ·.toList ".md") repo.layout.architecture
  repo.inspectFiles documents fun file text =>
    ((onProse (Document.rootedPaths mapRoots true) text).filter fun (_, path) =>
      isDangling repo path).map fun (line, path) => danglingFile file line path

def agentsFile : String := "AGENTS.md"

def agentsRoots : List String :=
  mapRoots ++ ["hooks"]

def danglingPath (line : Nat) (path : String) : Violation :=
  (Violation.at_ s!"{agentsFile}:{line}" s!"references `{path}` but the path does not exist."
  ).rule "All backtick-quoted file paths in AGENTS.md must resolve to real files or directories on disk."
  |>.steps
    ["If the file was renamed or moved, update the path in AGENTS.md.",
      "If the file was deleted intentionally, remove the reference.", renameHint path]
  |>.see "docs/golden-principles.md"

def agentsPaths (repo : Repository) (text : List Char) : List Violation :=
  ((onProse (Document.rootedPaths agentsRoots false) text).filter fun (_, path) =>
    isDangling repo path).map fun (line, path) => danglingPath line path

def leads (lead : String) (line : List Char) : Bool :=
  Text.startsWith (Text.trimStart line) lead

def guideRows (text : List Char) : List (Nat × List Char) :=
  let after := (Document.prose text).dropWhile fun (_, line) => !leads "## Guides" line
  ((after.drop 1).takeWhile fun (_, line) => !leads "## " line).filter fun (_, line) =>
    leads "|" line

def guidesDir : String := "docs/guides/"

/-- The violation of a link in the table of guides, if there is one: it leads out of the directory of
guides, or nowhere. -/
def guideViolation? (repo : Repository) (line : Nat) (path : String) : Option Violation :=
  let location := s!"{agentsFile}:{line}"
  if !Text.startsWith path.toList guidesDir then
    some ((Violation.at_ location s!"has a guides table link '{path}' outside {guidesDir}."
      ).rule "The guides table only links to guide files in docs/guides/."
      |>.fix s!"Point the link at a guide under {guidesDir} and make sure it exists.")
  else if isDangling repo path then
    some ((Violation.at_ location s!"links to '{path}' but the target file does not exist."
      ).rule "Guide links must point to existing local files."
      |>.fix s!"Create the guide at {path} or update the table to an existing guide.")
  else none

def localTargets (line : List Char) : List (List Char) :=
  (Document.linkTargets line).filterMap Document.localPath?

def guideLinks (repo : Repository) (text : List Char) : List Violation :=
  (guideRows text).flatMap fun (number, row) =>
    (localTargets row).filterMap fun path => guideViolation? repo number (String.ofList path)

def agents (repo : Repository) : List Violation :=
  let path := repo.layout.root / agentsFile
  if !repo.files.isFile path then []
  else
    match repo.files.read path with
    | .error cause => [Repository.unreadable agentsFile cause]
    | .ok text => agentsPaths repo text ++ guideLinks repo text

def rootDocuments : List String :=
  ["CLAUDE.md", "AGENTS.md", "README.md", "BUGS.md", "requirements.md",
    "thoughts/shared/plans/index.md"]

def documentTrees : List String :=
  ["docs", "thoughts/shared/plans/active", "thoughts/shared/handoffs"]

def oldTrees : List String :=
  ["thoughts/shared/plans/completed", "thoughts/shared/research", "thoughts/shared/plans/stretching",
    "thoughts/shared/plans/meditation"]

def isCurrent (root document : Path) : Bool :=
  document.fileName?.any (· != "meditations.md") &&
    !oldTrees.any fun tree => document.isBelow (root / tree)

def documents (repo : Repository) : List Path :=
  let root := repo.layout.root
  let top := (rootDocuments.map fun (d : String) => root / d).filter repo.files.isFile
  let nested := documentTrees.flatMap fun (tree : String) =>
    repo.files.markdownFiles alwaysSkipped (root / tree)
  (top ++ nested).filter (isCurrent root)

def isBroken (files : FileSystem) (document : Path) (path : String) : Bool :=
  !files.pathExists ((document.parent?.getD ".") / path).normalize

def brokenLink (file : String) (line : Nat) (target : String) : Violation :=
  (Violation.at_ s!"{file}:{line}" s!"links to '{target}' but file does not exist."
  ).rule "All markdown links must resolve to real files on disk."
  |>.steps
    ["If the file was renamed or moved, update the link.",
      "If the file was deleted, remove the link.", renameHint target]
  |>.see "docs/golden-principles.md"

def links (repo : Repository) : List Violation :=
  (documents repo).flatMap fun document =>
    repo.inspectFile (fun file text =>
      ((onProse localTargets text).filter fun (_, target) =>
        isBroken repo.files document target).map fun (line, target) => brokenLink file line target)
      document

end Check.References

def Check.mapReferences : Check where
  id := "arch-map-refs"
  name := "Architecture map file references"
  find repo := .ok (References.mapFiles repo)

def Check.agentsReferences : Check where
  id := "agents-md-refs"
  name := "AGENTS.md file path references"
  find repo := .ok (References.agents repo)

def Check.documentLinks : Check where
  id := "markdown-links"
  name := "Markdown link targets"
  find repo := .ok (References.links repo)

end Conformance
