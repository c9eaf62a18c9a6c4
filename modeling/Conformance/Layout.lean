import Conformance.FileSystem.Walk

namespace Conformance

def alwaysSkipped : List String :=
  ["node_modules", ".git", "dist", "target", "build", ".cache", ".firebase", ".validate", ".claude",
    ".arch-lint-tmp", "tmp-lint", "emulator-data", ".otel", ".playwright-mcp", "test-results",
    "ios-test-screenshots"]

def skipping (more : List String) : List String :=
  alwaysSkipped ++ more

structure Layout where
  root : Path
  functions : Path
deriving DecidableEq

inductive RootError where
  | notFound (start : Path)
  | notADirectory (root : Path)
deriving DecidableEq

def RootError.message : RootError → String
  | notFound start =>
    s!"could not find repository root above {start}. Run from within a git repository or use --root-dir."
  | notADirectory root => s!"--root-dir {root} is not a directory"

namespace Layout

def ofRoot (root : Path) : Layout :=
  ⟨root, root / "packages/functions/src"⟩

def explicit (fs : FileSystem) (root : Path) : Except RootError Layout :=
  if fs.isDir root then .ok (ofRoot root) else .error (.notADirectory root)

def discover (fs : FileSystem) (start : Path) : Except RootError Layout :=
  match start.ancestors.find? fun dir => fs.pathExists (dir / ".git") with
  | some root => .ok (ofRoot root)
  | none => .error (.notFound start)

def layer (layout : Layout) (name : String) : Path :=
  layout.functions / name

def handlers (layout : Layout) : Path :=
  layout.layer "handlers"

def app (layout : Layout) : Path :=
  layout.root / "ios/BradOS/BradOS"

def architecture (layout : Layout) : Path :=
  layout.root / "docs/architecture"

def plans (layout : Layout) : Path :=
  layout.root / "thoughts/shared/plans"

def relative (layout : Layout) (p : Path) : String :=
  p.relativeTo layout.root

end Layout

namespace FileSystem

def isTestName (name : String) : Bool :=
  Text.endsWith name.toList ".test.ts" || Text.endsWith name.toList ".spec.ts"

def isSourceName (name : String) : Bool :=
  Text.endsWith name.toList ".ts" && !isTestName name && !Text.contains name.toList "__tests__"

def sourceFiles (fs : FileSystem) (skipped : List String) (start : Path) : List Path :=
  fs.collectFiles { skipped } isSourceName start

def testFiles (fs : FileSystem) (start : Path) : List Path :=
  fs.collectFiles { skipped := skipping ["ios", "public"], skipsHidden := true } isTestName start

def swiftFiles (fs : FileSystem) (start : Path) : List Path :=
  fs.collectFiles {} (Text.endsWith ·.toList ".swift") start

def markdownFiles (fs : FileSystem) (skipped : List String) (start : Path) : List Path :=
  fs.collectFiles { skipped } (Text.endsWith ·.toList ".md") start

end FileSystem

end Conformance
