import Conformance.Check.Basic
import Conformance.Source.AppType

namespace Conformance

namespace Check.App

def previewLine : Pattern :=
  .either (.seq .textStart (.text "#Preview")) (.text "_Previews:")

def mockName : Pattern :=
  .chain [.wordBorder, .text "Mock", .mostOne Text.isWord]

def wholeWord (name : String) : Pattern :=
  .chain [.wordBorder, .text name, .wordBorder]

def codeOf (line : List Char) : List Char :=
  mockName.removeAll (Source.withoutTrailingComment line)

/-- The types that a text names, line by line and in the given order on each line, up to its
previews. Comment lines name nothing. -/
def references (names : List String) (text : List Char) : List (Nat × String) :=
  let before := (Text.numberedLines text).takeWhile fun (_, line) => !previewLine.occursIn line
  (before.filter fun (_, line) => !Source.isCommentLine line).flatMap fun (number, line) =>
    let code := codeOf line
    (names.filter fun name => (wholeWord name).occursIn code).map fun name => (number, name)

/-- A rule of the layers: the files in one directory do not name the types declared in another. -/
structure Rule where
  scanned : String
  declared : String
  kinds : List Source.AppType.Kind
  violation : String → String → Violation

def viewNamesService (location type : String) : Violation :=
  (Violation.at_ location
    s!"references {type} (a Service type). Views must not depend on Services directly."
  ).rule "Views/ -> ViewModels/ -> Services/. Views access data through ViewModels, never by referencing Service types."
  |>.steps
    [s!"Create or find a ViewModel in ios/BradOS/BradOS/ViewModels/ that wraps {type}.",
      s!"Move the {type} usage from the View into that ViewModel.",
      "Have the View observe the ViewModel via @StateObject or @ObservedObject instead."]
  |>.see "docs/conventions/ios-swift.md"

def componentNamesModel (location type : String) : Violation :=
  (Violation.at_ location
    s!"references {type} (a ViewModel type). Components must not depend on ViewModels."
  ).rule "Components/ are reusable UI pieces that receive data via parameters (plain types, closures). They never reference ViewModel classes."
  |>.steps
    [s!"Replace the {type} reference with a plain parameter (e.g. a struct, array, or closure).",
      s!"Have the parent View that owns {type} extract the needed data and pass it in.",
      "If the Component needs to trigger actions, pass a closure instead of the whole ViewModel."]
  |>.see "docs/conventions/ios-swift.md"

def rules : List Rule :=
  [⟨"Views", "Services", [.classType, .actorType], viewNamesService⟩,
    ⟨"Components", "ViewModels", [.classType], componentNamesModel⟩]

/-- The violations of one rule. Without the directory it scans, or without types that it forbids, a
rule finds nothing. -/
def inspectRule (repo : Repository) (rule : Rule) : List Violation :=
  let scanned := repo.layout.app / rule.scanned
  if !repo.files.isDir scanned then []
  else
    let names := Source.AppType.declaredNames repo.files rule.kinds (repo.layout.app / rule.declared)
    if names.isEmpty then []
    else
      repo.inspectFiles (repo.files.swiftFiles scanned) fun file text =>
        (references names text).map fun (line, name) => rule.violation s!"{file}:{line}" name

def networkSession : Pattern :=
  wholeWord "URLSession"

def networkFiles : List String :=
  ["APIClient.swift", "StravaAuthManager.swift", "DebugLogExporter.swift", "DebugSpanExporter.swift"]

def mayUseNetwork (name : String) : Bool :=
  networkFiles.contains name || Text.endsWith name.toList "Tests.swift" ||
    Text.endsWith name.toList "Test.swift"

def rawSession (file : String) (hit : Hit) : Violation :=
  (Violation.at_ s!"{file}:{hit.line}" "uses URLSession directly instead of the shared APIClient."
  ).rule "All iOS HTTP requests must go through the shared APIClient with App Check."
  |>.fixLines
    ["Use APIClient.shared for HTTP requests instead of URLSession directly.",
      "See ios/BradOS/BradOS/Services/APIClient.swift for the shared client."]
  |>.see "docs/conventions/ios-swift.md"

def rawSessions (repo : Repository) : List Violation :=
  let files := (repo.files.swiftFiles repo.layout.app).filter fun p =>
    p.fileName?.any (!mayUseNetwork ·)
  repo.inspectFiles files fun file text => (codeHits networkSession text).map (rawSession file)

end Check.App

def Check.appLayers : Check where
  id := "ios-layers"
  name := "iOS architecture layers"
  find repo := .ok (App.rules.flatMap (App.inspectRule repo))

def Check.networkAccess : Check where
  id := "no-raw-urlsession"
  name := "No raw URLSession in iOS"
  find repo := .ok (App.rawSessions repo)

end Conformance
