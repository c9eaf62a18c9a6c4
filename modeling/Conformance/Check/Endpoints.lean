import Conformance.Check.Basic
import Conformance.Endpoint.Hosting
import Conformance.Endpoint.Manifest

namespace Conformance

namespace Check.Endpoints

open Endpoint

def configurationName : String := "firebase.json"

def entryPointName : String := "index.ts"

def plain (headline : String) : Violation :=
  { headline }

def lacks (number : Nat) (e : Entry) : List Violation :=
  (if e.handler = "" then
    [plain s!"Manifest entry #{number} ({e.label}) has no handlerFile."] else []) ++
  (if e.route = "" ∧ e.customSource.isNone then
    [plain s!"Manifest entry #{number} (handler '{e.handler}') has neither a routePath nor a customSource."]
  else [])

def malformed (entries : List Entry) : List Violation :=
  entries.zipIdx.flatMap fun (e, i) => lacks (i + 1) e

def unmounted (e : Entry) : Violation :=
  (plain s!"Handler '{e.handler}.ts' is missing createBaseApp/stripPathPrefix/createResourceRouter usage."
  ).fix s!"Mount the app with createBaseApp('{e.route}')."

def mountedElsewhere (e : Entry) (route : String) : Violation :=
  (plain s!"Handler '{e.handler}.ts' uses route '{route}' but manifest expects '{e.route}'."
  ).fix "Make the handler's mounted route and the manifest routePath agree."

def routeViolations (e : Entry) (source : List Char) : List Violation :=
  match mountedRoute? source with
  | none => [unmounted e]
  | some route =>
    let route := String.ofList route
    if route = e.route then [] else [mountedElsewhere e route]

def handlerViolations (repo : Repository) (e : Entry) : List Violation :=
  let file := s!"packages/functions/src/handlers/{e.handler}.ts"
  let path := repo.layout.handlers / s!"{e.handler}.ts"
  if !repo.files.pathExists path then
    [(plain s!"Missing handler file: {file} (route: {e.label}).").fix
      s!"Create {file} or correct handlerFile in {Manifest.fileName}."]
  else if e.route = "" then []
  else
    match repo.files.read path with
    | .error cause => [Repository.unreadable file cause]
    | .ok source => routeViolations e source

def hostingViolations (repo : Repository) (entries : List Entry) : List Violation :=
  let path := repo.layout.root / configurationName
  if !repo.files.pathExists path then [plain s!"{configurationName} not found at {path}"]
  else
    match repo.files.read path with
    | .error cause => [Repository.unreadable configurationName cause]
    | .ok text =>
      match Hosting.rules text with
      | .error failure => [plain s!"{configurationName} could not be parsed: {failure.message}"]
      | .ok actual =>
        (HostingRule.differences (HostingRule.expected entries) actual).map fun difference =>
          plain s!"{configurationName} rewrite parity failed: {difference}"

def listed (name : String) : Pattern :=
  let other := Pattern.most (· != '}')
  .chain [.text "\x7b", other, .wordBorder, .text name, .wordBorder, other, .text "\x7d"]

def handlerImport (name handler : String) : Pattern :=
  .chain [.text "import", .blanks, listed name, .blanks, .text "from", .blanks, .quote,
    .text s!"./handlers/{handler}.js", .quote]

def exportedDeclaration (name : String) : Pattern :=
  .chain [.text "export", .someBlanks, .anyOf "const" ["let", "function"], .someBlanks, .text name,
    .wordBorder]

def exportList (name : String) : Pattern :=
  .chain [.text "export", .blanks, listed name]

def isExported (entryPoint : List Char) (name : String) : Bool :=
  (exportedDeclaration name).occursIn entryPoint || (exportList name).occursIn entryPoint

def entryPointLacks (entryPoint : List Char) (e : Entry) : List Violation :=
  let missingImport :=
    if (handlerImport e.appName e.handler).occursIn entryPoint then []
    else
      [plain s!"Missing import for {e.appName} from './handlers/{e.handler}.js' in {entryPointName}."]
  missingImport ++
    (e.functionNames.filter (!isExported entryPoint ·)).map fun name =>
      plain s!"Missing export '{name}' in {entryPointName} for route {e.label}."

def entryPointViolations (repo : Repository) (entries : List Entry) : List Violation :=
  let path := repo.layout.functions / entryPointName
  if !repo.files.pathExists path then [plain s!"{entryPointName} not found at {path}"]
  else
    match repo.files.read path with
    | .error cause => [Repository.unreadable entryPointName cause]
    | .ok entryPoint => entries.flatMap (entryPointLacks entryPoint)

def ofEntries (repo : Repository) (entries : List Entry) : List Violation :=
  if entries.isEmpty then [plain "No manifest entries found in ENDPOINT_MANIFEST."]
  else
    let handled := entries.filter (·.handler ≠ "")
    malformed entries ++ handled.flatMap (handlerViolations repo) ++
      hostingViolations repo entries ++ entryPointViolations repo handled

def find (repo : Repository) : Except Fault (List Violation) := do
  if !repo.files.isDir repo.layout.functions then pure []
  else
    match ← (Manifest.read repo.files repo.layout).run with
    | .error cause => pure [plain cause.message]
    | .ok entries => pure (ofEntries repo entries)

def title : String := "Endpoint route consistency"

end Check.Endpoints

def Check.endpoints : Check where
  id := "endpoint-routes"
  name := Endpoints.title
  find := Endpoints.find

def Check.endpointsOf (entries : List Endpoint.Entry) : Check :=
  { endpoints with find := fun repo => .ok (Endpoints.ofEntries repo entries) }

end Conformance
