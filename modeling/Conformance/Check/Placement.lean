import Conformance.Check.Basic
import Conformance.Repeats
import Conformance.Source.ExportedType

namespace Conformance

namespace Check.Placement

def scannedLayers : List String :=
  ["services", "handlers", "repositories"]

def strayType (file : String) (t : Source.ExportedType) : Violation :=
  (Violation.at_ s!"{file}:{t.line}"
    s!"exports {t.kind.keyword} '{t.name}' outside of types/ directory."
  ).rule "Domain types must live in packages/functions/src/types/ and be imported via shared.ts."
  |>.fixLines
    [s!"Move '{t.name}' to packages/functions/src/types/<resource>.ts.",
      s!"Then import it where needed: import \x7b {t.name} \x7d from '../shared.js'"]
  |>.see "docs/conventions/typescript.md"

def strayTypes (repo : Repository) : List Violation :=
  repo.inspectFiles (repo.layerSources scannedLayers) fun file text =>
    (Source.ExportedType.ofText text).map (strayType file)

def schemaBuilder : Pattern :=
  .chain [.wordBorder,
    .group 1 (.seq (.text "z.")
      (.anyOf "object" ["string", "number", "boolean", "array", "enum", "union", "intersection",
        "literal", "tuple", "record", "nativeEnum", "discriminatedUnion"])),
    .blanks, .text "("]

def schemaType : Pattern :=
  .chain [.wordBorder, .text "z.infer", .wordBorder]

def namesSchemaType (text : List Char) (line : Nat) : Bool :=
  (Text.lines text)[line - 1]?.any schemaType.occursIn

def straySchema (file : String) (hit : Hit) : Violation :=
  (Violation.at_ s!"{file}:{hit.line}"
    s!"constructs a Zod schema ({hit.matched}) outside of schemas/ directory."
  ).rule "Zod schemas must live in packages/functions/src/schemas/, one file per resource."
  |>.fixLines
    ["Move the schema definition to packages/functions/src/schemas/<resource>.schema.ts.",
      "Then import it: import \x7b mySchema \x7d from '../schemas/<resource>.schema.js'"]
  |>.see "docs/golden-principles.md"

def straySchemas (repo : Repository) : List Violation :=
  repo.inspectFiles (repo.layerSources scannedLayers) fun file text =>
    ((codeHits schemaBuilder text).filter fun hit => !namesSchemaType text hit.line).map
      (straySchema file)

structure Site where
  name : String
  file : String
  line : Nat
deriving DecidableEq

def typesDir : String := "packages/functions/src/types/"

def typeSources (repo : Repository) : List Path :=
  repo.files.sourceFiles (skipping ["__tests__"]) repo.layout.functions

def sitesIn (repo : Repository) (p : Path) : List Site :=
  match repo.files.read p with
  | .ok text =>
    (Source.ExportedType.ofText text).map fun t => ⟨t.name, repo.relative p, t.line⟩
  | .error _ => []

def sitesOf (sites : List Site) (name : String) : List (String × Nat) :=
  let own := sites.filter (·.name == name)
  (sortedTexts (own.map Site.file)).filterMap fun file =>
    (own.find? (·.file == file)).map fun site => (file, site.line)

def repeatedType (name : String) (sites : List (String × Nat)) : Violation :=
  let canonical := ((sites.map Prod.fst).find? (Text.startsWith ·.toList typesDir)).getD
    s!"{typesDir}<resource>.ts"
  ({ headline := s!"Type '{name}' defined in multiple files:" } : Violation)
  |>.addSection "At" (sites.map fun (file, line) => s!"{file}:{line}")
  |>.rule s!"Each type/interface must be defined exactly once, in {typesDir}."
  |>.steps
    [s!"Keep the definition in {canonical} (the canonical location).",
      "Delete the duplicate definition(s) from the other file(s).",
      s!"Update imports in consuming files to use: import \x7b {name} \x7d from '../shared.js'"]
  |>.see "docs/conventions/typescript.md#type-deduplication"

/-- The violations of types that are declared in more than one file, behind those of files that
cannot be read. -/
def repeatedTypes (repo : Repository) : List Violation :=
  let sources := typeSources repo
  let sites := sources.flatMap (sitesIn repo)
  let names := sortedTexts (sites.map Site.name)
  repo.inspectFiles sources (fun _ _ => []) ++
    names.filterMap fun name =>
      let own := sitesOf sites name
      if own.length > 1 then some (repeatedType name own) else none

end Check.Placement

def Check.uniqueTypes : Check where
  id := "type-dedup"
  name := "Type deduplication"
  find repo := .ok (Placement.repeatedTypes repo)

def Check.typesInPlace : Check where
  id := "types-in-types-dir"
  name := "Domain types only in types/"
  find repo := .ok (Placement.strayTypes repo)

def Check.schemasInPlace : Check where
  id := "schemas-in-schemas-dir"
  name := "Zod schemas only in schemas/"
  find repo := .ok (Placement.straySchemas repo)

end Conformance
