import Conformance.Check.Basic
import Conformance.Source.Route

namespace Conformance

namespace Check.Validation

def actionSuffixes : List String :=
  ["/start", "/complete", "/skip", "/cancel", "/unlog", "/remove", "/finalize", "/add", "/sync",
    "/generate", "/backfill-streams"]

def evidence : Pattern :=
  .either (.chain [.wordBorder, .text "validate", .blanks, .text "("])
    (.either (.chain [.text ".safeParse", .blanks, .text "("])
      (.chain [.most Text.isWord, .char (Pattern.among "Ss"), .text "chema.parse", .blanks,
        .text "("]))

def isAction (path : String) : Bool :=
  actionSuffixes.any (Text.endsWith path.toList)

def lacksEvidence (text : List Char) (route : Source.Route) : Except Fault Bool := do
  let block ← cut text route.start route.stop
  pure (!evidence.occursIn block)

/-- The routes of a handler module that should validate and do not. A module that uses the resource
router validates inside it. -/
def unvalidated (text : List Char) : Except Fault (List Source.Route) :=
  if Text.contains text "createResourceRouter" then .ok []
  else
    ((Source.Route.ofText text Source.Method.isWrite).filter (!isAction ·.path)).filterM
      (lacksEvidence text)

def schemaDir : String := "packages/functions/src/schemas/"

def violation (file : String) (route : Source.Route) : Violation :=
  (Violation.at_ s!"{file}:{route.line}"
    s!"has a {route.method.shown} route at '{route.path}' without Zod validation."
  ).rule "Every POST/PUT/PATCH handler must validate its request body with a Zod schema at the boundary."
  |>.steps
    [s!"Create or find a Zod schema in {schemaDir} (e.g. {schemaDir}<resource>.schema.ts).",
      "Import \x7b validate \x7d from '../middleware/validate.js' in the handler.",
      s!"Add validate(yourSchema) as middleware: app.{route.method.verb}('{route.path}', validate(yourSchema), asyncHandler(...))."]
  |>.showing
    ["// packages/functions/src/schemas/exercise.schema.ts",
      "export const createExerciseSchema = z.object(\x7b name: z.string().min(1) \x7d);",
      "// packages/functions/src/handlers/exercises.ts",
      "app.post('/exercises', validate(createExerciseSchema), asyncHandler(...));"]
  |>.see "docs/conventions/api-patterns.md"

def inspect (repo : Repository) (p : Path) : Except Fault (List Violation) :=
  match repo.files.read p with
  | .error cause => .ok [Repository.unreadable (repo.relative p) cause]
  | .ok text => do
    let routes ← unvalidated text
    pure (routes.map (violation (repo.relative p)))

def find (repo : Repository) : Except Fault (List Violation) := do
  let modules := repo.files.listFiles FileSystem.isSourceName repo.layout.handlers
  let found ← modules.mapM (inspect repo)
  pure found.flatten

end Check.Validation

def Check.validation : Check where
  id := "schema-boundary"
  name := "Schema-at-boundary"
  find := Validation.find

end Conformance
