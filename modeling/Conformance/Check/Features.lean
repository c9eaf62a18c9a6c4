import Conformance.Check.Basic
import Conformance.Source.Route
import Conformance.Text.Case

namespace Conformance

namespace Check.Features

def handlerFeatures : List (String × String) :=
  [("exercises", "lifting"), ("plans", "lifting"), ("mesocycles", "lifting"),
    ("workouts", "lifting"), ("workoutSets", "lifting"), ("stretches", "stretching"),
    ("stretchSessions", "stretching"), ("meditationSessions", "meditation"),
    ("guidedMeditations", "meditation"), ("tts", "meditation"), ("health-sync", "health"),
    ("health", "health"), ("calendar", "calendar"), ("today-coach", "today"), ("cycling", "cycling"),
    ("cycling-coach", "cycling"), ("strava-webhook", "cycling"), ("mealplans", "meal-planning"),
    ("meals", "meal-planning"), ("recipes", "meal-planning"), ("ingredients", "meal-planning"),
    ("barcodes", "meal-planning"), ("mealplan-debug", "meal-planning")]

def featureOf? (handler : String) : Option String :=
  handlerFeatures.lookup handler

def outline (title file feature : String) : List String :=
  [s!"# {title} Architecture", "## Data Flow", "handler -> service -> repository -> Firestore",
    "## Key Files", s!"- `packages/functions/src/handlers/{file}`",
    s!"- `packages/functions/src/services/{feature}.service.ts`",
    s!"- `packages/functions/src/types/{feature}.ts`"]

def documented (repo : Repository) : List String :=
  (repo.files.listFiles (Text.endsWith ·.toList ".md") repo.layout.architecture).filterMap
    Path.fileStem?

def unmapped (file handlerFile handler : String) : Violation :=
  (Violation.at_ file "defines routes but has no entry in the handler-to-feature map."
  ).rule "Every handler with Express routes must map to a feature and have an architecture doc."
  |>.steps
    [s!"Add (\"{handler}\", \"<feature>\") to HANDLER_FEATURES in the orphan-features check.",
      "Create docs/architecture/<feature>.md using the template below."]
  |>.showing (outline "<Feature>" handlerFile "<feature>")
  |>.see "docs/golden-principles.md"

def undocumented (file handlerFile feature : String) : Violation :=
  let title := String.ofList (Text.capitalize feature.toList)
  (Violation.at_ file
    s!"maps to feature '{feature}' but docs/architecture/{feature}.md does not exist."
  ).rule "Every feature with handlers must have an architecture doc in docs/architecture/."
  |>.steps
    [s!"Create docs/architecture/{feature}.md.",
      "Use docs/architecture/lifting.md as a template for structure."]
  |>.showing (outline title handlerFile feature)
  |>.see "docs/golden-principles.md"

def inspect (documented : List String) (handlerFile file : String) (text : List Char) :
    List Violation :=
  if !Source.Route.registers text then []
  else
    let handler := String.ofList (Text.dropTails ".ts".toList handlerFile.toList)
    match featureOf? handler with
    | none => [unmapped file handlerFile handler]
    | some feature =>
      if documented.contains feature then [] else [undocumented file handlerFile feature]

def find (repo : Repository) : List Violation :=
  let features := documented repo
  (repo.files.listFiles FileSystem.isSourceName repo.layout.handlers).flatMap fun p =>
    repo.inspectFile (inspect features (p.fileName?.getD "")) p

end Check.Features

def Check.features : Check where
  id := "orphan-features"
  name := "Orphan features"
  find repo := .ok (Features.find repo)

end Conformance
