import Conformance.Check.App
import Conformance.Check.Coverage
import Conformance.Check.Debt
import Conformance.Check.Endpoints
import Conformance.Check.Features
import Conformance.Check.Layering
import Conformance.Check.Placement
import Conformance.Check.References
import Conformance.Check.Scripts
import Conformance.Check.TestBodies
import Conformance.Check.Tests
import Conformance.Check.Tidiness
import Conformance.Check.Validation

namespace Conformance.Check

def registry : List Check :=
  [layering, validation, uniqueTypes, endpoints, appLayers, mapReferences, openDebt,
    agentsReferences, features, planPlaces, consoleUse, networkAccess, typesInPlace, schemasInPlace,
    skippedTests, riskCoverage, sharedFactories, sharedResponse, focusedTests, testBodies,
    repositoryCoverage, documentLinks, archiveDirs, scriptSizes]

def find? (id : String) : Option Check :=
  registry.find? (·.id == id)

structure Unknown where
  id : String
deriving DecidableEq

def select (ids : List String) : Except Unknown (List Check) :=
  ids.mapM fun id =>
    match find? id with
    | some check => .ok check
    | none => .error ⟨id⟩

end Conformance.Check
