import Conformance.Endpoint.HostingRule
import Conformance.Json.Record

namespace Conformance.Endpoint.Hosting

open Json

structure Item where
  source : Option String := none
  function : Option String := none

def maxDepth : Nat := 128

def functionName? : Value → Option String
  | .string chars => some (String.ofList chars)
  | .object members =>
    match members.filter (·.1 == "functionId".toList) with
    | [(_, .string chars)] => some (String.ofList chars)
    | _ => none
  | _ => none

def readFunction (r : Reader) : Except Failure (String × Reader) := do
  let (value, r) ← readValue (r.rest.length + 2) (maxDepth - 4) r
  match functionName? value with
  | some name => pure (name, r)
  | none => .error (.loose (.noVariant "RewriteTarget") r)

def item : Shape Item where
  name := "HostingRewrite"
  fields :=
    [{ key := "source"
       read := fun done r => do
        let (source, r) ← readOptional readText r
        pure ({ done with source }, r) },
     { key := "function"
       read := fun done r => do
        let (function, r) ← readOptional readFunction r
        pure ({ done with function }, r) }]
  start := {}
  mayEndEarly := false

def hosting : Shape (List Item) where
  name := "Hosting"
  fields := [{ key := "rewrites", read := fun _ r => readSequence item.read r }]
  start := []
  mayEndEarly := true

def configuration : Shape (List Item) where
  name := "FirebaseJson"
  fields :=
    [{ key := "hosting"
       read := fun _ r => do
        let (items, r) ← readOptional hosting.read r
        pure (items.getD [], r) }]
  start := []
  mayEndEarly := true

def Item.rule? (i : Item) : Option HostingRule := do
  pure ⟨← i.source, ← i.function⟩

def rules (text : List Char) : Except Failure (List HostingRule) := do
  let items ← readWhole configuration.read text
  pure (items.filterMap Item.rule?)

end Conformance.Endpoint.Hosting
