import Conformance.Check.Basic
import Conformance.Path.Basic
import Conformance.Source.Import

namespace Conformance

inductive Layer where
  | types
  | schemas
  | repositories
  | services
  | handlers
  | middleware
deriving DecidableEq

namespace Layer

def all : List Layer :=
  [types, schemas, repositories, services, handlers, middleware]

def dir : Layer → String
  | types => "types"
  | schemas => "schemas"
  | repositories => "repositories"
  | services => "services"
  | handlers => "handlers"
  | middleware => "middleware"

def ofDir? (name : String) : Option Layer :=
  all.find? (·.dir == name)

def mayImport : Layer → List Layer
  | types => []
  | schemas => [types]
  | repositories => [types, schemas]
  | services => [types, schemas, repositories]
  | handlers => [types, schemas, repositories, services, middleware]
  | middleware => [types, schemas]

def allows (layer other : Layer) : Bool :=
  layer == other || layer.mayImport.contains other

def ofPath? (functions p : Path) : Option Layer :=
  match Text.afterLead? functions.components p.components with
  | some (first :: _ :: _) => ofDir? first.text
  | _ => none

def allowedList (layer : Layer) : String :=
  if layer.mayImport.isEmpty then "(none)"
  else ", ".intercalate (sortedTexts (layer.mayImport.map dir))

end Layer

namespace Check.Layering

def targetOf? (functions source : Path) (i : Source.Import) : Option Layer := do
  if i.isRelative then
    let base ← source.parent?
    Layer.ofPath? functions (base / i.specifier).normalize
  else none

def violation (file : String) (layer target : Layer) (i : Source.Import) : Violation :=
  let layerDir := layer.dir
  (Violation.at_ s!"{file}:{i.line}"
    s!"(layer: {layerDir}) imports from '{i.specifier}' (layer: {target.dir}). {layerDir} may not import from {target.dir}."
  ).rule s!"Dependencies flow types -> schemas -> repositories -> services -> handlers. A {layerDir} file may only import from: [{layer.allowedList}]."
  |>.steps
    [s!"Move the needed type/function to a layer that {layerDir} is allowed to import (e.g. packages/functions/src/types/).",
      s!"Update the import in {file} to point to the new location.",
      "Delete the old definition if nothing else uses it."]
  |>.see "docs/conventions/typescript.md"

def inspect (functions source : Path) (layer : Layer) (file : String) (text : List Char) :
    List Violation :=
  (Source.Import.ofText text).filterMap fun i =>
    match targetOf? functions source i with
    | some target => if layer.allows target then none else some (violation file layer target i)
    | none => none

def find (repo : Repository) : List Violation :=
  let functions := repo.layout.functions
  (repo.files.sourceFiles (skipping ["__tests__", "test-utils"]) functions).flatMap fun source =>
    match Layer.ofPath? functions source with
    | none => []
    | some layer => repo.inspectFile (inspect functions source layer) source

end Check.Layering

def Check.layering : Check where
  id := "layer-deps"
  name := "Layer dependencies"
  find repo := .ok (Layering.find repo)

end Conformance
