import Conformance.Text.Blank
import Conformance.Text.Case
import Conformance.Text.Pieces

namespace Conformance.Endpoint

def isSeparator (c : Char) : Bool :=
  c == '-' || c == '_' || c == '/' || c == '\\'

def nameWords (name : List Char) : List (List Char) :=
  (Text.split isSeparator name).filter (!·.isEmpty)

def pascalCase (name : List Char) : List Char :=
  (nameWords name).flatMap Text.capitalize

def camelCase (name : List Char) : List Char :=
  Text.decapitalize (pascalCase name)

/-- An endpoint: the route it is mounted under without a leading slash, the module of its handler
without extension, and how it departs from the rule. -/
structure Entry where
  route : String := ""
  handler : String := ""
  stem : Option String := none
  devOnly : Bool := false
  customSource : Option String := none
  options : Option String := none
deriving DecidableEq

def normalRoute (route : List Char) : List Char :=
  (Text.trim route).dropWhile (· == '/')

def normalHandler (handler : List Char) : List Char :=
  let name := Text.trim handler
  match Text.beforeTail? ".ts".toList name with
  | some stem => stem
  | none => (Text.beforeTail? ".js".toList name).getD name

namespace Entry

def of (route handler : String) : Entry where
  route := String.ofList (normalRoute route.toList)
  handler := String.ofList (normalHandler handler.toList)

def functionStem (e : Entry) : String :=
  match e.stem with
  | some stem => stem
  | none => String.ofList (pascalCase (if e.route = "" then e.handler else e.route).toList)

def devName (e : Entry) : String :=
  "dev" ++ e.functionStem

def prodName (e : Entry) : String :=
  "prod" ++ e.functionStem

def functionNames (e : Entry) : List String :=
  if e.devOnly then [e.devName] else [e.devName, e.prodName]

def appName (e : Entry) : String :=
  String.ofList (camelCase e.handler.toList) ++ "App"

def label (e : Entry) : String :=
  if e.route ≠ "" then s!"'{e.route}'"
  else
    match e.customSource with
    | some source => s!"custom source '{source}'"
    | none => s!"handler '{e.handler}'"

end Entry

end Conformance.Endpoint
