import Conformance.Pattern.Search
import Conformance.Text.Lines

namespace Conformance.Source

inductive Method where
  | get
  | post
  | put
  | patch
  | delete
deriving DecidableEq

namespace Method

def verb : Method → String
  | get => "get"
  | post => "post"
  | put => "put"
  | patch => "patch"
  | delete => "delete"

def shown : Method → String
  | get => "GET"
  | post => "POST"
  | put => "PUT"
  | patch => "PATCH"
  | delete => "DELETE"

def ofVerb? (verb : String) : Option Method :=
  [get, post, put, patch, delete].find? (·.verb == verb)

def isWrite : Method → Bool
  | post | put | patch => true
  | get | delete => false

end Method

structure Route where
  method : Method
  path : String
  line : Nat
  start : Nat
  stop : Nat
deriving DecidableEq

namespace Route

def callee : Pattern :=
  .chain [.wordBorder, .text "app.", .group 1 (.anyOf "get" ["post", "put", "patch", "delete"])]

def registration : Pattern :=
  .chain [callee, .text "(", .blanks, .char (Pattern.among "'\"`"),
    .group 2 (.mostOne (Pattern.outside "'\"`")), .char (Pattern.among "'\"`")]

def anyRegistration : Pattern :=
  .chain [callee, .blanks, .text "("]

def ofMatch? (index : Text.LineIndex) (length : Nat) (m : Pattern.Match) : Option Route := do
  let verb ← m.group? 1
  let method ← Method.ofVerb? (String.ofList verb)
  let path ← m.group? 2
  pure
    { method
      path := String.ofList path
      line := index.lineOf m.start.offset
      start := m.start.offset
      stop := length }

def closeBlocks : List Route → List Route
  | [] => []
  | [last] => [last]
  | route :: next :: rest => { route with stop := next.start } :: closeBlocks (next :: rest)

def ofText (text : List Char) (selects : Method → Bool) : List Route :=
  let routes := (registration.findAll text).filterMap (ofMatch? (.ofText text) (Text.byteLength text))
  closeBlocks (routes.filter (selects ·.method))

def registers (text : List Char) : Bool :=
  anyRegistration.occursIn text

end Route

end Conformance.Source
