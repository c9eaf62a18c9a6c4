import Conformance.Endpoint.Entry
import Conformance.Endpoint.Lexical
import Conformance.Fault
import Conformance.Layout
import Conformance.Pattern.Search

namespace Conformance.Endpoint

inductive ManifestError where
  | notFound (path : Path)
  | unreadable (cause : ReadError)
  | missingDeclaration
  | unbalanced (offset : Nat)
  | empty
deriving DecidableEq

def ManifestError.message : ManifestError → String
  | notFound path => s!"endpoint-manifest.ts not found at {path}"
  | unreadable cause => s!"failed to read endpoint-manifest.ts: {cause}"
  | missingDeclaration =>
    "endpoint-manifest.ts does not declare `export const ENDPOINT_MANIFEST = [...]`"
  | unbalanced offset =>
    s!"unable to parse ENDPOINT_MANIFEST array: unbalanced brackets starting at byte {offset}"
  | empty => "ENDPOINT_MANIFEST is empty or malformed"

namespace Manifest

def fileName : String := "endpoint-manifest.ts"

def declaration : Pattern :=
  .chain [.text "export", .someBlanks, .text "const", .someBlanks, .text "ENDPOINT_MANIFEST",
    .wordBorder]

def fromBracket (code : List (Nat × Char)) : List (Nat × Char) :=
  ((code.dropWhile (·.2 != '=')).drop 1).dropWhile (·.2 != '[')

def closingBracket? : Nat → List (Nat × Char) → Option Nat
  | _, [] => none
  | depth, (at_, c) :: rest =>
    if c = '[' then closingBracket? (depth + 1) rest
    else if c = ']' then
      if depth ≤ 1 then some at_ else closingBracket? (depth - 1) rest
    else closingBracket? depth rest

def arrayBounds (text : List Char) : Except ManifestError (Nat × Nat) :=
  match declaration.find? text with
  | none => .error .missingDeclaration
  | some m =>
    match fromBracket (codeFrom m.stop.offset m.stop.rest) with
    | [] => .error .missingDeclaration
    | (open_, c) :: rest =>
      match closingBracket? 0 ((open_, c) :: rest) with
      | some close => .ok (open_, close + 1)
      | none => .error (.unbalanced open_)

/-- The bytes of the objects that are not inside other objects, when `depth` braces are open and the
outermost of them stands at `start`. -/
def blockBounds (depth start : Nat) : List (Nat × Char) → List (Nat × Nat)
  | [] => []
  | (at_, c) :: rest =>
    if c = '{' then blockBounds (depth + 1) (if depth = 0 then at_ else start) rest
    else if c = '}' then
      match depth with
      | 0 => blockBounds 0 start rest
      | 1 => (start, at_ + 1) :: blockBounds 0 start rest
      | depth + 1 => blockBounds depth start rest
    else blockBounds depth start rest

inductive Value where
  | text (chars : List Char)
  | flag (value : Bool)
deriving DecidableEq

def literalBody (number : Nat) (mark : Char) : Pattern :=
  let plain := Pattern.char fun c => c != mark && c != '\\'
  let escape := Pattern.seq (.text "\\") (.char (· != '\n'))
  .chain [.char (· == mark), .group number (.many (.either plain escape)), .char (· == mark)]

def field : Pattern :=
  .chain [.wordBorder, .group 1 (.mostOne Text.isWord), .blanks, .text ":", .blanks,
    .either (literalBody 2 '\'') (.either (literalBody 3 '"') (.either (literalBody 4 '`')
      (.seq (.group 5 (.anyOf "true" ["false"])) .wordBorder)))]

def unescape : List Char → List Char
  | '\\' :: c :: rest =>
    if isQuote c || c == '\\' then c :: unescape rest else '\\' :: c :: unescape rest
  | c :: rest => c :: unescape rest
  | [] => []

def fieldOf? (m : Pattern.Match) : Option (List Char × Value) :=
  (m.group? 1).map fun key =>
    match m.group? 5 with
    | some flag => (key, .flag (flag == "true".toList))
    | none =>
      let body := ((m.group? 2).or (m.group? 3)).or (m.group? 4)
      (key, .text (unescape (body.getD [])))

def fields (block : List Char) : List (List Char × Value) :=
  (field.findAll block).filterMap fieldOf?

def textField? (fields : List (List Char × Value)) (key : String) : Option (List Char) :=
  match fields.lookup key.toList with
  | some (.text chars) => some chars
  | _ => none

def entryOf (fields : List (List Char × Value)) : Entry :=
  let text := textField? fields
  let whole (key : String) := (text key).map String.ofList
  { route := ((text "routePath").map fun r => String.ofList (normalRoute r)).getD ""
    handler := ((text "handlerFile").map fun h => String.ofList (normalHandler h)).getD ""
    stem := (whole "functionStem").filter (· ≠ "")
    devOnly := fields.lookup "devOnly".toList = some (.flag true)
    customSource := (whole "customSource").filter (· ≠ "")
    options := whole "options" }

def arrayText (text : List Char) : ExceptT ManifestError (Except Fault) (List Char) := do
  let (start, stop) ← ExceptT.mk (.ok (arrayBounds text))
  cut text start stop

def parse (text : List Char) : ExceptT ManifestError (Except Fault) (List Entry) := do
  let array ← arrayText text
  let blocks ← (blockBounds 0 0 (codeFrom 0 array)).mapM fun (start, stop) =>
    (cut array start stop : Except Fault (List Char))
  if blocks.isEmpty then throw .empty
  pure (blocks.map fun block => entryOf (fields (withoutComments block)))

def read (fs : FileSystem) (layout : Layout) :
    ExceptT ManifestError (Except Fault) (List Entry) := do
  let path := layout.functions / fileName
  if !fs.pathExists path then throw (.notFound path)
  match fs.read path with
  | .error cause => throw (.unreadable cause)
  | .ok text => parse text

end Manifest

def literalCall (callee : String) : Pattern :=
  .chain [.text callee, .text "(", .blanks, .quoted 1, .blanks, .text ")"]

def resourceRouter : Pattern :=
  .chain [.text "createResourceRouter(", .blanks, .text "\x7b", .fewest fun _ => true,
    .text "resourceName:", .blanks, .quoted 1]

def mountedRoute? (source : List Char) : Option (List Char) :=
  let forms := [literalCall "createBaseApp", resourceRouter, literalCall "stripPathPrefix"]
  ((forms.findSome? (·.find? source)).bind (·.group? 1)).map normalRoute

end Conformance.Endpoint
