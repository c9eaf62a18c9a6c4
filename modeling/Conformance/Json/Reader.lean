import Conformance.Text.Offset

/-!
Reading a JSON text from left to right, with the line and column of every error.

Lines count from one. The column is the number of bytes of the line that have been read when the
error is raised. An error about a byte that was only looked at counts that byte too.
-/

namespace Conformance.Json

structure Position where
  line : Nat
  column : Nat
deriving DecidableEq

inductive Problem where
  | eofInValue
  | eofInList
  | eofInObject
  | eofInString
  | expectedColon
  | expectedListComma
  | expectedObjectComma
  | expectedIdent
  | expectedValue
  | invalidEscape
  | invalidNumber
  | numberOutOfRange
  | loneSurrogate
  | unfinishedSurrogate
  | controlCharacter
  | keyNotString
  | trailingComma
  | trailingCharacters
  | tooDeep
  | wrongType (found expected : String)
  | wrongLength (found : Nat) (expected : String)
  | repeatedField (name : String)
  | noVariant (type : String)
deriving DecidableEq

def Problem.message : Problem → String
  | eofInValue => "EOF while parsing a value"
  | eofInList => "EOF while parsing a list"
  | eofInObject => "EOF while parsing an object"
  | eofInString => "EOF while parsing a string"
  | expectedColon => "expected `:`"
  | expectedListComma => "expected `,` or `]`"
  | expectedObjectComma => "expected `,` or `\x7d`"
  | expectedIdent => "expected ident"
  | expectedValue => "expected value"
  | invalidEscape => "invalid escape"
  | invalidNumber => "invalid number"
  | numberOutOfRange => "number out of range"
  | loneSurrogate => "lone leading surrogate in hex escape"
  | unfinishedSurrogate => "unexpected end of hex escape"
  | controlCharacter => "control character (\\u0000-\\u001F) found while parsing a string"
  | keyNotString => "key must be a string"
  | trailingComma => "trailing comma"
  | trailingCharacters => "trailing characters"
  | tooDeep => "recursion limit exceeded"
  | wrongType found expected => s!"invalid type: {found}, expected {expected}"
  | wrongLength found expected => s!"invalid length {found}, expected {expected}"
  | repeatedField name => s!"duplicate field `{name}`"
  | noVariant type => s!"data did not match any variant of untagged enum {type}"

structure Reader where
  line : Nat
  column : Nat
  rest : List Char

namespace Reader

def ofText (s : List Char) : Reader :=
  ⟨1, 0, s⟩

def here (r : Reader) : Position :=
  ⟨r.line, r.column⟩

def past (r : Reader) (c : Char) (rest : List Char) : Reader :=
  if c = '\n' then ⟨r.line + 1, 0, rest⟩ else ⟨r.line, r.column + c.utf8Size, rest⟩

def eat (r : Reader) : Reader :=
  match r.rest with
  | [] => r
  | c :: rest => r.past c rest

def peek? (r : Reader) : Option Char :=
  r.rest.head?

def positionAfter (n line column : Nat) : List Char → Position
  | [] => ⟨line, column⟩
  | c :: rest =>
    if n = 0 then ⟨line, column⟩
    else if c = '\n' then positionAfter (n - 1) (line + 1) 0 rest
    else if c.utf8Size ≤ n then positionAfter (n - c.utf8Size) line (column + c.utf8Size) rest
    else ⟨line, column + n⟩

def pastByte (r : Reader) : Position :=
  positionAfter 1 r.line r.column r.rest

def pastBytes (r : Reader) (n : Nat) : Position :=
  positionAfter n r.line r.column r.rest

def skipWhile (accepts : Char → Bool) (line column : Nat) : List Char → Reader
  | [] => ⟨line, column, []⟩
  | c :: rest =>
    if accepts c then
      let next := past ⟨line, column, c :: rest⟩ c rest
      skipWhile accepts next.line next.column rest
    else ⟨line, column, c :: rest⟩

def skipBlanks (r : Reader) : Reader :=
  skipWhile (fun c => c == ' ' || c == '\n' || c == '\t' || c == '\r') r.line r.column r.rest

def skipDigits (r : Reader) : Reader :=
  skipWhile Char.isDigit r.line r.column r.rest

def digits (r : Reader) : List Char :=
  r.rest.takeWhile Char.isDigit

end Reader

/-- Why reading ended: a problem at a place, or a problem whose place is settled only when the value
around it has been left, from the reader given. -/
inductive Failure where
  | placed (problem : Problem) (position : Position)
  | loose (problem : Problem) (reader : Reader)

def failHere {α : Type} (problem : Problem) (r : Reader) : Except Failure α :=
  .error (.placed problem r.here)

def failNext {α : Type} (problem : Problem) (r : Reader) : Except Failure α :=
  .error (.placed problem r.pastByte)

def readWord : List Char → Reader → Except Failure Reader
  | [], r => .ok r
  | expected :: word, r =>
    match r.peek? with
    | none => failHere .eofInValue r
    | some c => if c = expected then readWord word r.eat else failNext .expectedIdent r

end Conformance.Json
