import Conformance.Json.Value

namespace Conformance.Json

structure Field (α : Type) where
  key : String
  read : α → Reader → Except Failure (α × Reader)

/-- A shape of records: its name in messages, its fields in order, the record without any of them, and
whether a list may end before the last field. -/
structure Shape (α : Type) where
  name : String
  fields : List (Field α)
  start : α
  mayEndEarly : Bool

def readOptional {α : Type} (read : Reader → Except Failure (α × Reader)) (r : Reader) :
    Except Failure (Option α × Reader) :=
  let r := r.skipBlanks
  if r.peek? = some 'n' then do
    let r ← readWord "ull".toList r.eat
    pure (none, r)
  else do
    let (value, r) ← read r
    pure (some value, r)

def readText (r : Reader) : Except Failure (String × Reader) :=
  let r := r.skipBlanks
  match r.peek? with
  | none => failHere .eofInValue r
  | some '"' => do
    let (chars, r) ← readString r.eat
    pure (String.ofList chars, r)
  | some _ => .error (mismatch "a string" r)

def readSequence {α : Type} (read : Reader → Except Failure (α × Reader)) (r : Reader) :
    Except Failure (List α × Reader) :=
  let r := r.skipBlanks
  let item (done : List α) (r : Reader) : Except Failure (List α × Reader) := do
    let (value, r) ← read r
    pure (done ++ [value], r)
  match r.peek? with
  | none => failHere .eofInValue r
  | some '[' => close leaveList (readItems item (r.rest.length + 1) true [] r.eat)
  | some _ => .error (mismatch "a sequence" r)

namespace Shape

variable {α : Type} (shape : Shape α)

def endsEarly (found : Nat) : Problem :=
  .wrongLength found s!"struct {shape.name} with {shape.fields.length} elements"

/-- Reads the fields of a record that is written as a list, behind its bracket; `found` have been read
already. -/
def readFields (found : Nat) : List (Field α) → α → Reader → Except Failure (α × Reader)
  | [], done, r => .ok (done, r)
  | field :: fields, done, r => do
    let (more, r) ← nextItem (found = 0) r
    if more then
      let (done, r) ← field.read done r
      readFields (found + 1) fields done r
    else if shape.mayEndEarly then pure (done, r)
    else .error (.loose (shape.endsEarly found) r)

def readMember (state : List String × α) (key : List Char) (r : Reader) :
    Except Failure ((List String × α) × Reader) :=
  let (seen, done) := state
  match shape.fields.find? (·.key.toList == key) with
  | none => do
    let r ← readColon r
    let r ← skipValue (2 * r.rest.length + 3) r
    pure ((seen, done), r)
  | some field =>
    if seen.contains field.key then .error (.loose (.repeatedField field.key) r)
    else do
      let r ← readColon r
      let (done, r) ← field.read done r
      pure ((field.key :: seen, done), r)

def read (r : Reader) : Except Failure (α × Reader) :=
  let r := r.skipBlanks
  match r.peek? with
  | none => failHere .eofInValue r
  | some '[' => close leaveList (shape.readFields 0 shape.fields shape.start r.eat)
  | some '{' => do
    let ((_, done), r) ←
      close leaveObject (readMembers shape.readMember (r.rest.length + 1) true ([], shape.start) r.eat)
    pure (done, r)
  | some _ => .error (mismatch s!"struct {shape.name}" r)

end Shape

def readWhole {α : Type} (read : Reader → Except Failure (α × Reader)) (text : List Char) :
    Except Failure α := do
  let (value, r) ← read (.ofText text)
  let r := r.skipBlanks
  if r.rest.isEmpty then pure value else failNext .trailingCharacters r

def Failure.message : Failure → String
  | placed problem p => s!"{problem.message} at line {p.line} column {p.column}"
  | loose problem r => s!"{problem.message} at line {r.line} column {r.column}"

end Conformance.Json
