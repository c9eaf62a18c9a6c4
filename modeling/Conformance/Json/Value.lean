import Conformance.Json.Literal
import Conformance.Text.Quoted

namespace Conformance.Json

inductive Value where
  | null
  | boolean (value : Bool)
  | number
  | string (chars : List Char)
  | list (items : List Value)
  | object (members : List (List Char × Value))

/-- Leaves a list: the place behind its bracket, or behind what was looked at, and what is wrong if
the list does not end here. -/
def leaveList (r : Reader) : Reader × Option Failure :=
  let r := r.skipBlanks
  match r.peek? with
  | some ']' => (r.eat, none)
  | some ',' =>
    let r := r.eat.skipBlanks
    let problem := if r.peek? = some ']' then Problem.trailingComma else .trailingCharacters
    (r, some (.placed problem r.pastByte))
  | some _ => (r, some (.placed .trailingCharacters r.pastByte))
  | none => (r, some (.placed .eofInList r.here))

/-- Leaves an object: the place behind its brace, or before what was looked at, and what is wrong if
the object does not end here. -/
def leaveObject (r : Reader) : Reader × Option Failure :=
  let r := r.skipBlanks
  match r.peek? with
  | some '}' => (r.eat, none)
  | some ',' => (r, some (.placed .trailingComma r.pastByte))
  | some _ => (r, some (.placed .trailingCharacters r.pastByte))
  | none => (r, some (.placed .eofInObject r.here))

/-- Ends a list or an object whose inside has been read. A problem without a place gets the place
that leaving it reaches. -/
def close {α : Type} (leave : Reader → Reader × Option Failure) :
    Except Failure (α × Reader) → Except Failure (α × Reader)
  | .ok (value, r) =>
    match leave r with
    | (r, none) => .ok (value, r)
    | (_, some failure) => .error failure
  | .error (.placed problem position) => .error (.placed problem position)
  | .error (.loose problem r) => failHere problem (leave r).1

def nextItem (first : Bool) (r : Reader) : Except Failure (Bool × Reader) :=
  let r := r.skipBlanks
  match r.peek? with
  | none => failHere .eofInList r
  | some ']' => .ok (false, r)
  | some c =>
    if first then .ok (true, r)
    else if c = ',' then
      let r := r.eat.skipBlanks
      match r.peek? with
      | none => failHere .eofInValue r
      | some ']' => failNext .trailingComma r
      | some _ => .ok (true, r)
    else failNext .expectedListComma r

def nextKey (first : Bool) (r : Reader) : Except Failure (Bool × Reader) :=
  let r := r.skipBlanks
  match r.peek? with
  | none => failHere .eofInObject r
  | some '}' => .ok (false, r)
  | some c =>
    if first then
      if c = '"' then .ok (true, r) else failNext .keyNotString r
    else if c = ',' then
      let r := r.eat.skipBlanks
      match r.peek? with
      | none => failHere .eofInValue r
      | some '"' => .ok (true, r)
      | some '}' => failNext .trailingComma r
      | some _ => failNext .keyNotString r
    else failNext .expectedObjectComma r

def readColon (r : Reader) : Except Failure Reader :=
  let r := r.skipBlanks
  match r.peek? with
  | none => failHere .eofInObject r
  | some ':' => .ok r.eat
  | some _ => failNext .expectedColon r

def readItems {α : Type} (item : α → Reader → Except Failure (α × Reader)) :
    Nat → Bool → α → Reader → Except Failure (α × Reader)
  | 0, _, _, r => failHere .eofInList r
  | limit + 1, first, done, r => do
    let (more, r) ← nextItem first r
    if more then
      let (done, r) ← item done r
      readItems item limit false done r
    else pure (done, r)

/-- Reads the members of an object with `member`, which gets each key, and the place behind it, and
takes the member into what has been read so far. -/
def readMembers {α : Type} (member : α → List Char → Reader → Except Failure (α × Reader)) :
    Nat → Bool → α → Reader → Except Failure (α × Reader)
  | 0, _, _, r => failHere .eofInObject r
  | limit + 1, first, done, r => do
    let (more, r) ← nextKey first r
    if more then
      let (key, r) ← readString r.eat
      let (done, r) ← member done key r
      readMembers member limit false done r
    else pure (done, r)

/-- Reads a value. Lists and objects may be nested less than `depth` deep. The first argument bounds
the number of steps. -/
def readValue : Nat → Nat → Reader → Except Failure (Value × Reader)
  | 0, _, r => failHere .eofInValue r
  | limit + 1, depth, r =>
    let r := r.skipBlanks
    match r.peek? with
    | none => failHere .eofInValue r
    | some 'n' => do pure (.null, ← readWord "ull".toList r.eat)
    | some 't' => do pure (.boolean true, ← readWord "rue".toList r.eat)
    | some 'f' => do pure (.boolean false, ← readWord "alse".toList r.eat)
    | some '"' => do
      let (chars, r) ← readString r.eat
      pure (.string chars, r)
    | some '[' =>
      if depth ≤ 1 then failNext .tooDeep r
      else
        close leaveList do
          let item (done : List Value) (r : Reader) : Except Failure (List Value × Reader) := do
            let (value, r) ← readValue limit (depth - 1) r
            pure (done ++ [value], r)
          let (items, r) ← readItems item limit true [] r.eat
          pure (.list items, r)
    | some '{' =>
      if depth ≤ 1 then failNext .tooDeep r
      else
        close leaveObject do
          let member (done : List (List Char × Value)) (key : List Char) (r : Reader) :
              Except Failure (List (List Char × Value) × Reader) := do
            let r ← readColon r
            let (value, r) ← readValue limit (depth - 1) r
            pure (done ++ [(key, value)], r)
          let (members, r) ← readMembers member limit true [] r.eat
          pure (.object members, r)
    | some c =>
      if c = '-' then do
        let (_, r) ← readNumber false r.eat
        pure (.number, r)
      else if c.isDigit then do
        let (_, r) ← readNumber true r
        pure (.number, r)
      else failNext .expectedValue r

mutual

/-- Passes a value of any depth. The first argument bounds the number of steps, of which each
bracket takes two and everything else at most one. -/
def skipValue : Nat → Reader → Except Failure Reader
  | 0, r => failHere .eofInValue r
  | limit + 1, r =>
    let r := r.skipBlanks
    match r.peek? with
    | none => failHere .eofInValue r
    | some 'n' => readWord "ull".toList r.eat
    | some 't' => readWord "rue".toList r.eat
    | some 'f' => readWord "alse".toList r.eat
    | some '"' => skipString r.eat
    | some '[' =>
      let inside := r.eat.skipBlanks
      if inside.peek? = some ']' then .ok inside.eat
      else if inside.peek?.isNone then failHere .eofInList inside
      else skipItems limit inside
    | some '{' =>
      let inside := r.eat.skipBlanks
      if inside.peek? = some '}' then .ok inside.eat else skipMembers limit inside
    | some c =>
      if c = '-' then skipNumber r.eat
      else if c.isDigit then skipNumber r
      else failNext .expectedValue r

def skipItems : Nat → Reader → Except Failure Reader
  | 0, r => failHere .eofInList r
  | limit + 1, r => do
    let r ← skipValue limit r
    let r := r.skipBlanks
    match r.peek? with
    | none => failHere .eofInList r
    | some ',' => skipItems limit r.eat
    | some ']' => .ok r.eat
    | some _ => failNext .expectedListComma r

def skipMembers : Nat → Reader → Except Failure Reader
  | 0, r => failHere .eofInObject r
  | limit + 1, r => do
    let r := r.skipBlanks
    match r.peek? with
    | none => failHere .eofInObject r
    | some '"' =>
      let r ← skipString r.eat
      let r ← readColon r
      let r ← skipValue limit r
      let r := r.skipBlanks
      match r.peek? with
      | none => failHere .eofInObject r
      | some ',' => skipMembers limit r.eat
      | some '}' => .ok r.eat
      | some _ => failNext .expectedObjectComma r
    | some _ => failNext .keyNotString r

end

/-- The problem of a value of another type than the expected one. Scalars are read first, so that
the place is behind them; lists and objects are not entered. -/
def mismatch (expected : String) (r : Reader) : Failure :=
  let found (what : String) (r : Reader) := Failure.placed (.wrongType what expected) r.here
  let orElse (parsed : Except Failure Reader) (what : String) : Failure :=
    match parsed with
    | .ok r => found what r
    | .error failure => failure
  let number (parsed : Except Failure (Number × Reader)) : Failure :=
    match parsed with
    | .ok (n, r) => found n.shown r
    | .error failure => failure
  match r.peek? with
  | some 'n' => orElse (readWord "ull".toList r.eat) "null"
  | some 't' => orElse (readWord "rue".toList r.eat) "boolean `true`"
  | some 'f' => orElse (readWord "alse".toList r.eat) "boolean `false`"
  | some '"' =>
    match readString r.eat with
    | .ok (chars, r) => found s!"string {Text.quoted chars}" r
    | .error failure => failure
  | some '[' => found "sequence" r
  | some '{' => found "map" r
  | some '-' => number (readNumber false r.eat)
  | some c => if c.isDigit then number (readNumber true r) else .placed .expectedValue r.pastByte
  | none => .placed .expectedValue r.pastByte

end Conformance.Json
