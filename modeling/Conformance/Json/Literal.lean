import Conformance.Json.Reader
import Conformance.Number.Shortest

namespace Conformance.Json

def hexValue? (c : Char) : Option Nat :=
  if '0' ≤ c ∧ c ≤ '9' then some (c.toNat - '0'.toNat)
  else if 'a' ≤ c ∧ c ≤ 'f' then some (c.toNat - 'a'.toNat + 10)
  else if 'A' ≤ c ∧ c ≤ 'F' then some (c.toNat - 'A'.toNat + 10)
  else none

def fourHex? : List Char → Option Nat
  | a :: b :: c :: d :: _ => do
    pure (((← hexValue? a) * 16 + (← hexValue? b)) * 256 + (← hexValue? c) * 16 + (← hexValue? d))
  | _ => none

def readHex (r : Reader) : Except Failure (Nat × Reader) :=
  match fourHex? r.rest with
  | some n => .ok (n, r.eat.eat.eat.eat)
  | none =>
    if Text.byteLength r.rest < 4 then
      .error (.placed .eofInString (r.pastBytes (Text.byteLength r.rest)))
    else .error (.placed .invalidEscape (r.pastBytes 4))

def readPairMark (mark : Char) (r : Reader) : Except Failure Reader :=
  match r.peek? with
  | none => failHere .eofInString r
  | some c => if c = mark then .ok r.eat else failNext .unfinishedSurrogate r

def readCodePoint (r : Reader) : Except Failure (Char × Reader) := do
  let (n, r) ← readHex r
  if 0xDC00 ≤ n ∧ n ≤ 0xDFFF then failHere .loneSurrogate r
  else if n < 0xD800 ∨ 0xDBFF < n then pure (Char.ofNat n, r)
  else
    let r ← readPairMark '\\' r
    let r ← readPairMark 'u' r
    let (low, r) ← readHex r
    if low < 0xDC00 ∨ 0xDFFF < low then failHere .loneSurrogate r
    else pure (Char.ofNat ((n - 0xD800) * 0x400 + (low - 0xDC00) + 0x10000), r)

def simpleEscape? : Char → Option Char
  | '"' => some '"'
  | '\\' => some '\\'
  | '/' => some '/'
  | 'b' => some '\x08'
  | 'f' => some '\x0c'
  | 'n' => some '\n'
  | 'r' => some '\r'
  | 't' => some '\t'
  | _ => none

def readEscape (r : Reader) : Except Failure (Char × Reader) :=
  match r.peek? with
  | none => failHere .eofInString r
  | some 'u' => readCodePoint r.eat
  | some c =>
    match simpleEscape? c with
    | some meant => .ok (meant, r.eat)
    | none => failNext .invalidEscape r

def readStringBody : Nat → Reader → Except Failure (List Char × Reader)
  | 0, r => failHere .eofInString r
  | limit + 1, r =>
    match r.peek? with
    | none => failHere .eofInString r
    | some '"' => .ok ([], r.eat)
    | some '\\' => do
      let (c, r) ← readEscape r.eat
      let (more, r) ← readStringBody limit r
      pure (c :: more, r)
    | some c =>
      if c.toNat < 0x20 then failNext .controlCharacter r
      else do
        let (more, r) ← readStringBody limit r.eat
        pure (c :: more, r)

def readString (r : Reader) : Except Failure (List Char × Reader) :=
  readStringBody (r.rest.length + 1) r

def skipEscape (r : Reader) : Except Failure Reader :=
  match r.peek? with
  | none => failHere .eofInString r
  | some 'u' => (readHex r.eat).map Prod.snd
  | some c =>
    match simpleEscape? c with
    | some _ => .ok r.eat
    | none => failNext .invalidEscape r

def skipStringBody : Nat → Reader → Except Failure Reader
  | 0, r => failHere .eofInString r
  | limit + 1, r =>
    match r.peek? with
    | none => failHere .eofInString r
    | some '"' => .ok r.eat
    | some '\\' => do
      let r ← skipEscape r.eat
      skipStringBody limit r
    | some c => if c.toNat < 0x20 then failHere .controlCharacter r else skipStringBody limit r.eat

def skipString (r : Reader) : Except Failure Reader :=
  skipStringBody (r.rest.length + 1) r

inductive Number where
  | natural (n : Nat)
  | negative (n : Nat)
  | float (positive : Bool) (magnitude : Binary)

def Number.shown : Number → String
  | natural n => s!"integer `{n}`"
  | negative n => s!"integer `-{n}`"
  | float true b => s!"floating point `{b.written}`"
  | float false b => s!"floating point `-{b.written}`"

def maxNatural : Nat := twoTo 64 - 1

def maxExponent : Nat := twoTo 31 - 1

def digitValue (c : Char) : Nat :=
  c.toNat - '0'.toNat

/-- Takes digits into a number as long as it stays within 64 bits: the number, how many digits were
taken, and how many were left. -/
def takeDigits (n taken : Nat) : List Char → Nat × Nat × Nat
  | [] => (n, taken, 0)
  | c :: more =>
    let next := n * 10 + digitValue c
    if next ≤ maxNatural then takeDigits next (taken + 1) more else (n, taken, more.length + 1)

/-- The number `b * 10 ^ exponent` in steps that each round, or `none` if it is too large. Powers of
ten beyond the largest are taken in several steps, of which there are at most `limit`. -/
def scale? : Nat → Binary → Int → Option Binary
  | 0, b, _ => some b
  | limit + 1, b, exponent =>
    if exponent.natAbs ≤ 308 then do
      let power ← Binary.powerOfTen? exponent.natAbs
      if 0 ≤ exponent then b.mul? power else b.div? power
    else if b.mantissa = 0 then some b
    else if 0 ≤ exponent then none
    else do
      let power ← Binary.powerOfTen? 308
      scale? limit (← b.div? power) (exponent + 308)

def floatOf (positive : Bool) (significand : Nat) (exponent : Int) (r : Reader) :
    Except Failure (Number × Reader) :=
  match (Binary.round? significand 1).bind fun b => scale? (exponent.natAbs / 308 + 1) b exponent with
  | some b => .ok (.float positive b, r)
  | none => failHere .numberOutOfRange r

/-- Reads the digits of an exponent into a number, up to the digit that makes it too large: the
exponent, or where that digit ends. -/
def readExponentDigits (exponent : Nat) : List Char → Reader → Except Reader (Nat × Reader)
  | [], r => .ok (exponent, r)
  | c :: more, r =>
    let next := exponent * 10 + digitValue c
    if next ≤ maxExponent then readExponentDigits next more r.eat else .error r.eat

def readExponent (positive : Bool) (significand : Nat) (start : Int) (r : Reader) :
    Except Failure (Number × Reader) :=
  let r := r.eat
  let negative := r.peek? == some '-'
  let r := if negative || r.peek? == some '+' then r.eat else r
  match r.peek? with
  | none => failHere .eofInValue r
  | some c =>
    if !c.isDigit then failNext .invalidNumber r
    else
      match readExponentDigits 0 r.digits r with
      | .ok (exponent, r) =>
        floatOf positive significand (if negative then start - exponent else start + exponent) r
      | .error r =>
        if significand ≠ 0 ∧ !negative then failHere .numberOutOfRange r
        else .ok (.float positive .zero, r.skipDigits)

def finishNumber (positive : Bool) (significand : Nat) (exponent : Int) (r : Reader) :
    Except Failure (Number × Reader) :=
  if r.peek? == some 'e' || r.peek? == some 'E' then readExponent positive significand exponent r
  else floatOf positive significand exponent r

def readFraction (positive : Bool) (significand : Nat) (exponent : Int) (r : Reader) :
    Except Failure (Number × Reader) :=
  let r := r.eat
  let (n, taken, left) := takeDigits significand 0 r.digits
  if taken + left = 0 then
    if r.peek?.isNone then failHere .eofInValue r else failNext .invalidNumber r
  else finishNumber positive n (exponent - taken) r.skipDigits

def wholeNumber (positive : Bool) (n : Nat) (r : Reader) : Except Failure (Number × Reader) :=
  if positive then .ok (.natural n, r)
  else if 1 ≤ n ∧ n ≤ twoTo 63 then .ok (.negative n, r)
  else floatOf false n 0 r

def readNumber (positive : Bool) (r : Reader) : Except Failure (Number × Reader) :=
  match r.peek? with
  | none => failHere .eofInValue r
  | some c =>
    if !c.isDigit then failNext .invalidNumber r
    else
      let after := r.skipDigits
      if c = '0' ∧ r.digits.length > 1 then failNext .invalidNumber r.eat
      else
        let (n, _, left) := takeDigits 0 0 r.digits
        if after.peek? == some '.' then readFraction positive n left after
        else if left = 0 ∧ after.peek? ≠ some 'e' ∧ after.peek? ≠ some 'E' then
          wholeNumber positive n after
        else finishNumber positive n left after

def skipExponent (r : Reader) : Except Failure Reader :=
  let r := r.eat
  let r := if r.peek? == some '-' || r.peek? == some '+' then r.eat else r
  match r.peek? with
  | none => failHere .invalidNumber r
  | some c => if c.isDigit then .ok r.skipDigits else failNext .invalidNumber r

def skipNumberEnd (r : Reader) : Except Failure Reader :=
  if r.peek? == some 'e' || r.peek? == some 'E' then skipExponent r else .ok r

def skipNumber (r : Reader) : Except Failure Reader :=
  match r.peek? with
  | none => failHere .invalidNumber r
  | some c =>
    if !c.isDigit then failNext .invalidNumber r
    else if c = '0' ∧ r.digits.length > 1 then failNext .invalidNumber r.eat
    else
      let r := r.skipDigits
      if r.peek? == some '.' then
        if r.eat.digits.isEmpty then failNext .invalidNumber r.eat
        else skipNumberEnd r.eat.skipDigits
      else skipNumberEnd r

end Conformance.Json
