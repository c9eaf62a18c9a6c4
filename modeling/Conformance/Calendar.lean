import Conformance.Total

namespace Conformance

structure Date where
  year : Int
  month : Nat
  day : Nat
deriving DecidableEq

inductive DateError where
  | outOfRange
  | invalid
  | tooShort
  | tooLong
deriving DecidableEq

def DateError.message : DateError → String
  | outOfRange => "input is out of range"
  | invalid => "input contains invalid characters"
  | tooShort => "premature end of input"
  | tooLong => "trailing input"

namespace Date

def isLeap (year : Int) : Bool :=
  year % 4 == 0 && (year % 100 != 0 || year % 400 == 0)

def monthLength (year : Int) (month : Nat) : Nat :=
  match month with
  | 2 => if isLeap year then 29 else 28
  | 4 | 6 | 9 | 11 => 30
  | _ => 31

def isValid (d : Date) : Bool :=
  1 ≤ d.month && d.month ≤ 12 && 1 ≤ d.day && d.day ≤ monthLength d.year d.month

def daysBeforeMonth (year : Int) (month : Nat) : Nat :=
  total ((List.range' 1 (month - 1)).map (monthLength year))

def daysBeforeYear (year : Int) : Int :=
  let past := year - 1
  365 * past + past / 4 - past / 100 + past / 400

def dayNumber (d : Date) : Int :=
  daysBeforeYear d.year + daysBeforeMonth d.year d.month + d.day

def daysUntil (a b : Date) : Int :=
  b.dayNumber - a.dayNumber

def leadingNumber (most : Nat) (s : List Char) : Except DateError (Nat × List Char) :=
  let digits := (s.take most).takeWhile Char.isDigit
  if digits.isEmpty then .error (if s.isEmpty then .tooShort else .invalid)
  else .ok (digits.foldl (fun n c => 10 * n + (c.toNat - '0'.toNat)) 0, s.drop digits.length)

def afterHyphen : List Char → Except DateError (List Char)
  | '-' :: rest => .ok rest
  | [] => .error .tooShort
  | _ :: _ => .error .invalid

def within (low high n : Nat) : Except DateError Nat :=
  if low ≤ n && n ≤ high then .ok n else .error .outOfRange

/-- The date written as year, month and day with hyphens between them. The parts are checked from
left to right, and whether the month has the day comes last. -/
def parse (s : List Char) : Except DateError Date := do
  let (year, s) ← leadingNumber 4 s
  let s ← afterHyphen s
  let (month, s) ← leadingNumber 2 s
  let month ← within 1 12 month
  let s ← afterHyphen s
  let (day, s) ← leadingNumber 2 s
  let day ← within 1 31 day
  if !s.isEmpty then throw .tooLong
  let date : Date := ⟨year, month, day⟩
  if date.isValid then pure date else throw .outOfRange

end Date

end Conformance
