import Conformance.Number.Binary

/-!
The shortest decimal that reads back as a binary number, and how it is written.

Among the decimals with the fewest digits that round to the number, the nearest to it is taken. It is
written with a point from 0.00001 up to sixteen digits before the point, and with an exponent and its
sign outside that range.
-/

namespace Conformance.Binary

structure Decimal where
  digits : Nat
  exponent : Int
deriving DecidableEq

def dyadic (a : Nat) (e : Int) : Nat × Nat :=
  fraction ⟨a, e⟩

def isBelow (equalToo : Bool) (a b : Nat × Nat) : Bool :=
  a.1 * b.2 < b.1 * a.2 || (equalToo && a.1 * b.2 == b.1 * a.2)

def Decimal.fraction (d : Decimal) : Nat × Nat :=
  if 0 ≤ d.exponent then (d.digits * tenTo d.exponent.toNat, 1)
  else (d.digits, tenTo (-d.exponent).toNat)

/-- Whether the decimal rounds to the number: it lies between the middles to the neighbours, which
count if the mantissa is even. -/
def readsBack (b : Binary) (d : Decimal) : Bool :=
  let unit := b.exponent - 2
  let low := if b.mantissa = twoTo 52 && b.exponent > -1074 then 4 * b.mantissa - 1
    else 4 * b.mantissa - 2
  let even := b.mantissa % 2 == 0
  isBelow even (dyadic low unit) d.fraction && isBelow even d.fraction (dyadic (4 * b.mantissa + 2) unit)

def leadingExponent (num den : Nat) : Int :=
  if den ≤ num then ((Nat.toDigits 10 (num / den)).length : Int) - 1
  else
    let shift := ((List.range 400).find? fun j => den ≤ num * tenTo j).getD 0
    Int.negOfNat shift

/-- The nearer of the two neighbours of the number among the decimals with this exponent, if one of
them reads back. -/
def onGrid? (b : Binary) (exponent : Int) : Option Decimal :=
  let (num, den) := b.fraction
  let (n, d) := if 0 ≤ exponent then (num, den * tenTo exponent.toNat)
    else (num * tenTo (-exponent).toNat, den)
  let below : Decimal := ⟨n / d, exponent⟩
  let above : Decimal := ⟨n / d + 1, exponent⟩
  match readsBack b below, readsBack b above with
  | true, true => some (if 2 * (n % d) ≤ d then below else above)
  | true, false => some below
  | false, true => some above
  | false, false => none

def shortest (b : Binary) : Decimal :=
  let (num, den) := b.fraction
  let lead := leadingExponent num den
  let grids := (List.range 17).map fun (k : Nat) => lead - k
  (grids.findSome? (onGrid? b)).getD ⟨0, 0⟩

def signed (exponent : Int) : List Char :=
  (if exponent < 0 then '-' else '+') :: Nat.toDigits 10 exponent.natAbs

def layout (digits : List Char) (exponent : Int) : List Char :=
  let point : Int := digits.length + exponent
  if 0 ≤ exponent && point ≤ 16 then
    digits ++ List.replicate exponent.toNat '0' ++ ['.', '0']
  else if 0 < point && point ≤ 16 then
    digits.take point.toNat ++ '.' :: digits.drop point.toNat
  else if -5 < point && point ≤ 0 then
    "0.".toList ++ List.replicate (-point).toNat '0' ++ digits
  else
    let power := signed (point - 1)
    match digits with
    | [] => []
    | [d] => d :: 'e' :: power
    | d :: more => d :: '.' :: more ++ 'e' :: power

def Decimal.trimmed (d : Decimal) : List Char × Int :=
  let digits := Nat.toDigits 10 d.digits
  let kept := (digits.reverse.dropWhile (· == '0')).reverse
  (kept, d.exponent + (digits.length - kept.length : Nat))

def written (b : Binary) : String :=
  if b.mantissa = 0 then "0.0"
  else
    let (digits, exponent) := b.shortest.trimmed
    String.ofList (layout digits exponent)

end Conformance.Binary
