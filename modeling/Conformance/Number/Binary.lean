/-!
Binary floating-point numbers of 53 bits that are not negative, and rounding to them.

A number is a whole mantissa times a power of two. The exponent is at least -1074, and the mantissa
has 53 bits unless the exponent is the least one. Rounding goes to the nearest number, and to the even
mantissa when two are equally near.
-/

namespace Conformance

def twoTo (n : Nat) : Nat :=
  Nat.pow 2 n

def tenTo (n : Nat) : Nat :=
  Nat.pow 10 n

structure Binary where
  mantissa : Nat
  exponent : Int
deriving DecidableEq

namespace Binary

def zero : Binary := ⟨0, -1074⟩

def roundQuotient (num den : Nat) : Nat :=
  let down := num / den
  let twice := 2 * (num % den)
  if twice < den then down
  else if den < twice then down + 1
  else down + down % 2

def scaled (num den : Nat) (e : Int) : Nat × Nat :=
  if 0 ≤ e then (num, den * twoTo e.toNat) else (num * twoTo (-e).toNat, den)

def exponentOf (num den : Nat) : Int :=
  let guess : Int := (num.log2 : Int) - den.log2 - 53
  let (n, d) := scaled num den guess
  let fitted := if d * twoTo 53 ≤ n then guess + 1 else guess
  max fitted (-1074)

def round? (num den : Nat) : Option Binary :=
  if num = 0 then some zero
  else
    let e := exponentOf num den
    let (n, d) := scaled num den e
    let m := roundQuotient n d
    let result : Binary := if m = twoTo 53 then ⟨twoTo 52, e + 1⟩ else ⟨m, e⟩
    if result.exponent ≤ 971 then some result else none

def fraction (b : Binary) : Nat × Nat :=
  if 0 ≤ b.exponent then (b.mantissa * twoTo b.exponent.toNat, 1)
  else (b.mantissa, twoTo (-b.exponent).toNat)

def mul? (a b : Binary) : Option Binary :=
  round? (a.fraction.1 * b.fraction.1) (a.fraction.2 * b.fraction.2)

def div? (a b : Binary) : Option Binary :=
  round? (a.fraction.1 * b.fraction.2) (a.fraction.2 * b.fraction.1)

def powerOfTen? (n : Nat) : Option Binary :=
  round? (tenTo n) 1

end Binary

end Conformance
