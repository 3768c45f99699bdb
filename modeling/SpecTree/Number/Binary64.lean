import SpecTree.Number.Power

/-!
# Doubles as exact numbers

A finite double is a whole number times a power of two. What the library computes about a
double, its integer part and its decimal digits, it computes from those two numbers.
-/

namespace SpecTree.Number

/-- The number `mantissa * 2 ^ exponent`, negated if the sign says so. -/
structure Binary where
  negative : Bool
  mantissa : Nat
  exponent : Int
deriving DecidableEq

/-- The exact value of a double; infinities and NaN have none. -/
def binary? (x : Float) : Option Binary :=
  let bits := x.toBits.toNat
  let negative := bits / powerOfTwo 63 == 1
  let exponent : Nat := bits / powerOfTwo 52 % powerOfTwo 11
  let fraction : Nat := bits % powerOfTwo 52
  if exponent = 2047 then none
  else if exponent = 0 then some ⟨negative, fraction, -1074⟩
  else some ⟨negative, powerOfTwo 52 + fraction, (exponent : Int) - 1075⟩

/-- Is the sign bit set? -/
def isNegative (x : Float) : Bool :=
  x.toBits.toNat / powerOfTwo 63 == 1

namespace Binary

/-- The numerator of the absolute value, as a fraction of whole numbers. -/
def numerator (b : Binary) : Nat := b.mantissa * powerOfTwo b.exponent.toNat

/-- The denominator of the absolute value, as a fraction of whole numbers. -/
def denominator (b : Binary) : Nat := powerOfTwo (-b.exponent).toNat

/-- The integer part, rounded toward zero. -/
def truncate (b : Binary) : Int :=
  let whole : Int := (b.numerator / b.denominator : Nat)
  if b.negative then -whole else whole

end Binary

/-- The integer part of a double, if its absolute value is less than `2 ^ 63`. -/
def truncate? (x : Float) : Option Int64 :=
  (binary? x).bind fun b =>
    if b.truncate.natAbs < powerOfTwo 63 then some (Int64.ofInt b.truncate) else none

end SpecTree.Number
