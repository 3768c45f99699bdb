import SpecTree.Number.Power

/-!
# Rounding to the nearest

The whole number and the double that lie nearest to a fraction. A half goes to the even
neighbour.
-/

namespace SpecTree.Number

/-- The whole number nearest to a fraction; of two, the even one. -/
def roundDiv (num den : Nat) : Nat :=
  let floor := num / den
  let rest := num % den
  if 2 * rest < den then floor
  else if den < 2 * rest then floor + 1
  else floor + floor % 2

/-- The exponent of the last place of the doubles around a positive fraction. The mantissas of
doubles have 53 binary digits, and no place is below `2 ^ -1074`. -/
def lastPlace (num den : Nat) : Int :=
  let estimate : Int := Int.ofNat num.log2 - Int.ofNat den.log2
  let tooHigh := num * powerOfTwo (-estimate).toNat < den * powerOfTwo estimate.toNat
  max ((if tooHigh then estimate - 1 else estimate) - 52) (-1074)

/-- The bits of infinity, which also mark where the doubles end. -/
def infinityBits : Nat := 2047 * powerOfTwo 52

/-- The double nearest to a fraction, infinity if there is none. Doubles in ascending order
have ascending bits, so that a mantissa that is rounded up to 54 digits needs no care. -/
def nearest (num den : Nat) : Float :=
  if num = 0 then 0
  else
    let place := lastPlace num den
    let mantissa := roundDiv (num * powerOfTwo (-place).toNat) (den * powerOfTwo place.toNat)
    let bits := (place + 1074).toNat * powerOfTwo 52 + mantissa
    Float.ofBits (UInt64.ofNat (min bits infinityBits))

end SpecTree.Number
