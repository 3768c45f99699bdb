import SpecTree.Number.Binary64
import SpecTree.Number.Nearest

/-!
# Shortest decimal digits

The fewest decimal digits from which a double reads back. Every double owns an interval of
the real line, the numbers that round to it; on grids of one, two, three digits and so on
the first point inside that interval is the answer, and of two the nearer.
-/

namespace SpecTree.Number

/-- The number `digits * 10 ^ exponent`. -/
structure Scientific where
  digits : Nat
  exponent : Int
deriving DecidableEq

/-- A fraction `num * 2 ^ twos` beside which decimal numbers are placed. -/
structure Dyadic where
  num : Nat
  twos : Int

/-- How a decimal number compares with a dyadic one. -/
def Scientific.compare (s : Scientific) (d : Dyadic) : Ordering :=
  Ord.compare (s.digits * powerOfTen s.exponent.toNat * powerOfTwo (-d.twos).toNat)
    (d.num * powerOfTwo d.twos.toNat * powerOfTen (-s.exponent).toNat)

/-- The interval of numbers that round to a positive double, in quarters of its last place.
Below a power of two the doubles lie twice as close. The ends belong to it if the mantissa
is even. -/
structure RoundingInterval where
  low : Dyadic
  value : Dyadic
  high : Dyadic
  closed : Bool

/-- The rounding interval of a positive double. -/
def Binary.interval (b : Binary) : RoundingInterval :=
  let twos := b.exponent - 2
  let below := if b.mantissa = powerOfTwo 52 ∧ b.exponent ≠ -1074 then 1 else 2
  { low := ⟨4 * b.mantissa - below, twos⟩
    value := ⟨4 * b.mantissa, twos⟩
    high := ⟨4 * b.mantissa + 2, twos⟩
    closed := b.mantissa % 2 = 0 }

/-- Does the decimal number round to the double? -/
def RoundingInterval.contains (r : RoundingInterval) (s : Scientific) : Bool :=
  match s.compare r.low, s.compare r.high with
  | .gt, .lt => true
  | .eq, _ => r.closed
  | _, .eq => r.closed
  | _, _ => false

/-- The least `k` with `b < 10 ^ k`, for a positive number. -/
def Binary.decimalExponent (b : Binary) : Int :=
  let whole := b.numerator / b.denominator
  if whole = 0 then
    let shift := (List.range 400).find? fun t => b.denominator ≤ b.numerator * powerOfTen t
    1 - (shift.getD 400 : Int)
  else (Nat.toDigits 10 whole).length

/-- The point of the grid with the given number of digits that rounds to the double: of the
two neighbours of its value the nearer one, if it does, and of two as near the even one. -/
def Binary.onGrid? (b : Binary) (digits : Nat) : Option Scientific :=
  let unit := b.decimalExponent - digits
  let num := b.numerator * powerOfTen (-unit).toNat
  let den := b.denominator * powerOfTen unit.toNat
  let floor := num / den
  let below : Scientific := ⟨floor, unit⟩
  let above : Scientific := ⟨floor + 1, unit⟩
  let order := if roundDiv num den = floor then [below, above] else [above, below]
  order.find? b.interval.contains

/-- Drop trailing zeros of the digits. -/
def Scientific.strip (s : Scientific) : Nat → Scientific
  | 0 => s
  | fuel + 1 =>
    if s.digits ≠ 0 ∧ s.digits % 10 = 0 then
      Scientific.strip ⟨s.digits / 10, s.exponent + 1⟩ fuel
    else s

/-- The fewest digits that read back as the positive number; seventeen always do. -/
def Binary.shortest (b : Binary) : Scientific :=
  let found := (List.range 17).findSome? fun n => b.onGrid? (n + 1)
  (found.getD ⟨0, 0⟩).strip 20

end SpecTree.Number
