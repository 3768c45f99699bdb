import SpecTree.Json
import SpecTree.Number.Literal
import SpecTree.Number.Shortest

/-!
# JSON numbers as text

A literal without point and exponent that 64 bits hold is an integer; every other one is a
double. A double is computed in double arithmetic from as many leading digits as fit
64 bits, so that its last place need not be that of the nearest double. A double is written
with the fewest digits that denote it.
-/

namespace SpecTree.JsonNumber

/-- Leading digits of a literal, as far as they fit 64 bits, and how many did not. -/
structure Significand where
  value : Nat
  taken : Nat
  dropped : Nat

/-- Take up digits until one would not fit; from there on all are dropped. -/
def Significand.absorb (s : Significand) : List Char → Significand
  | [] => s
  | c :: rest =>
    let next := 10 * s.value + (c.toNat - '0'.toNat)
    if next < Number.powerOfTwo 64 then Significand.absorb ⟨next, s.taken + 1, s.dropped⟩ rest
    else { s with dropped := s.dropped + rest.length + 1 }

/-- The double nearest to a power of ten. -/
def nearestPower (power : Nat) : Float := Number.nearest (Number.powerOfTen power) 1

/-- Divide by a power of ten, in steps that a double can hold. -/
def divideByPower (x : Float) (power : Nat) : Float :=
  if power ≤ 308 then x / nearestPower power
  else if x == 0 then x
  else divideByPower (x / nearestPower 308) (power - 308)
termination_by power

/-- The double for a significand and a power of ten, unless it is too large. -/
def scale? (significand : Nat) (power : Int) : Option Float :=
  let x := Float.ofNat significand
  if power < 0 then some (divideByPower x power.natAbs)
  else if power ≤ 308 then
    let y := x * nearestPower power.natAbs
    if y == 1 / 0 then none else some y
  else if x == 0 then some x
  else none

/-- The exponent at the front of a text, if there is one, and the text behind it. -/
def takeExponent? : List Char → Option (Option Int × List Char)
  | c :: rest =>
    if c = 'e' ∨ c = 'E' then
      let (negative, digits) := Number.splitSign rest
      let run := digits.takeWhile Char.isDigit
      let size : Int := Number.ofDigits run
      if run = [] then none
      else some (some (if negative then -size else size), digits.dropWhile Char.isDigit)
    else some (none, c :: rest)
  | [] => some (none, [])

/-- The fraction at the front of a text, if there is one, and the text behind it. A point
needs a digit after it. -/
def takeFraction? : List Char → Option (Option (List Char) × List Char)
  | '.' :: rest =>
    let run := rest.takeWhile Char.isDigit
    if run = [] then none else some (some run, rest.dropWhile Char.isDigit)
  | rest => some (none, rest)

/-- A literal that is written as a whole number. The negative zero is a double. -/
def ofWhole? (negative : Bool) (s : Significand) : Option JsonNumber :=
  if s.dropped ≠ 0 then (scale? s.value s.dropped).map fun x => float (if negative then -x else x)
  else if negative then
    if s.value = 0 ∨ Number.powerOfTwo 63 < s.value then some (float (-(Float.ofNat s.value)))
    else some (integer (-(s.value : Int)))
  else some (integer s.value)

/-- The number at the front of a text, and the text behind it. -/
def take? (s : List Char) : Option (JsonNumber × List Char) :=
  let (negative, body) := match s with
    | '-' :: rest => (true, rest)
    | s => (false, s)
  let digits := body.takeWhile Char.isDigit
  if digits = [] ∨ (digits.head? = some '0' ∧ digits ≠ ['0']) then none
  else do
    let (fraction, rest) ← takeFraction? (body.dropWhile Char.isDigit)
    let (exponent, rest) ← takeExponent? rest
    let whole := Significand.absorb ⟨0, 0, 0⟩ digits
    if fraction.isNone && exponent.isNone then
      return (← ofWhole? negative whole, rest)
    let all := Significand.absorb ⟨whole.value, 0, 0⟩ (fraction.getD [])
    let power := (whole.dropped : Int) - all.taken + exponent.getD 0
    let x ← scale? all.value power
    return (float (if negative then -x else x), rest)

/-- The decimal digits of a positive double with its point: between `0.00001` and `10 ^ 16`
written out with at least one place, beyond that with a signed exponent. -/
def positiveText (s : Number.Scientific) : String :=
  let digits := Nat.toDigits 10 s.digits
  let point : Int := digits.length + s.exponent
  if 0 ≤ s.exponent ∧ point ≤ 16 then
    String.ofList (digits ++ List.replicate s.exponent.toNat '0' ++ ['.', '0'])
  else if 0 < point ∧ point ≤ 16 then
    String.ofList (digits.take point.toNat ++ '.' :: digits.drop point.toNat)
  else if -5 < point ∧ point ≤ 0 then
    String.ofList ('0' :: '.' :: List.replicate (-point).toNat '0' ++ digits)
  else
    let fraction := if digits.length = 1 then [] else '.' :: digits.drop 1
    let sign := if 0 < point then "e+" else "e-"
    String.ofList (digits.take 1 ++ fraction) ++ sign ++ toString (point - 1).natAbs

/-- A number as JSON text. -/
def toText : JsonNumber → String
  | integer n => toString n
  | float x =>
    match Number.binary? x with
    | none => "null"
    | some b =>
      (if b.negative then "-" else "") ++
        (if b.mantissa = 0 then "0.0" else positiveText b.shortest)

end SpecTree.JsonNumber
