import SpecTree.Number.Binary64
import SpecTree.Number.Nearest

/-!
# Fixed-point text

A double written with a fixed number of decimal places. The places are those of the exact
value; a half goes to the even neighbour.
-/

namespace SpecTree.Number

/-- The digits of `n` with a point before the last `places` of them. -/
def withPoint (places n : Nat) : String :=
  let fraction := Nat.toDigits 10 (n % powerOfTen places)
  toString (n / powerOfTen places) ++ "." ++
    String.ofList (List.replicate (places - fraction.length) '0' ++ fraction)

/-- A double with the given number of decimal places. -/
def fixed (places : Nat) (x : Float) : String :=
  let sign := if isNegative x then "-" else ""
  match binary? x with
  | some b => sign ++ withPoint places (roundDiv (b.numerator * powerOfTen places) b.denominator)
  | none => if x != x then "NaN" else sign ++ "inf"

end SpecTree.Number
