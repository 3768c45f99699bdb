import SpecTree.Number.Binary64
import SpecTree.Number.Nearest
import SpecTree.Text.Blank

/-!
# Number literals

How integers and doubles are read from text. An integer may be written with an exponent,
`3e4`, or with a fraction, which is cut off.
-/

namespace SpecTree.Number

/-- The number that a row of decimal digits denotes. -/
def ofDigits (digits : List Char) : Nat :=
  digits.foldl (fun n c => 10 * n + (c.toNat - '0'.toNat)) 0

/-- Split off a sign; `true` is minus. -/
def splitSign : List Char → Bool × List Char
  | '-' :: rest => (true, rest)
  | '+' :: rest => (false, rest)
  | rest => (false, rest)

/-- A whole number: an optional sign and digits, and nothing else. -/
def integer? (s : List Char) : Option Int :=
  let (negative, digits) := splitSign s
  if digits ≠ [] ∧ digits.all Char.isDigit then
    some (if negative then -(ofDigits digits : Int) else ofDigits digits)
  else none

/-- A whole number that 64 bits hold. -/
def int64? (n : Int) : Option Int64 :=
  if -(powerOfTwo 63 : Int) ≤ n ∧ n < powerOfTwo 63 then some (Int64.ofInt n) else none

/-- The number `mantissa * 10 ^ exponent`, negated if the sign says so. -/
structure Decimal where
  negative : Bool
  mantissa : Nat
  exponent : Int
deriving DecidableEq

/-- The nearest double. Exponents far outside a double's range need no arithmetic. -/
def Decimal.toFloat (d : Decimal) : Float :=
  let magnitude := (Nat.toDigits 10 d.mantissa).length + d.exponent
  let absolute :=
    if d.mantissa = 0 ∨ magnitude < -330 then 0
    else if 310 < magnitude then 1 / 0
    else nearest (d.mantissa * powerOfTen d.exponent.toNat) (powerOfTen (-d.exponent).toNat)
  if d.negative then -absolute else absolute

/-- The exponent part of a literal, `e` or `E`, a sign and digits; an absent one is zero. -/
def exponent? : List Char → Option Int
  | [] => some 0
  | c :: rest => if c = 'e' ∨ c = 'E' then integer? rest else none

/-- A decimal literal without its sign: digits with at most one point among or around them,
and an exponent. -/
def decimal? (negative : Bool) (s : List Char) : Option Decimal :=
  let whole := s.takeWhile Char.isDigit
  let (fraction, rest) := match s.dropWhile Char.isDigit with
    | '.' :: rest => (rest.takeWhile Char.isDigit, rest.dropWhile Char.isDigit)
    | rest => ([], rest)
  if whole = [] ∧ fraction = [] then none
  else (exponent? rest).map fun e => ⟨negative, ofDigits (whole ++ fraction), e - fraction.length⟩

/-- A double: a decimal literal, an infinity or NaN, with an optional sign. -/
def double? (s : List Char) : Option Float :=
  let (negative, body) := splitSign s
  let word := String.ofList (body.map Char.toLower)
  if word = "inf" ∨ word = "infinity" then some (if negative then -(1 / 0) else 1 / 0)
  else if word = "nan" then some (0 / 0)
  else (decimal? negative body).map Decimal.toFloat

/-- An integer that is a plain literal or the integer part of a double literal. -/
def plainInt? (s : List Char) : Option Int64 :=
  match (integer? s).bind int64? with
  | some n => some n
  | none => (double? s).bind truncate?

/-- An integer: a plain one, or `<mantissa>e<exponent>` with two plain ones. A negative
exponent makes the text a double literal, of which the integer part counts. -/
def int? (s : List Char) : Option Int64 :=
  match Text.splitOnChar 'e' (Text.trim s) with
  | [whole] => plainInt? whole
  | [mantissa, exponent] => do
    let m ← plainInt? (Text.trim mantissa)
    let e ← plainInt? (Text.trim exponent)
    if e < 0 then (double? (Text.trim s)).bind truncate?
    else
      let power ← if e.toInt ≤ 18 then int64? (powerOfTen e.toInt.toNat) else none
      int64? (power.toInt * m.toInt)
  | _ => none

end SpecTree.Number
