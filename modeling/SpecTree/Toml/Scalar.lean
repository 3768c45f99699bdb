import SpecTree.Number.Literal
import SpecTree.Text.Hex
import SpecTree.Toml

/-!
# TOML scalars

Strings, numbers, dates and times at the front of a text. Every reader returns the text behind
what it takes, and nothing if the front is not of its kind.
-/

namespace SpecTree.Toml

/-- May a character stand in a string or a comment as it is? Control characters except the
tab may not. -/
def isPlain (c : Char) : Bool :=
  c = '\t' || (' ' ≤ c && c ≠ '\x7f')

/-! ## Strings -/

/-- The character of a code, if there is one. -/
def charOfCode? (code : Nat) : Option Char :=
  if code < 0xD800 ∨ (0xE000 ≤ code ∧ code < 0x110000) then some (Char.ofNat code) else none

/-- The character of a short escape. -/
def shortEscape? : Char → Option Char
  | 'b' => some '\x08'
  | 't' => some '\t'
  | 'n' => some '\n'
  | 'f' => some '\x0c'
  | 'r' => some '\r'
  | '"' => some '"'
  | '\\' => some '\\'
  | _ => none

/-- Put a character in front of what is taken from the text behind it. -/
def prepend (c : Char) (taken : Option (List Char × List Char)) : Option (List Char × List Char) :=
  taken.map fun (cs, rest) => (c :: cs, rest)

/-- A string on one line, up to its closing double quote. -/
def takeBasic? : List Char → Option (List Char × List Char)
  | [] => none
  | '"' :: rest => some ([], rest)
  | '\\' :: 'u' :: a :: b :: c :: d :: rest => do
    let escaped ← (Text.ofHex? [a, b, c, d]).bind charOfCode?
    prepend escaped (takeBasic? rest)
  | '\\' :: 'U' :: a :: b :: c :: d :: e :: f :: g :: h :: rest => do
    let escaped ← (Text.ofHex? [a, b, c, d, e, f, g, h]).bind charOfCode?
    prepend escaped (takeBasic? rest)
  | '\\' :: e :: rest => do
    let escaped ← shortEscape? e
    prepend escaped (takeBasic? rest)
  | c :: rest => if isPlain c then prepend c (takeBasic? rest) else none

/-- A string on one line without escapes, up to its closing single quote. -/
def takeLiteral? : List Char → Option (List Char × List Char)
  | [] => none
  | '\'' :: rest => some ([], rest)
  | c :: rest => if isPlain c then prepend c (takeLiteral? rest) else none

/-- Is a text blank up to its first line break, and has it one? -/
def endsLine (s : List Char) : Bool :=
  match s.dropWhile fun c => c = ' ' ∨ c = '\t' with
  | '\n' :: _ | '\r' :: '\n' :: _ => true
  | _ => false

/-- A string of several lines, up to its closing three double quotes, before which it may end
with one or two more. A backslash at the end of a line takes away the blanks and line breaks
behind it; `joining` says that it is at work. -/
def takeLongBasic? (joining : Bool) : List Char → Option (List Char × List Char)
  | [] => none
  | '"' :: '"' :: '"' :: '"' :: '"' :: rest => some (['"', '"'], rest)
  | '"' :: '"' :: '"' :: '"' :: rest => some (['"'], rest)
  | '"' :: '"' :: '"' :: rest => some ([], rest)
  | '\r' :: '\n' :: rest =>
    if joining then takeLongBasic? true rest else prepend '\n' (takeLongBasic? false rest)
  | '\\' :: 'u' :: a :: b :: c :: d :: rest => do
    let escaped ← (Text.ofHex? [a, b, c, d]).bind charOfCode?
    prepend escaped (takeLongBasic? false rest)
  | '\\' :: 'U' :: a :: b :: c :: d :: e :: f :: g :: h :: rest => do
    let escaped ← (Text.ofHex? [a, b, c, d, e, f, g, h]).bind charOfCode?
    prepend escaped (takeLongBasic? false rest)
  | '\\' :: e :: rest =>
    if endsLine (e :: rest) then takeLongBasic? true (e :: rest)
    else do
      let escaped ← shortEscape? e
      prepend escaped (takeLongBasic? false rest)
  | c :: rest =>
    if joining ∧ (c = ' ' ∨ c = '\t' ∨ c = '\n') then takeLongBasic? true rest
    else if isPlain c ∨ c = '\n' then prepend c (takeLongBasic? false rest)
    else none

/-- A string of several lines without escapes, up to its closing three single quotes, before
which it may end with one or two more. -/
def takeLongLiteral? : List Char → Option (List Char × List Char)
  | [] => none
  | '\'' :: '\'' :: '\'' :: '\'' :: '\'' :: rest => some (['\'', '\''], rest)
  | '\'' :: '\'' :: '\'' :: '\'' :: rest => some (['\''], rest)
  | '\'' :: '\'' :: '\'' :: rest => some ([], rest)
  | '\r' :: '\n' :: rest => prepend '\n' (takeLongLiteral? rest)
  | c :: rest => if isPlain c ∨ c = '\n' then prepend c (takeLongLiteral? rest) else none

/-- Drop a line break at the front. -/
def dropBreak : List Char → List Char
  | '\n' :: rest => rest
  | '\r' :: '\n' :: rest => rest
  | rest => rest

/-- A string of any kind. -/
def takeString? (s : List Char) : Option (String × List Char) :=
  let taken := match s with
    | '"' :: '"' :: '"' :: rest => takeLongBasic? false (dropBreak rest)
    | '"' :: rest => takeBasic? rest
    | '\'' :: '\'' :: '\'' :: rest => takeLongLiteral? (dropBreak rest)
    | '\'' :: rest => takeLiteral? rest
    | _ => none
  taken.map fun (cs, rest) => (String.ofList cs, rest)

/-! ## Numbers -/

/-- Digits, and those behind single underscores. -/
def takeGroups (isDigit : Char → Bool) : List Char → List Char × List Char
  | '_' :: c :: rest =>
    if isDigit c then
      let (digits, rest) := takeGroups isDigit rest
      (c :: digits, rest)
    else ([], '_' :: c :: rest)
  | c :: rest =>
    if isDigit c then
      let (digits, rest) := takeGroups isDigit rest
      (c :: digits, rest)
    else ([], c :: rest)
  | [] => ([], [])

/-- A row of digits, between which single underscores may stand. -/
def takeDigits? (isDigit : Char → Bool) : List Char → Option (List Char × List Char)
  | c :: rest => if isDigit c then some (takeGroups isDigit (c :: rest)) else none
  | [] => none

/-- A row of decimal digits that does not start with a needless zero. -/
def takeWhole? : List Char → Option (List Char × List Char)
  | '0' :: rest => some (['0'], rest)
  | s => takeDigits? Char.isDigit s

/-- A fraction with its point, which needs a digit behind it; none is an empty row. -/
def takeFraction? : List Char → Option (List Char × List Char)
  | '.' :: rest => takeDigits? Char.isDigit rest
  | rest => some ([], rest)

/-- An exponent; none is zero. -/
def takeExponent? : List Char → Option (Int × List Char)
  | c :: rest =>
    if c = 'e' ∨ c = 'E' then do
      let (negative, rest) := Number.splitSign rest
      let (digits, rest) ← takeDigits? Char.isDigit rest
      let size : Int := Number.ofDigits digits
      return (if negative then -size else size, rest)
    else some (0, c :: rest)
  | [] => some (0, [])

/-- A decimal number. With a fraction or an exponent it is a float, which is no infinity
above all numbers; without it is an integer of 64 bits. -/
def takeDecimal? (s : List Char) : Option (Toml × List Char) := do
  let (negative, body) := Number.splitSign s
  let (whole, behind) ← takeWhole? body
  let (fraction, rest) ← takeFraction? behind
  let (exponent, rest) ← takeExponent? rest
  if rest.length = behind.length then
    let size : Int := Number.ofDigits whole
    let n ← Number.int64? (if negative then -size else size)
    return (integer n, behind)
  let d : Number.Decimal :=
    ⟨negative, Number.ofDigits (whole ++ fraction), exponent - fraction.length⟩
  if d.toFloat == 1 / 0 then none
  return (float d.toFloat, rest)

/-- A whole number in another base, behind its mark. -/
def takeInBase? (base : Nat) (s : List Char) : Option (Toml × List Char) := do
  let (digits, rest) ← takeDigits? (fun c => (Text.hexDigit? c).any (· < base)) s
  let size := digits.foldl (fun n c => base * n + (Text.hexDigit? c).getD 0) 0
  let n ← Number.int64? size
  return (integer n, rest)

/-- A number. -/
def takeNumber? (s : List Char) : Option (Toml × List Char) :=
  match s with
  | '0' :: 'x' :: rest => takeInBase? 16 rest
  | '0' :: 'o' :: rest => takeInBase? 8 rest
  | '0' :: 'b' :: rest => takeInBase? 2 rest
  | s =>
    match Number.splitSign s with
    | (negative, 'i' :: 'n' :: 'f' :: rest) => some (float (if negative then -(1 / 0) else 1 / 0), rest)
    | (_, 'n' :: 'a' :: 'n' :: rest) => some (float (0 / 0), rest)
    | _ => takeDecimal? s

/-! ## Dates and times -/

/-- A number of two digits between two limits. -/
def isPair (low high : Nat) (a b : Char) : Bool :=
  a.isDigit && b.isDigit && low ≤ Number.ofDigits [a, b] && Number.ofDigits [a, b] ≤ high

/-- How many days a month has. -/
def daysIn (year month : Nat) : Nat :=
  if month = 2 then
    if year % 4 = 0 ∧ (year % 100 ≠ 0 ∨ year % 400 = 0) then 29 else 28
  else if month ∈ [4, 6, 9, 11] then 30
  else 31

/-- What follows a date `YYYY-MM-DD`. -/
def afterDate? : List Char → Option (List Char)
  | y₁ :: y₂ :: y₃ :: y₄ :: '-' :: m₁ :: m₂ :: '-' :: d₁ :: d₂ :: rest =>
    let year := [y₁, y₂, y₃, y₄]
    if year.all Char.isDigit && isPair 1 12 m₁ m₂ &&
        isPair 1 (daysIn (Number.ofDigits year) (Number.ofDigits [m₁, m₂])) d₁ d₂ then
      some rest
    else none
  | _ => none

/-- What follows a fraction of a second, or the text itself. -/
def afterSecondFraction : List Char → List Char
  | '.' :: c :: rest => if c.isDigit then rest.dropWhile Char.isDigit else '.' :: c :: rest
  | rest => rest

/-- What follows a time `hh:mm:ss`, with or without a fraction. -/
def afterTime? : List Char → Option (List Char)
  | h₁ :: h₂ :: ':' :: m₁ :: m₂ :: ':' :: s₁ :: s₂ :: rest =>
    if isPair 0 23 h₁ h₂ && isPair 0 59 m₁ m₂ && isPair 0 60 s₁ s₂ then
      some (afterSecondFraction rest)
    else none
  | _ => none

/-- What follows an offset from universal time, or the text itself. -/
def afterOffset : List Char → List Char
  | 'Z' :: rest | 'z' :: rest => rest
  | sign :: h₁ :: h₂ :: ':' :: m₁ :: m₂ :: rest =>
    if (sign = '+' || sign = '-') && isPair 0 23 h₁ h₂ && isPair 0 59 m₁ m₂ then rest
    else sign :: h₁ :: h₂ :: ':' :: m₁ :: m₂ :: rest
  | rest => rest

/-- What follows a date, a time, or a date and a time between which a `T` or a space stands. -/
def afterMoment? (s : List Char) : Option (List Char) :=
  match afterDate? s with
  | none => afterTime? s
  | some (c :: rest) =>
    match if c = 'T' ∨ c = 't' ∨ c = ' ' then afterTime? rest else none with
    | some behind => some (afterOffset behind)
    | none => some (c :: rest)
  | some [] => some []

/-- A date, a time or both. -/
def takeTime? (s : List Char) : Option (Toml × List Char) :=
  (afterMoment? s).map fun rest => (time (String.ofList (s.take (s.length - rest.length))), rest)

end SpecTree.Toml
