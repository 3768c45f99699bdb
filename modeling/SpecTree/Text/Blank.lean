/-!
# Blank space and lines

What counts as white space, trimming, and the cutting of a text into lines.
-/

namespace SpecTree.Text

/-- White space as Unicode defines it, line breaks and no-break spaces included. -/
def isBlank (c : Char) : Bool :=
  let n := c.toNat
  (0x9 ≤ n && n ≤ 0xD) || n == 0x20 || n == 0x85 || n == 0xA0 || n == 0x1680 ||
    (0x2000 ≤ n && n ≤ 0x200A) || n == 0x2028 || n == 0x2029 || n == 0x202F || n == 0x205F ||
    n == 0x3000

/-- Drop leading white space. -/
def trimStart (s : List Char) : List Char :=
  s.dropWhile isBlank

/-- Drop trailing white space. -/
def trimEnd (s : List Char) : List Char :=
  (s.reverse.dropWhile isBlank).reverse

/-- Drop white space at both ends. -/
def trim (s : List Char) : List Char :=
  trimEnd (trimStart s)

/-- A string without the white space at its ends. -/
def trimmed (s : String) : String :=
  String.ofList (trim s.toList)

/-- The parts of a text between the occurrences of a character; one more than there are
occurrences. -/
def splitOnChar (sep : Char) : List Char → List (List Char)
  | [] => [[]]
  | c :: cs =>
    if c = sep then [] :: splitOnChar sep cs
    else match splitOnChar sep cs with
      | [] => [[c]]
      | part :: parts => (c :: part) :: parts

/-- Drop one carriage return at the end. -/
def dropReturn (line : List Char) : List Char :=
  if line.getLast? = some '\r' then line.dropLast else line

/-- The lines of a text. A line ends with a line feed, or a carriage return and a line feed;
a text that ends inside a line keeps that last part as it is. -/
def lines (s : List Char) : List (List Char) :=
  let parts := splitOnChar '\n' s
  parts.dropLast.map dropReturn ++ (parts.getLast?.filter (· ≠ [])).toList

end SpecTree.Text
