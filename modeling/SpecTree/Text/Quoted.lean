import SpecTree.Text.PrintTable

/-!
# Quoted text

The form in which an error message shows a text: between double quotes, with escapes for
whatever a reader could not see.
-/

namespace SpecTree.Text

/-- Has the character no glyph of its own? -/
def needsEscape (c : Char) : Bool :=
  let within := fun (interval : Nat × Nat) => interval.1 ≤ c.toNat && c.toNat ≤ interval.2
  unprintableIntervals.any within || extenderIntervals.any within || fillerIntervals.any within

/-- One character between quotes: a short escape, the code point in braces, or itself. -/
def quoteChar (c : Char) : List Char :=
  match c with
  | '\x00' => ['\\', '0']
  | '\t' => ['\\', 't']
  | '\r' => ['\\', 'r']
  | '\n' => ['\\', 'n']
  | '"' => ['\\', '"']
  | '\\' => ['\\', '\\']
  | c => if needsEscape c then "\\u\x7b".toList ++ Nat.toDigits 16 c.toNat ++ ['\x7d'] else [c]

/-- A text between double quotes. -/
def quoted (s : String) : String :=
  String.ofList ('"' :: s.toList.flatMap quoteChar ++ ['"'])

end SpecTree.Text
