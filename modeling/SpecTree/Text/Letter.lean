import SpecTree.Text.CaseTable

/-!
# Letters

Upper and lower case by the Unicode properties, and the lower-case mapping of one character
at a time.
-/

namespace SpecTree.Text

/-- Has the character the property `Uppercase`? -/
def isUppercase (c : Char) : Bool :=
  uppercaseRuns.any (·.contains c.toNat)

/-- Has the character the property `Lowercase`? -/
def isLowercase (c : Char) : Bool :=
  lowercaseRuns.any (·.contains c.toNat)

/-- The lower case of a character. Only the capital I with a dot needs two characters: a
small i and a combining dot. -/
def lowerCase (c : Char) : List Char :=
  if c = 'İ' then ['i', '\u0307']
  else match lowerCaseShifts.find? (·.1.contains c.toNat) with
    | some (_, shift) => [Char.ofNat (c.toNat + shift).toNat]
    | none => [c]

end SpecTree.Text
