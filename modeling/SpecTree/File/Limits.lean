import SpecTree.File.Error

/-!
# Limits on paths

What a system refuses to look up, whatever there is on its disk.
-/

namespace SpecTree.Path

/-- The most bytes that a path may have. -/
def maxBytes : Nat := 4095

/-- The most bytes that a name between slashes may have. -/
def maxNameBytes : Nat := 255

/-- Has a path more bytes than it may have? -/
def isTooLong (path : String) : Bool := maxBytes < path.utf8ByteSize

/-- Why a path is refused at once: for a null character, which ends a path for the system, for
its length, or because there is nothing of it. -/
def refusal? (path : String) : Option FileError :=
  if path.toList.contains '\x00' then some .nullCharacter
  else if isTooLong path then some .nameTooLong
  else if path = "" then some .notFound
  else none

end SpecTree.Path
