/-!
# TOML values

What stands behind a key of a TOML document.
-/

namespace SpecTree

/-- A TOML value. -/
inductive Toml where
  | string (s : String)
  | integer (n : Int64)
  | float (x : Float)
  | bool (b : Bool)
  /-- A date, a time or both, as written. -/
  | time (text : String)
  | array (items : List Toml)
  | table (members : List (String × Toml))
deriving Inhabited

namespace Toml

/-- The value under a key of a table. -/
def find? (key : String) (members : List (String × Toml)) : Option Toml :=
  (members.find? (·.1 == key)).map (·.2)

def asString? : Toml → Option String
  | string s => some s
  | _ => none

/-- An array of strings. -/
def asStrings? : Toml → Option (List String)
  | array items => items.mapM asString?
  | _ => none

end Toml

end SpecTree
