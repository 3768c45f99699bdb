import SpecTree.Text.Blank

/-!
# Primitive types

The types of single values: four scalars and the array of each.
-/

namespace SpecTree

/-- The type of one plain value. -/
inductive Scalar where
  | double | int | string | bool
deriving DecidableEq

/-- The type of a value that a parameter can hold. -/
inductive Primitive where
  | scalar (type : Scalar)
  | array (element : Scalar)
deriving DecidableEq

namespace Scalar

/-- The name used in declarations. -/
def name : Scalar → String
  | double => "double"
  | int => "int"
  | string => "string"
  | bool => "bool"

/-- All scalars. -/
def all : List Scalar := [double, int, string, bool]

end Scalar

namespace Primitive

/-- The name used in declarations: an array names its element in parentheses. -/
def name : Primitive → String
  | scalar s => s.name
  | array s => "Array(" ++ s.name ++ ")"

/-- All primitive types. -/
def all : List Primitive :=
  Scalar.all.map scalar ++ Scalar.all.map array

/-- The type of the given name; white space around the name does not count. -/
def ofName? (text : String) : Option Primitive :=
  all.find? fun p => p.name == Text.trimmed text

def isArray : Primitive → Bool
  | scalar _ => false
  | array _ => true

/-- The type of the items of an array; a scalar is its own element. -/
def element : Primitive → Scalar
  | scalar s => s
  | array s => s

end Primitive

end SpecTree
