import SpecTree.Primitive

/-!
# Declared types

The type of a parameter, or of the elements of a list: a primitive, or a spec by its name.
-/

namespace SpecTree

/-- A primitive type, or the spec of a name. -/
inductive TypeRef where
  | primitive (type : Primitive)
  | spec (name : String)
deriving DecidableEq

namespace TypeRef

/-- The type that a text between brackets names. -/
def ofText (text : String) : TypeRef :=
  match Primitive.ofName? text with
  | some p => primitive p
  | none => spec (Text.trimmed text)

/-- The name of the type. -/
def name : TypeRef → String
  | primitive p => p.name
  | spec n => n

def specName? : TypeRef → Option String
  | primitive _ => none
  | spec n => some n

def primitive? : TypeRef → Option Primitive
  | primitive p => some p
  | spec _ => none

end TypeRef

end SpecTree
