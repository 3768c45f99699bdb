import SpecTree.TypeRef
import SpecTree.Value

/-!
# Definitions

What the comments of source files say about a spec: its parameters, plain, in alternatives or
under a condition, and four lists of names. References to other specs are by name.
-/

namespace SpecTree

/-- Where something is declared. -/
structure Origin where
  file : String
  line : Nat
deriving DecidableEq

/-- A declared parameter. -/
structure Declaration where
  name : String
  type : TypeRef
  default : Option Value
  isOptional : Bool
  doc : String
  origin : Origin
deriving DecidableEq

/-- A part of a definition. -/
inductive Part where
  | parameters (declarations : List Declaration)
  /-- Groups of parameters that exclude one another. -/
  | oneOf (branches : List (List Declaration))
  /-- A truth value that chooses between two groups. -/
  | conditional (condition : Declaration) (whenTrue whenFalse : List Declaration)
deriving DecidableEq

/-- Every declaration of a part, in order. -/
def Part.declarations : Part → List Declaration
  | parameters ds => ds
  | oneOf branches => branches.flatten
  | conditional condition whenTrue whenFalse => condition :: whenTrue ++ whenFalse

/-- Does the part hold plain parameters, but none? -/
def Part.isEmptyGroup : Part → Bool
  | parameters ds => ds.isEmpty
  | _ => false

/-- The definition of a spec. -/
structure Definition where
  name : String
  parts : List Part
  evaluators : List String
  keys : List String
  includes : List String
  dependencies : List String
  origin : Origin
deriving DecidableEq

namespace Definition

/-- Does the definition say nothing? -/
def isEmpty (d : Definition) : Bool :=
  d.parts.isEmpty && d.evaluators.isEmpty && d.keys.isEmpty && d.includes.isEmpty &&
    d.dependencies.isEmpty

/-- Every declared parameter, in order. -/
def declarations (d : Definition) : List Declaration :=
  d.parts.flatMap Part.declarations

/-- Every spec that the definition names, with the line that names it: the types of
parameters, and then the includes. -/
def references (d : Definition) : List (String × Nat) :=
  d.declarations.filterMap (fun p => p.type.specName?.map (·, p.origin.line)) ++
    d.includes.map (·, d.origin.line)

end Definition

end SpecTree
