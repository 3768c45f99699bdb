import SpecTree.Expansion
import SpecTree.Tree.Component

/-!
# Specs

The components of a spec and its lists of names. A key may be declared in several components;
it is then written in all of them, and only if all of them accept it.
-/

namespace SpecTree

/-- A decision that is still to be made. -/
inductive OpenChoice where
  /-- Between groups of parameters, of which the names are given. -/
  | oneOf (branches : List (List String))
  /-- On the value of a case parameter. -/
  | case (name : String)
  /-- Between the variants of a field. -/
  | type (field : String) (valid : List String)
deriving DecidableEq

/-- A spec with room for values. -/
structure Spec (ν : Type) where
  name : String
  components : List (Component ν)
  evaluators : List String
  keys : List String
  includes : List String
  dependencies : List String
  unknown : UnknownKeys

namespace Spec

variable {ν μ α : Type}

/-- A spec that declares nothing. -/
def ofName (name : String) : Spec ν := ⟨name, [], [], [], [], [], .error⟩

/-- The list that takes any key. -/
def genericList : Spec ν :=
  { (ofName "list" : Spec ν) with
    components := [.collection { Collection.ofList [] with unknown := .accept }]
    unknown := .accept }

variable (s : Spec ν)

/-- Add a component. -/
def push (component : Component ν) : Spec ν :=
  { s with components := s.components ++ [component] }

/-- Add the components of another spec, and the names in its lists that are not there yet. -/
def merge (other : Spec ν) : Spec ν :=
  { s with
    components := s.components ++ other.components
    evaluators := Definition.union s.evaluators other.evaluators
    keys := Definition.union s.keys other.keys
    includes := Definition.union s.includes other.includes
    dependencies := Definition.union s.dependencies other.dependencies }

/-- Take a key out of the plain parameters. Collections left empty are dropped. -/
def removeParameter (key : String) : Spec ν :=
  { s with
    components := s.components.filterMap fun
      | .collection c =>
        let left := c.remove key
        if left.isEmpty then none else some (.collection left)
      | component => some component }

/-- Components with a parameter in the first collection, or in a new one at the end. -/
def insertFirst (p : Parameter ν) : List (Component ν) → List (Component ν)
  | [] => [.collection (Collection.ofList [p])]
  | .collection c :: rest => .collection (c.insert p) :: rest
  | component :: rest => component :: insertFirst p rest

/-- Put a plain parameter into the first collection, or into a new one. -/
def insertFixed (p : Parameter ν) : Spec ν :=
  { s with components := insertFirst p s.components }

def contains (key : String) : Bool := s.components.any (·.contains key)

/-- Is the key that of a case parameter? -/
def isSelector (key : String) : Bool :=
  s.components.any fun
    | .conditional c => c.case.name = key
    | _ => false

/-- Every declared parameter, the first of each name. -/
def parameters : List (Parameter ν) :=
  Parameter.distinct (s.components.flatMap Component.parameters)

/-- The indices of the components that declare a key. -/
def targets (key : String) : List Nat :=
  (List.range s.components.length).filter fun i => s.components[i]?.any (·.contains key)

section Queries

variable [Judged ν]

/-- The parameter that the spec shows under a key. -/
def parameter? (key : String) : Option (Parameter ν) :=
  s.components.findSome? (·.parameter? key)

/-- The value of a parameter, or else its default. -/
def get? (key : String) : Option Value := (s.parameter? key).bind Parameter.get?

def isComplete : Bool := s.components.all Component.isComplete

def hasValue : Bool := s.components.any Component.hasValue

def isOptional : Bool := s.components.all Component.isOptional

def complete : List (Parameter ν) :=
  Parameter.distinct (s.components.flatMap Component.complete)

def valued : List (Parameter ν) :=
  Parameter.distinct (s.components.flatMap Component.valued)

def unfilled : List (Parameter ν) :=
  Parameter.distinct (s.components.flatMap Component.unfilled)

def optional : List (Parameter ν) :=
  Parameter.distinct (s.components.flatMap Component.optional)

/-- The decisions that the components wait for. -/
def openChoices : List OpenChoice :=
  s.components.filterMap fun
    | .oneOf o => if o.isOpen then some (.oneOf o.openNames) else none
    | .conditional c => if c.isOpen then some (.case c.case.name) else none
    | .collection _ => none

/-! ## Edits -/

/-- Fail if a component does not pass the test. -/
def checkTargets (test : Component ν → Except TreeError Unit) (is : List Nat) (s : Spec ν) :
    Except TreeError Unit :=
  is.forM fun i =>
    match s.components[i]? with
    | some component => test component
    | none => .ok ()

/-- Edit a component that declares a key. -/
def inComponent (key : String) (i : Nat) (act : Edit (Component ν) α) : Edit (Spec ν) α :=
  Edit.zoom
    (fun s => match s.components[i]? with
      | some component => .ok component
      | none => .error (.unknownKey key s.name))
    (fun component s => { s with components := s.components.set i component })
    act

/-- Set a key in every component that declares it, if all of them accept the value. What
happens to a key that no component declares is laid down in the spec. -/
def set (key : String) (value : Value) : Edit (Spec ν) Unit := do
  let is := (← get).targets key
  if is = [] then
    Edit.replace fun s =>
      if s.unknown = .error then .error (.unknownKey key s.name)
      else ((Parameter.primitive key value.type).set value).map s.insertFixed
  else
    Edit.inspect (checkTargets (Component.checkSet key value) is)
    for i in is do inComponent key i (Component.set key value)

/-- Edit the sub-spec under a key in the first component that declares it. In the others,
branches that do not declare it are closed. -/
def within (key : String) (act : Edit ν α) : Edit (Spec ν) α := do
  match (← get).targets key with
  | [] => Edit.inspect fun s => .error (.unknownKey key s.name)
  | first :: rest =>
    Edit.inspect (checkTargets (Component.checkAccess key) (first :: rest))
    for i in rest do inComponent key i (Component.select key)
    inComponent key first (Component.within key act)

end Queries

/-- The spec with something else in place of sub-specs. -/
def map (f : ν → μ) (s : Spec ν) : Spec μ :=
  ⟨s.name, s.components.map (Component.map f), s.evaluators, s.keys, s.includes, s.dependencies,
    s.unknown⟩

end Spec

end SpecTree
