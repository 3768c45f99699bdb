import SpecTree.Tree.Edit
import SpecTree.TypeRef
import SpecTree.Value.Coerce

/-!
# Parameters

A named slot of a tree, for a value or for a sub-spec. Nothing here looks into a sub-spec
further than to ask whether it holds a value and whether it is complete, and so the type of
sub-specs is left open.
-/

namespace SpecTree

/-- What a tree wants to know of a sub-spec. -/
class Judged (ν : Type) where
  hasValue : ν → Bool
  isComplete : ν → Bool

/-- A named slot. The default does not count as a value, but makes the slot optional. -/
structure Parameter (ν : Type) where
  name : String
  type : TypeRef
  default : Option Value
  isOptional : Bool
  value : Option Value
  node : Option ν
  doc : String

namespace Parameter

variable {ν μ α : Type}

/-- An empty slot. -/
def ofType (name : String) (type : TypeRef) : Parameter ν :=
  { name, type, default := none, isOptional := false, value := none, node := none, doc := "" }

/-- An empty slot for a value. -/
def primitive (name : String) (type : Primitive) : Parameter ν := ofType name (.primitive type)

/-- A slot for a sub-spec, and the sub-spec in it. -/
def derived (name spec : String) (node : ν) : Parameter ν :=
  { (ofType name (.spec spec) : Parameter ν) with node := some node }

def isPrimitive (p : Parameter ν) : Bool := p.type.primitive?.isSome

/-- The value as one of the declared type. -/
def check (p : Parameter ν) (value : Value) : Except TreeError Value :=
  match p.type with
  | .primitive t =>
    match value.coerce t with
    | .ok v => .ok v
    | .error e => .error (.badValue p.name e)
  | .spec _ => .error (.notPrimitive p.name)

/-- The slot with a default, which makes it optional. -/
def withDefault (p : Parameter ν) (value : Value) : Except TreeError (Parameter ν) := do
  let v ← p.check value
  return { p with default := some v, isOptional := true }

/-- The slot with a value of its type. -/
def set (p : Parameter ν) (value : Value) : Except TreeError (Parameter ν) := do
  let v ← p.check value
  return { p with value := some v }

/-- The slot with a sub-spec in it; a slot for a value takes none. -/
def attach (p : Parameter ν) (node : ν) : Except TreeError (Parameter ν) :=
  if p.isPrimitive then .error (.notDerived p.name) else .ok { p with node := some node }

/-- The value, or else the default. -/
def get? (p : Parameter ν) : Option Value := p.value <|> p.default

/-- The sub-spec, if there is one to be written to. -/
def subSpec (p : Parameter ν) : Except TreeError ν :=
  match p.type with
  | .primitive _ => .error (.notDerived p.name)
  | .spec s =>
    match p.node with
    | some n => .ok n
    | none => .error (.unknownKey p.name s)

/-- Edit the sub-spec. -/
def within (act : Edit ν α) : Edit (Parameter ν) α :=
  Edit.zoom subSpec (fun n p => { p with node := some n }) act

/-- Does the slot hold a value, or the sub-spec in it one? -/
def hasValue [Judged ν] (p : Parameter ν) : Bool :=
  match p.type with
  | .primitive _ => p.value.isSome
  | .spec _ => p.node.any Judged.hasValue

/-- Does the slot need nothing more? -/
def isComplete [Judged ν] (p : Parameter ν) : Bool :=
  p.isOptional ||
    match p.type with
    | .primitive _ => p.value.isSome
    | .spec _ => p.node.any Judged.isComplete

/-- The slot with something else in place of the sub-spec. -/
def map (f : ν → μ) (p : Parameter ν) : Parameter μ :=
  { name := p.name, type := p.type, default := p.default, isOptional := p.isOptional,
    value := p.value, node := p.node.map f, doc := p.doc }

/-! ## Lists of parameters -/

/-- The parameter of a name. -/
def find? (ps : List (Parameter ν)) (key : String) : Option (Parameter ν) :=
  ps.find? (·.name = key)

/-- Put a parameter in the place of the one of its name, or at the end. -/
def put (p : Parameter ν) : List (Parameter ν) → List (Parameter ν)
  | [] => [p]
  | q :: rest => if q.name = p.name then p :: rest else q :: put p rest

/-- Parameters put one after the other into an empty list. -/
def putAll (ps : List (Parameter ν)) : List (Parameter ν) :=
  ps.foldl (fun kept p => put p kept) []

/-- The first parameter of each name. -/
def distinct (ps : List (Parameter ν)) : List (Parameter ν) :=
  ps.foldl (fun kept p => if kept.any (·.name = p.name) then kept else kept ++ [p]) []

end Parameter

end SpecTree
