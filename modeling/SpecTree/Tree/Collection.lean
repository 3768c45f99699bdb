import SpecTree.Tree.Parameter

/-!
# Collections

Parameters of distinct names, in the order in which they were put in.
-/

namespace SpecTree

/-- What becomes of a value for a key that is not declared. -/
inductive UnknownKeys where
  /-- It is refused. -/
  | error
  /-- A parameter is added for it, with a warning. -/
  | warn
  /-- A parameter is added for it. -/
  | accept
deriving DecidableEq

/-- Parameters of distinct names. -/
structure Collection (ν : Type) where
  parameters : List (Parameter ν)
  unknown : UnknownKeys
  emptyIsComplete : Bool

namespace Collection

variable {ν μ α : Type}

/-- The parameters; of several with one name the last counts. -/
def ofList (ps : List (Parameter ν)) : Collection ν :=
  ⟨Parameter.putAll ps, .error, false⟩

def isEmpty (c : Collection ν) : Bool := c.parameters.isEmpty

/-- The parameter of a name. -/
def parameter? (c : Collection ν) (key : String) : Option (Parameter ν) :=
  Parameter.find? c.parameters key

def contains (c : Collection ν) (key : String) : Bool := (c.parameter? key).isSome

/-- Put a parameter in the place of the one of its name, or at the end. -/
def insert (c : Collection ν) (p : Parameter ν) : Collection ν :=
  { c with parameters := p.put c.parameters }

/-- Take a parameter out. -/
def remove (c : Collection ν) (key : String) : Collection ν :=
  { c with parameters := c.parameters.filter (·.name ≠ key) }

/-- The value of a parameter, or else its default. -/
def get? (c : Collection ν) (key : String) : Option Value :=
  (c.parameter? key).bind Parameter.get?

/-- Fail if the key could not be set to the value. -/
def checkSet (c : Collection ν) (key : String) (value : Value) : Except TreeError Unit :=
  match c.parameter? key with
  | some p => (p.check value).map fun _ => ()
  | none =>
    if c.unknown = .error then .error (.unknownKey key "collection") else .ok ()

/-- Set a parameter. If it is not declared, that fails, or adds one of the value's type. -/
def set (c : Collection ν) (key : String) (value : Value) :
    Except TreeError (Collection ν) :=
  match c.parameter? key with
  | some p => (p.set value).map c.insert
  | none =>
    if c.unknown = .error then .error (.unknownKey key "collection")
    else ((Parameter.primitive key value.type).set value).map c.insert

/-- Edit the sub-spec under a key. -/
def within (key : String) (act : Edit ν α) : Edit (Collection ν) α :=
  Edit.zoom
    (fun c => match c.parameter? key with
      | some p => .ok p
      | none => .error (.unknownKey key "collection"))
    (fun p c => c.insert p)
    (Parameter.within act)

section Queries

variable [Judged ν] (c : Collection ν)

/-- Does no parameter need anything more? -/
def isComplete : Bool :=
  if c.isEmpty then c.emptyIsComplete else c.parameters.all Parameter.isComplete

def hasValue : Bool := c.parameters.any Parameter.hasValue

def isOptional : Bool := c.parameters.all Parameter.isOptional

def complete : List (Parameter ν) := c.parameters.filter Parameter.isComplete

def valued : List (Parameter ν) := c.parameters.filter Parameter.hasValue

def unfilled : List (Parameter ν) := c.parameters.filter (!·.isComplete)

def optional : List (Parameter ν) := c.parameters.filter Parameter.isOptional

end Queries

/-- The collection with something else in place of sub-specs. -/
def map (f : ν → μ) (c : Collection ν) : Collection μ :=
  ⟨c.parameters.map (Parameter.map f), c.unknown, c.emptyIsComplete⟩

end Collection

end SpecTree
