import SpecTree.Tree.Conditional
import SpecTree.Tree.OneOf

/-!
# Components

The parts of a spec: plain parameters, alternatives and conditionals.
-/

namespace SpecTree

/-- A part of a spec. -/
inductive Component (ν : Type) where
  | collection (c : Collection ν)
  | oneOf (o : OneOf ν)
  | conditional (s : Conditional ν)

namespace Component

variable {ν μ α : Type}

/-- Is the key declared in the component, open or not? -/
def contains : Component ν → String → Bool
  | collection c, key => c.contains key
  | oneOf o, key => o.contains key
  | conditional s, key => s.contains key

/-- Every declared parameter. -/
def parameters : Component ν → List (Parameter ν)
  | collection c => c.parameters
  | oneOf o => o.parameters
  | conditional s => s.parameters

section Queries

variable [Judged ν]

/-- The parameter that the component shows under a key. -/
def parameter? : Component ν → String → Option (Parameter ν)
  | collection c, key => c.parameter? key
  | oneOf o, key => o.parameter? key
  | conditional s, key => s.parameter? key

/-- Fail if the key could not be set to the value. -/
def checkSet (key : String) (value : Value) : Component ν → Except TreeError Unit
  | collection c => c.checkSet key value
  | oneOf o => (o.plan key (some value)).map fun _ => ()
  | conditional s => (s.plan key (some value)).map fun _ => ()

/-- Fail if the sub-spec under the key is not to be reached. -/
def checkAccess (key : String) : Component ν → Except TreeError Unit
  | collection _ => .ok ()
  | oneOf o => (o.plan key none).map fun _ => ()
  | conditional s => (s.plan key none).map fun _ => ()

def isComplete : Component ν → Bool
  | collection c => c.isComplete
  | oneOf o => o.isComplete
  | conditional s => s.isComplete

def hasValue : Component ν → Bool
  | collection c => c.hasValue
  | oneOf o => o.hasValue
  | conditional s => s.hasValue

def isOptional : Component ν → Bool
  | collection c => c.isOptional
  | oneOf o => o.isOptional
  | conditional s => s.isOptional

def complete : Component ν → List (Parameter ν)
  | collection c => c.complete
  | oneOf o => o.complete
  | conditional s => s.complete

def valued : Component ν → List (Parameter ν)
  | collection c => c.valued
  | oneOf o => o.valued
  | conditional s => s.valued

def unfilled : Component ν → List (Parameter ν)
  | collection c => c.unfilled
  | oneOf o => o.unfilled
  | conditional s => s.unfilled

def optional : Component ν → List (Parameter ν)
  | collection c => c.optional
  | oneOf o => o.optional
  | conditional s => s.optional

/-! ## Edits -/

/-- Edit the collection that a component is. -/
def inCollection (act : Edit (Collection ν) α) (c : Collection ν) :
    EStateM.Result TreeError (Component ν) α :=
  match act c with
  | .ok a c => .ok a (collection c)
  | .error e c => .error e (collection c)

/-- Edit the alternatives that a component is. -/
def inOneOf (act : Edit (OneOf ν) α) (o : OneOf ν) :
    EStateM.Result TreeError (Component ν) α :=
  match act o with
  | .ok a o => .ok a (oneOf o)
  | .error e o => .error e (oneOf o)

/-- Edit the conditional that a component is. -/
def inConditional (act : Edit (Conditional ν) α) (s : Conditional ν) :
    EStateM.Result TreeError (Component ν) α :=
  match act s with
  | .ok a s => .ok a (conditional s)
  | .error e s => .error e (conditional s)

/-- Set a key. -/
def set (key : String) (value : Value) : Edit (Component ν) Unit := fun component =>
  match component with
  | collection c => inCollection (Edit.replace fun c => c.set key value) c
  | oneOf o => inOneOf (OneOf.set key value) o
  | conditional s => inConditional (Edit.replace fun s => s.set key value) s

/-- Edit the sub-spec under a key. -/
def within (key : String) (act : Edit ν α) : Edit (Component ν) α := fun component =>
  match component with
  | collection c => inCollection (Collection.within key act) c
  | oneOf o => inOneOf (OneOf.within key act) o
  | conditional s => inConditional (Conditional.within key act) s

/-- Leave open only the branches that an access to the key would. -/
def select (key : String) : Edit (Component ν) Unit := fun component =>
  match component with
  | oneOf o => inOneOf (OneOf.select key) o
  | component => .ok () component

end Queries

/-- The component with something else in place of sub-specs. -/
def map (f : ν → μ) : Component ν → Component μ
  | collection c => collection (c.map f)
  | oneOf o => oneOf (o.map f)
  | conditional s => conditional (s.map f)

end Component

end SpecTree
