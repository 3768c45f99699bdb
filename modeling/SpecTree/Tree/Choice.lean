import SpecTree.Naming
import SpecTree.Tree.Spec

/-!
# Choices among variants

A spec with a selector, `<field> type`. Writing a type to the selector picks a variant, whose
parameters are then part of the choice; where they are found is laid down by the placement.
-/

namespace SpecTree

/-- A spec that is completed by a variant. -/
structure Choice (ν : Type) where
  name : String
  field : String
  placement : Placement
  /-- The parameters that do not depend on the variant, and those of the chosen one. -/
  body : Spec ν
  selected : Option String

namespace Choice

variable {ν μ α : Type}

/-- The key of the selector of a field. -/
def selectorOf (field : String) : String := field ++ " type"

/-- A choice without a chosen variant. `others` holds the parameters that are registered under
its name; the selector takes the place of one of its name. -/
def ofField (name field : String) (placement : Placement) (others : Option (Spec ν)) :
    Choice ν :=
  let selector := selectorOf field
  let own : Spec ν :=
    if placement.hasTypeParameter then
      (Spec.ofName name).push
        (.collection (Collection.ofList [Parameter.primitive selector (.scalar .string)]))
    else Spec.ofName name
  let body := match others with
    | some others => own.merge (others.removeParameter selector)
    | none => own
  ⟨name, field, placement, body, none⟩

variable (c : Choice ν)

def selector : String := selectorOf c.field

def contains (key : String) : Bool := key = c.selector || c.body.contains key

def isSelector (key : String) : Bool := key = c.selector || c.body.isSelector key

/-- Put the variant of a type where its parameters belong under placements other than
`inline`, as a sub-spec. -/
def place (type variant : String) (node : ν) : Choice ν :=
  let under := fun key => Parameter.derived key variant node
  let alone := fun key => Component.collection (Collection.ofList [under key])
  match c.placement with
  | .standard | .inline =>
    { c with body := c.body.insertFixed (under (type ++ " parameters")) }
  | .sublist => { c with body := c.body.push (alone (c.field ++ ": " ++ type)) }
  | .sublistDash =>
    { c with body := c.body.push (alone (Naming.hyphenate (c.field ++ "-" ++ type))) }

section Queries

variable [Judged ν]

/-- The chosen type for the selector, else the value of a parameter. -/
def get? (key : String) : Option Value :=
  if key = c.selector then c.selected.map .string else c.body.get? key

def isComplete : Bool := c.selected.isSome && c.body.isComplete

/-- Is there a value? A chosen type counts as one if it is no parameter. -/
def hasValue : Bool :=
  (!c.placement.hasTypeParameter && c.selected.isSome) || c.body.hasValue

end Queries

/-- Edit the body. -/
def inBody (act : Edit (Spec ν) α) : Edit (Choice ν) α :=
  Edit.zoom (fun c => .ok c.body) (fun body c => { c with body }) act

/-- The choice with something else in place of sub-specs. -/
def map (f : ν → μ) (c : Choice ν) : Choice μ :=
  ⟨c.name, c.field, c.placement, c.body.map f, c.selected⟩

end Choice

end SpecTree
