import SpecTree.Tree.Build

/-!
# Edits of nodes

Setting values, choosing variants, appending entries, and reaching into sub-specs. What is
appended or chosen is built from a catalog.
-/

namespace SpecTree

namespace Choice

/-- Add a chosen variant: merged into the body, if the placement says so and the variant is a
spec, or as a sub-spec of it. -/
def withVariant (c : Choice Node) (type variant : String) (node : Node) : Choice Node :=
  match c.placement, node with
  | .inline, .spec s => { c with body := c.body.merge s }
  | _, node => c.place type variant node

/-- Choose the variant for a type. That can be done once. -/
def setType (catalog : Catalog) (type : String) : Edit (Choice Node) Unit := do
  let (variant, node) ← Edit.inspect fun c =>
    match c.selected with
    | some current => .error (.typeAlreadySet c.field current)
    | none =>
      let valid := catalog.validTypes c.name c.field
      match valid.find? (Naming.hyphenate type) with
      | some variant => (catalog.build variant).map (variant, ·)
      | none => .error (.unknownType c.field type valid.types)
  let c ← get
  if c.placement.hasTypeParameter then inBody (Spec.set c.selector (.string type))
  modify fun c => { c.withVariant type variant node with selected := some type }

/-- Set a parameter; setting the selector chooses a variant. -/
def set (catalog : Catalog) (key : String) (value : Value) : Edit (Choice Node) Unit := do
  if key = (← get).selector then setType catalog value.toText
  else inBody (Spec.set key value)

end Choice

namespace Node

variable {α : Type}

/-- Edit the spec that a node is. -/
def inSpec (act : Edit (Spec Node) α) (s : Spec Node) : EStateM.Result TreeError Node α :=
  match act s with
  | .ok a s => .ok a (spec s)
  | .error e s => .error e (spec s)

/-- Edit the list that a node is. -/
def inList (act : Edit (EntryList Node) α) (l : EntryList Node) :
    EStateM.Result TreeError Node α :=
  match act l with
  | .ok a l => .ok a (list l)
  | .error e l => .error e (list l)

/-- Edit the choice that a node is. -/
def inChoice (act : Edit (Choice Node) α) (c : Choice Node) : EStateM.Result TreeError Node α :=
  match act c with
  | .ok a c => .ok a (choice c)
  | .error e c => .error e (choice c)

/-- Set a key. -/
def set (catalog : Catalog) (key : String) (value : Value) : Edit Node Unit := fun n =>
  match n with
  | spec s => inSpec (Spec.set key value) s
  | list l => inList (Edit.replace fun l => l.set key value) l
  | choice c => inChoice (Choice.set catalog key value) c

/-- Edit the sub-spec under a key. -/
def within (key : String) (act : Edit Node α) : Edit Node α := fun n =>
  match n with
  | spec s => inSpec (Spec.within key act) s
  | list l => inList (EntryList.within key act) l
  | choice c => inChoice (Choice.inBody (Spec.within key act)) c

/-- Edit the node at the end of a path of keys. -/
def withinPath : List String → Edit Node α → Edit Node α
  | [], act => act
  | key :: path, act => within key (withinPath path act)

/-- Append an empty entry to a list. -/
def appendEmpty (catalog : Catalog) (name : String) : Edit Node Unit := fun n =>
  match n with
  | list l => inList (EntryList.append catalog.build name) l
  | n => .error (.notAList n.typeName) n

/-- Append an empty entry to a list of specs and edit it. -/
def append (catalog : Catalog) (name : String) (act : Edit Node α) : Edit Node α := do
  appendEmpty catalog name
  within name act

end Node

end SpecTree
