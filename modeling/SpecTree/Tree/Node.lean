import SpecTree.Tree.Choice
import SpecTree.Tree.EntryList

/-!
# Nodes

A node is what a name can be built into: a spec, a list, or a choice among variants. Its
sub-specs are nodes again. What is to be known of a whole tree is computed by a fold, in
which every sub-spec has already given way to what is known of it. Main statement:
`fold_spec` and its relatives, which say so without the machinery of the recursion.
-/

namespace SpecTree

/-- A tree of parameters. -/
inductive Node where
  | spec (s : Spec Node)
  | list (l : EntryList Node)
  | choice (c : Choice Node)

namespace Node

section Fold

variable {α : Type} (spec : Spec α → α) (list : EntryList α → α) (choice : Choice α → α)

mutual

/-- Compute something of a tree from what was computed of the sub-specs. -/
def fold : Node → α
  | .spec s => spec (foldSpec s)
  | .list l => list (foldList l)
  | .choice c => choice (foldChoice c)

def foldSpec : Spec Node → Spec α
  | ⟨name, components, evaluators, keys, includes, dependencies, unknown⟩ =>
    ⟨name, foldComponents components, evaluators, keys, includes, dependencies, unknown⟩

def foldList : EntryList Node → EntryList α
  | ⟨element, entries, emptyIsComplete⟩ => ⟨element, foldParameters entries, emptyIsComplete⟩

def foldChoice : Choice Node → Choice α
  | ⟨name, field, placement, body, selected⟩ => ⟨name, field, placement, foldSpec body, selected⟩

def foldComponents : List (Component Node) → List (Component α)
  | [] => []
  | c :: cs => foldComponent c :: foldComponents cs

def foldComponent : Component Node → Component α
  | .collection c => .collection (foldCollection c)
  | .oneOf o => .oneOf (foldOneOf o)
  | .conditional s => .conditional (foldConditional s)

def foldCollection : Collection Node → Collection α
  | ⟨parameters, unknown, emptyIsComplete⟩ =>
    ⟨foldParameters parameters, unknown, emptyIsComplete⟩

def foldOneOf : OneOf Node → OneOf α
  | ⟨branches, active, live⟩ => ⟨foldCollections branches, active, live⟩

def foldConditional : Conditional Node → Conditional α
  | ⟨case, branches⟩ => ⟨foldParameter case, foldGroups branches⟩

def foldCollections : List (Collection Node) → List (Collection α)
  | [] => []
  | c :: cs => foldCollection c :: foldCollections cs

def foldGroups : List (Value × Collection Node) → List (Value × Collection α)
  | [] => []
  | g :: gs => foldGroup g :: foldGroups gs

def foldGroup : Value × Collection Node → Value × Collection α
  | (value, c) => (value, foldCollection c)

def foldParameters : List (Parameter Node) → List (Parameter α)
  | [] => []
  | p :: ps => foldParameter p :: foldParameters ps

def foldParameter : Parameter Node → Parameter α
  | ⟨name, type, default, isOptional, value, node, doc⟩ =>
    ⟨name, type, default, isOptional, value, foldSubSpec node, doc⟩

def foldSubSpec : Option Node → Option α
  | none => none
  | some n => some (fold n)

end

theorem foldSubSpec_eq (n : Option Node) :
    foldSubSpec spec list choice n = n.map (fold spec list choice) := by
  cases n <;> rfl

theorem foldParameter_eq (p : Parameter Node) :
    foldParameter spec list choice p = p.map (fold spec list choice) := by
  cases p
  simp only [foldParameter, Parameter.map, foldSubSpec_eq]

theorem foldParameters_eq (ps : List (Parameter Node)) :
    foldParameters spec list choice ps = ps.map (Parameter.map (fold spec list choice)) := by
  induction ps with
  | nil => rfl
  | cons p ps ih => simp only [foldParameters, List.map_cons, foldParameter_eq, ih]

theorem foldCollection_eq (c : Collection Node) :
    foldCollection spec list choice c = c.map (fold spec list choice) := by
  cases c
  simp only [foldCollection, Collection.map, foldParameters_eq]

theorem foldCollections_eq (cs : List (Collection Node)) :
    foldCollections spec list choice cs = cs.map (Collection.map (fold spec list choice)) := by
  induction cs with
  | nil => rfl
  | cons c cs ih => simp only [foldCollections, List.map_cons, foldCollection_eq, ih]

theorem foldGroups_eq (gs : List (Value × Collection Node)) :
    foldGroups spec list choice gs
      = gs.map fun (value, c) => (value, c.map (fold spec list choice)) := by
  induction gs with
  | nil => rfl
  | cons g gs ih =>
    cases g
    simp only [foldGroups, List.map_cons, foldGroup, foldCollection_eq, ih]

/-- In a component the parameters are folded, whichever kind it is. -/
theorem foldComponent_eq (c : Component Node) :
    foldComponent spec list choice c = c.map (fold spec list choice) := by
  cases c with
  | collection c => simp only [foldComponent, Component.map, foldCollection_eq]
  | oneOf o =>
    cases o
    simp only [foldComponent, Component.map, foldOneOf, OneOf.map, foldCollections_eq]
  | conditional s =>
    cases s
    simp only [foldComponent, Component.map, foldConditional, Conditional.map, foldParameter_eq,
      foldGroups_eq]

theorem foldComponents_eq (cs : List (Component Node)) :
    foldComponents spec list choice cs = cs.map (Component.map (fold spec list choice)) := by
  induction cs with
  | nil => rfl
  | cons c cs ih => simp only [foldComponents, List.map_cons, foldComponent_eq, ih]

/-- A fold of a spec folds its components. -/
theorem foldSpec_eq (s : Spec Node) :
    foldSpec spec list choice s = s.map (fold spec list choice) := by
  cases s
  simp only [foldSpec, Spec.map, foldComponents_eq]

/-- A spec is folded after its sub-specs. -/
theorem fold_spec (s : Spec Node) :
    fold spec list choice (.spec s) = spec (s.map (fold spec list choice)) := by
  simp only [fold, foldSpec_eq]

/-- A list is folded after its entries. -/
theorem fold_list (l : EntryList Node) :
    fold spec list choice (.list l) = list (l.map (fold spec list choice)) := by
  cases l
  simp only [fold, foldList, EntryList.map, foldParameters_eq]

/-- A choice is folded after its sub-specs. -/
theorem fold_choice (c : Choice Node) :
    fold spec list choice (.choice c) = choice (c.map (fold spec list choice)) := by
  cases c
  simp only [fold, foldChoice, Choice.map, foldSpec_eq]

end Fold

end Node

/-- What is known of a sub-spec: whether it holds a value, whether it is complete, and
anything else that was computed of it. -/
structure Judgement (α : Type) where
  hasValue : Bool
  isComplete : Bool
  result : α

instance {α : Type} : Judged (Judgement α) := ⟨Judgement.hasValue, Judgement.isComplete⟩

namespace Node

/-- Compute something of a tree, level by level, with a judgement of every sub-spec at hand. -/
def judge {α : Type} (spec : Spec (Judgement α) → α) (list : EntryList (Judgement α) → α)
    (choice : Choice (Judgement α) → α) : Node → Judgement α :=
  fold
    (fun s => ⟨s.hasValue, s.isComplete, spec s⟩)
    (fun l => ⟨l.hasValue, l.isComplete, list l⟩)
    (fun c => ⟨c.hasValue, c.isComplete, choice c⟩)

/-- Does the tree hold a value, and is it complete? -/
def status : Node → Judgement Unit :=
  judge (fun _ => ()) (fun _ => ()) (fun _ => ())

instance : Judged Node := ⟨fun n => n.status.hasValue, fun n => n.status.isComplete⟩

/-- The name that the node was built from. -/
def typeName : Node → String
  | spec s => s.name
  | list l => l.typeName
  | choice c => c.name

def contains : Node → String → Bool
  | spec s, key => s.contains key
  | list l, key => l.contains key
  | choice c, key => c.contains key

/-- Does the key decide which other keys there are? -/
def isSelector : Node → String → Bool
  | spec s, key => s.isSelector key
  | list _, _ => false
  | choice c, key => c.isSelector key

/-- The parameter that the node shows under a key. -/
def parameter? : Node → String → Option (Parameter Node)
  | spec s, key => s.parameter? key
  | list l, key => l.parameter? key
  | choice c, key => c.body.parameter? key

/-- The value under a key, or else the default. -/
def get? : Node → String → Option Value
  | spec s, key => s.get? key
  | list l, key => l.get? key
  | choice c, key => c.get? key

/-- The sub-spec under a key. -/
def child? (n : Node) (key : String) : Option Node :=
  (n.parameter? key).bind (·.node)

/-- The node at the end of a path of keys. -/
def descend? (n : Node) : List String → Option Node
  | [] => some n
  | key :: path => (n.child? key).bind (descend? · path)

def isComplete : Node → Bool
  | spec s => s.isComplete
  | list l => l.isComplete
  | choice c => c.isComplete

def hasValue : Node → Bool
  | spec s => s.hasValue
  | list l => l.hasValue
  | choice c => c.hasValue

def isOptional : Node → Bool
  | spec s => s.isOptional
  | list l => l.isOptional
  | choice c => c.body.isOptional

/-- Every declared parameter, the first of each name. -/
def parameters : Node → List (Parameter Node)
  | spec s => s.parameters
  | list l => l.entries
  | choice c => c.body.parameters

/-- The visible parameters that need nothing more. -/
def complete : Node → List (Parameter Node)
  | spec s => s.complete
  | list l => l.complete
  | choice c => c.body.complete

/-- The visible parameters that hold a value. -/
def valued : Node → List (Parameter Node)
  | spec s => s.valued
  | list l => l.valued
  | choice c => c.body.valued

/-- The visible parameters that still need something. -/
def unfilled : Node → List (Parameter Node)
  | spec s => s.unfilled
  | list l => l.unfilled
  | choice c => c.body.unfilled

/-- The visible parameters that may be left empty. -/
def optional : Node → List (Parameter Node)
  | spec s => s.optional
  | list l => l.optional
  | choice c => c.body.optional

end Node

end SpecTree
