import SpecTree.Definition

/-!
# Indexes of definitions

Definitions in the order in which their names were first given. A later definition of a name
takes the place of the earlier one. Main statement: `remaining_append_lt`, going on to a new
name leaves fewer names to go to, which ends every walk along references.
-/

namespace SpecTree

/-- Definitions of distinct names, in the order of their first appearance. -/
structure Index where
  definitions : List Definition
deriving DecidableEq

namespace Index

def empty : Index := ⟨[]⟩

/-- The names, in order. -/
def names (index : Index) : List String := index.definitions.map (·.name)

/-- The definition of a name. -/
def find? (index : Index) (name : String) : Option Definition :=
  index.definitions.find? (·.name = name)

def contains (index : Index) (name : String) : Bool := (index.find? name).isSome

/-- Put a definition in the place of the one of the same name, or at the end. -/
def insertInto (d : Definition) : List Definition → List Definition
  | [] => [d]
  | e :: rest => if e.name = d.name then d :: rest else e :: insertInto d rest

/-- Add a definition. -/
def insert (index : Index) (d : Definition) : Index := ⟨insertInto d index.definitions⟩

/-- Add definitions, and list the names that had one before. -/
def add (index : Index) : List Definition → Index × List String
  | [] => (index, [])
  | d :: ds =>
    let (after, redefined) := (index.insert d).add ds
    (after, if index.contains d.name then d.name :: redefined else redefined)

theorem name_of_find? {index : Index} {name : String} {d : Definition}
    (h : index.find? name = some d) : d.name = name ∧ name ∈ index.names := by
  have hname : d.name = name := by simpa using List.find?_some h
  exact ⟨hname, List.mem_map.2 ⟨d, List.mem_of_find?_eq_some h, hname⟩⟩

end Index

/-- How many of the names are not on a path. -/
def remaining (names path : List String) : Nat :=
  (names.filter (· ∉ path)).length

/-- A path can go on to a new name only so often. -/
theorem remaining_append_lt {names path : List String} {name : String} (hmem : name ∈ names)
    (hnew : name ∉ path) : remaining names (path ++ [name]) < remaining names path := by
  induction names with
  | nil => simp at hmem
  | cons n names ih =>
    have hle : ∀ names : List String, remaining names (path ++ [name]) ≤ remaining names path := by
      intro names
      induction names with
      | nil => simp [remaining]
      | cons m names ihm => simp only [remaining, List.filter_cons] at *; grind
    have := hle names
    simp only [remaining, List.filter_cons] at *
    grind

end SpecTree
