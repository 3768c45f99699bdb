import SpecTree.Tree.Build

/-!
# Open choices

The decisions that a tree still waits for, each with the path of keys to the node where it
is to be made.
-/

namespace SpecTree

/-- A decision, and the path to the node that it is open at. -/
structure OpenAlternation where
  path : List String
  choice : OpenChoice
deriving DecidableEq

namespace OpenAlternation

/-- Decisions open at the node itself. -/
def here (choices : List OpenChoice) : List OpenAlternation := choices.map (⟨[], ·⟩)

/-- A decision seen from the node above. -/
def below (key : String) (a : OpenAlternation) : OpenAlternation := ⟨key :: a.path, a.choice⟩

/-- The decisions in the sub-specs of parameters, the first of each name. -/
def inside (ps : List (Parameter (Judgement (List OpenAlternation)))) : List OpenAlternation :=
  (Parameter.distinct ps).flatMap fun p =>
    match p.node with
    | some child => child.result.map (below p.name)
    | none => []

end OpenAlternation

open OpenAlternation in
/-- Every decision that is open in the node or in a sub-spec of it. -/
def Node.openAlternations (catalog : Catalog) (n : Node) : List OpenAlternation :=
  (n.judge
    (fun s => here s.openChoices ++ inside (s.complete ++ s.unfilled))
    (fun l => inside (l.complete ++ l.unfilled))
    (fun c =>
      let type :=
        if c.selected.isSome then []
        else [.type c.field (catalog.validTypes c.name c.field).types]
      here (type ++ c.body.openChoices) ++ inside (c.body.complete ++ c.body.unfilled))).result

end SpecTree
