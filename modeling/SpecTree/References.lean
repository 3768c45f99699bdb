import SpecTree.Index
import SpecTree.LoadError
import SpecTree.Naming
import SpecTree.Options

/-!
# References between definitions

Every name that a definition refers to should be that of a spec that can be built. A
parameter of a spec's type and an include are part of the spec that has them, so definitions
must not refer to one another in a circle; a list is filled later, and may.
-/

namespace SpecTree

namespace Index

/-- The references to names that no spec can be built for. -/
def danglingReferences (index : Index) : List LoadError :=
  index.definitions.flatMap fun d =>
    d.references.filterMap fun (name, line) =>
      if Naming.resolvable index.contains name then none
      else some ⟨some d.name, d.origin.file, line, .unknownReference name⟩

/-- Is a spec of this name part of the one that refers to it? -/
def isEager (index : Index) (name : String) : Bool :=
  match SpecForm.ofName name with
  | .plain | .typed .. => index.contains name
  | .generic | .list _ => false

/-- The registered specs that are part of a spec, with the lines that refer to them. -/
def eagerEdges (index : Index) (name : String) : List (String × Nat) :=
  match index.find? name with
  | some d => d.references.filter (index.isEager ·.1)
  | none => []

/-- A walk along references: the names that are done with, and the circles found. -/
structure CycleSearch where
  visited : List String
  cycles : List LoadError

/-- The circle that a reference from the end of a path to a name on it closes. -/
def closingError (index : Index) (path : List String) (name : String) : LoadError :=
  let last := path.getLast?.getD ""
  let names := path.dropWhile (· ≠ name) ++ [name]
  match index.find? last with
  | some d =>
    let line := ((index.eagerEdges last).find? (·.1 = name)).map (·.2)
    ⟨some last, d.origin.file, line.getD d.origin.line, .cycle names⟩
  | none => ⟨some last, "", 0, .cycle names⟩

/-- Walk on from the end of a path to a name. -/
def visit (index : Index) (path : List String) (search : CycleSearch) (name : String) :
    CycleSearch :=
  if name ∈ search.visited then search
  else if _hpath : name ∈ path then
    { search with cycles := search.cycles ++ [index.closingError path name] }
  else if _hname : name ∈ index.names then
    let after := (index.eagerEdges name).foldl
      (fun search edge => visit index (path ++ [name]) search edge.1) search
    { after with visited := name :: after.visited }
  else { search with visited := name :: search.visited }
termination_by remaining index.names path
decreasing_by exact remaining_append_lt _hname _hpath

/-- The circles that a walk from every name in turn finds. -/
def cycles (index : Index) : List LoadError :=
  (index.names.foldl (index.visit []) ⟨[], []⟩).cycles

/-- Every problem with references. -/
def referenceProblems (index : Index) : List LoadError :=
  index.danglingReferences ++ index.cycles

/-- The problems with references, of which the first may end the load. -/
def checkReferences (index : Index) (onError : Policy) : Except LoadError (List LoadError) :=
  match onError, index.referenceProblems with
  | .raise, problem :: _ => .error problem
  | _, problems => .ok problems

end Index

end SpecTree
