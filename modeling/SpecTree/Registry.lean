import SpecTree.Loading
import SpecTree.References
import SpecTree.Tree.Build

/-!
# Registries

Definitions are staged as they are loaded. When a load is finished they are added to the
index, their references are checked, and the catalog is made that trees are built from.
-/

namespace SpecTree

/-- Loaded definitions, and the catalog of those that are finished. -/
structure Registry where
  options : LoadOptions
  index : Index
  pending : List Definition
  catalog : Catalog
  problems : List LoadError
deriving DecidableEq

namespace Registry

/-- A registry without definitions. -/
def ofOptions (options : LoadOptions) : Registry :=
  ⟨options, .empty, [], .empty, []⟩

variable (r : Registry)

/-- Stage definitions. -/
def stage (definitions : List Definition) : Registry :=
  { r with pending := r.pending ++ definitions }

/-- Stage the definitions in comment lines. A file's name gives a name to those without one. -/
def loadLines (file : String) (lines : List String) : Except LoadError (Registry × Nat) := do
  let definitions ← Definition.readLines file (r.options.stem file) (CommentLine.numbered lines)
  return (r.stage definitions, definitions.length)

/-- Stage the definitions in a source text. -/
def loadSource (file text : String) : Except LoadError (Registry × Nat) := do
  let definitions ← Definition.readSource file (r.options.stem file) text
  return (r.stage definitions, definitions.length)

/-- Stage the definitions in the files at or below a path. -/
def loadFrom (sources : Sources) (root : String) : Except LoadError (Registry × LoadReport) := do
  let (definitions, report) ← sources.load r.options root
  return (r.stage definitions, report)

/-- Add the staged definitions to the index and make the catalog. If a problem with
references ends the load, the definitions stay in the index, and the catalog as it was. -/
def finish : Registry × Except LoadError (List LoadError) :=
  let index := (r.index.add r.pending).1
  let r := { r with index, pending := [] }
  match index.checkReferences r.options.onError with
  | .ok problems => ({ r with problems, catalog := index.catalog }, .ok problems)
  | .error e => (r, .error e)

/-- Is nothing staged? -/
def isFinished : Bool := r.pending.isEmpty

/-- The fresh tree of a name. -/
def get (name : String) : Except TreeError Node :=
  if r.isFinished then r.catalog.build name else .error .notFinished

/-- Forget everything but the options. -/
def clear : Registry := ofOptions r.options

/-- Load the files at or below several paths, and finish. -/
def load (sources : Sources) (options : LoadOptions) (roots : List String) :
    Except LoadError (Registry × LoadReport) := do
  let (r, report) ← roots.foldlM (fun (r, report) root => do
    let (r, further) ← loadFrom r sources root
    return (r, report.append further)) (ofOptions options, LoadReport.nothing)
  let (r, result) := r.finish
  let unresolved ← result
  return (r, { report with unresolved })

end Registry

end SpecTree
