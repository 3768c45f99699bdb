import SpecTree.Catalog
import SpecTree.Tree.Node

/-!
# Building trees

The fresh tree of a name. The sub-specs of a definition's parameters are built with it, and
so a definition must not contain itself; the entries of lists are built when they are
appended.
-/

namespace SpecTree

namespace Declaration

/-- The empty parameter of a declaration. `make` builds sub-specs. -/
def build {ν : Type} (make : String → Except TreeError ν) (d : Declaration) :
    Except TreeError (Parameter ν) := do
  let p ← match d.type with
    | .primitive t =>
      match d.default with
      | some value => (Parameter.primitive d.name t).withDefault value
      | none => .ok (Parameter.primitive d.name t)
    | .spec s => (make s).map (Parameter.derived d.name s)
  return { p with isOptional := p.isOptional || d.isOptional, doc := d.doc }

/-- The collection of declared parameters. -/
def buildAll {ν : Type} (make : String → Except TreeError ν) (ds : List Declaration) :
    Except TreeError (Collection ν) := do
  return Collection.ofList (← ds.mapM (build make))

end Declaration

namespace Part

/-- The component that a part of a definition describes. -/
def build {ν : Type} (make : String → Except TreeError ν) : Part → Except TreeError (Component ν)
  | parameters ds => return .collection (← Declaration.buildAll make ds)
  | oneOf branches => do
    let built ← branches.mapM (Declaration.buildAll make)
    return .oneOf (← OneOf.ofBranches built)
  | conditional condition whenTrue whenFalse => do
    let case ← condition.build make
    let yes ← Declaration.buildAll make whenTrue
    let no ← Declaration.buildAll make whenFalse
    return .conditional (← Conditional.ifThenElse case yes no)

end Part

namespace Definition

/-- The spec that a definition describes. -/
def build {ν : Type} (make : String → Except TreeError ν) (d : Definition) :
    Except TreeError (Spec ν) := do
  let components ← d.parts.mapM (Part.build make)
  return { name := d.name, components, evaluators := d.evaluators, keys := d.keys,
           includes := d.includes, dependencies := d.dependencies, unknown := .error }

end Definition

namespace Catalog

/-- The fresh tree of a name. `path` holds the definitions that it is to be a part of. -/
def buildBelow (catalog : Catalog) (path : List String) (name : String) :
    Except TreeError Node :=
  match SpecForm.ofName name with
  | .generic => .ok (.spec .genericList)
  | .list element =>
    match Primitive.ofName? element with
    | some p => .ok (.list (.ofElement (.primitive p)))
    | none =>
      if catalog.resolvable element then .ok (.list (.ofElement (.spec element)))
      else .error (.unknownSpec element)
  | form =>
    match _h : catalog.index.find? name with
    | some d =>
      if _hpath : name ∈ path then .error (.cycle (path.dropWhile (· ≠ name) ++ [name]))
      else do
        let s ← d.build (buildBelow catalog (path ++ [name]))
        match form with
        | .typed field placement => return .choice (.ofField name field placement (some s))
        | _ => return .spec s
    | none =>
      match form with
      | .typed field placement => .ok (.choice (.ofField name field placement none))
      | _ => .error (.unknownSpec name)
termination_by remaining catalog.index.names path
decreasing_by exact remaining_append_lt (Index.name_of_find? _h).2 _hpath

/-- The fresh tree of a name. -/
def build (catalog : Catalog) (name : String) : Except TreeError Node :=
  catalog.buildBelow [] name

end Catalog

end SpecTree
