import SpecTree.Registry
import SpecTree.Tree.Fill

/-!
# Operations

What can be done to a tree: keys are set, entries appended, documents filled in, and sub-specs
reached into, where again anything may be done. `Registry.Reachable` are the trees that a registry
gives out, after any operations, whether these succeed or fail.

For every operation `Operation.settings` lists the keys that are set in the course of it.
-/

namespace SpecTree

/-- The part after a fill, whether it failed or not. -/
def Fill.stateAfter {σ α : Type} (act : Fill σ α) (s : σ) : σ :=
  match act s with
  | .ok _ s' => s'
  | .error _ s' => s'

/-- What can be done to a node. -/
inductive Operation where
  /-- Set a key. -/
  | set (key : String) (value : Value)
  /-- Append an empty entry to a list. -/
  | append (name : String)
  /-- Fill in a document. -/
  | fill (json : Json)
  /-- Reach for the sub-spec under a key, and operate on that. -/
  | within (key : String) (operations : List Operation)

namespace Operation

mutual

/-- The node after an operation, whether it failed or not. -/
def apply (catalog : Catalog) : Operation → Node → Node
  | set key value, n => (Node.set catalog key value).stateAfter n
  | append name, n => (Node.appendEmpty catalog name).stateAfter n
  | fill json, n => (Node.fill catalog json).stateAfter n
  | within key operations, n =>
    (Node.within key (modify fun m => applyAll catalog operations m)).stateAfter n

/-- The node after operations, one after the other. -/
def applyAll (catalog : Catalog) : List Operation → Node → Node
  | [], n => n
  | o :: os, n => applyAll catalog os (apply catalog o n)

end

end Operation

/-- A registry that answers builds from its catalog. -/
theorem Registry.build_of_get {r : Registry} {name : String} {n : Node} (h : r.get name = .ok n) :
    r.catalog.build name = .ok n := by
  unfold get at h
  split at h
  · exact h
  · cases h

/-- The trees that a registry gives out, after any operations. -/
inductive Registry.Reachable (r : Registry) : Node → Prop
  | get {name : String} {n : Node} (h : r.get name = .ok n) : Reachable r n
  | step {n : Node} (h : Reachable r n) (o : Operation) : Reachable r (o.apply r.catalog n)

theorem Registry.Reachable.run {r : Registry} {n : Node} (h : r.Reachable n)
    (operations : List Operation) : r.Reachable (Operation.applyAll r.catalog operations n) := by
  induction operations generalizing n with
  | nil => exact h
  | cons o os ih => exact ih (h.step o)

/-- The registry of some comment lines. -/
def Registry.ofLines (lines : List String) : Registry :=
  match (ofOptions .strict).loadLines "example.hh" lines with
  | .ok (r, _) => r.finish.1
  | .error _ => ofOptions .strict

theorem Registry.exists_of_get (r : Registry) (name : String) (test : Node → Bool)
    (h : (match r.get name with
      | .ok n => test n
      | .error _ => false) = true) : ∃ n, r.get name = .ok n ∧ test n = true := by
  cases hget : r.get name with
  | error e =>
    rw [hget] at h
    cases h
  | ok n =>
    rw [hget] at h
    exact ⟨n, rfl, h⟩

/-! ## Keys that are set -/

/-- A key that is set to a value: the path to the node, and the node as it is at that time. -/
structure Setting where
  path : List String
  node : Node
  key : String
  value : Value

/-- Settings in a sub-spec, seen from the node that it is a part of. -/
def Setting.below (key : String) (s : Setting) : Setting := { s with path := key :: s.path }

namespace Node

/-- The sub-spec that is handed out under a key. -/
def handedOut? (n : Node) (key : String) : Option Node :=
  match (within key get).answer n with
  | .ok m => some m
  | .error _ => none

/-- The setting of a scalar or an array. -/
def leafSettings (key : String) (json : Json) (n : Node) : List Setting :=
  match json.toValue? (n.hint? key) with
  | some value => [⟨[], n, key, value⟩]
  | none => []

mutual

/-- The keys that are set when a node is filled from a document. -/
def fillSettings (catalog : Catalog) (path : String) : Json → Node → List Setting
  | .object members, n =>
    membersSettings catalog path n.isSelector true members n ++
      match fillMembers catalog path n.isSelector true members n with
      | .ok _ n' => membersSettings catalog path n.isSelector false members n'
      | .error _ _ => []
  | _, _ => []

/-- The keys that are set by the members that are selectors, or by those that are not. The first
that fails is the last. -/
def membersSettings (catalog : Catalog) (path : String) (isSelector : String → Bool)
    (selectors : Bool) : List (String × Json) → Node → List Setting
  | [], _ => []
  | member :: members, n =>
    if isSelector member.1 = selectors then
      memberSettings catalog path member n ++
        match fillMember catalog path member n with
        | .ok _ n' => membersSettings catalog path isSelector selectors members n'
        | .error _ _ => []
    else membersSettings catalog path isSelector selectors members n

/-- The keys that are set by one member. -/
def memberSettings (catalog : Catalog) (path : String) : String × Json → Node → List Setting
  | (key, .object members), n =>
    match ensureEntry catalog key n with
    | .ok _ n' =>
      match n'.handedOut? key with
      | some m => (fillSettings catalog (memberPath path key) (.object members) m).map (·.below key)
      | none => []
    | .error _ _ => []
  | (key, json), n =>
    match ensureEntry catalog key n with
    | .ok _ n' => leafSettings key json n'
    | .error _ _ => []

end

end Node

namespace Operation

mutual

/-- The keys that are set in the course of an operation on a node. -/
def settings (catalog : Catalog) : Operation → Node → List Setting
  | set key value, n => [⟨[], n, key, value⟩]
  | append _, _ => []
  | fill json, n => n.fillSettings catalog "" json
  | within key operations, n =>
    match n.handedOut? key with
    | some m => (settingsAll catalog operations m).map (·.below key)
    | none => []

/-- The keys that are set by operations, one after the other. -/
def settingsAll (catalog : Catalog) : List Operation → Node → List Setting
  | [], _ => []
  | o :: os, n => settings catalog o n ++ settingsAll catalog os (apply catalog o n)

end

end Operation

end SpecTree
