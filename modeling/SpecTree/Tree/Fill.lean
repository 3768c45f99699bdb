import SpecTree.Json.Printer
import SpecTree.Tree.NodeEdit

/-!
# Filling trees

A JSON object gives values to a tree: its members are set one after the other, objects in it
fill sub-specs, and entries are appended to lists as they come. Members that decide which
others there are come first.
-/

namespace SpecTree

/-- Why a document could not be put into a tree. The path leads to the member. -/
inductive FillError where
  | tree (path : String) (error : TreeError)
  | notObject (path : String)
  /-- Neither null nor a mixed array is the value of a parameter. -/
  | unsupported (path : String) (value : String)
deriving DecidableEq

/-- The error in words. -/
def FillError.message : FillError → String
  | tree path error => path ++ ": " ++ error.message
  | notObject path => path ++ ": expected a JSON object"
  | unsupported path value => path ++ ": cannot use JSON value " ++ value ++ " here"

namespace Json

/-- An array as a value. If it is empty, the declared type decides of what. -/
def arrayValue? (hint : Option Primitive) (items : List Json) : Option Value :=
  if items.isEmpty then
    match hint with
    | some (.array .double) => some (.doubles [])
    | some (.array .int) => some (.ints [])
    | some (.array .bool) => some (.bools [])
    | _ => some (.strings [])
  else if items.all Json.isBool then some (.bools (items.filterMap Json.asBool?))
  else if items.all (·.asInt?.isSome) && hint != some (.array .double) then
    some (.ints (items.filterMap Json.asInt?))
  else if items.all Json.isNumber then some (.doubles (items.filterMap Json.asFloat?))
  else if items.all Json.isString then some (.strings (items.filterMap Json.asString?))
  else none

/-- A scalar or an array as a value; the declared type is a hint. -/
def toValue? (hint : Option Primitive) : Json → Option Value
  | bool b => some (.bool b)
  | number n =>
    match n.asInt? with
    | some i => if hint = some (.scalar .double) then some (.double (Value.doubleOfInt i)) else some (.int i)
    | none => some (.double n.toFloat)
  | string s => some (.string s)
  | array items => arrayValue? hint items
  | null | object _ => none

end Json

/-- Fill a tree: an operation on it that may fail part of the way. -/
abbrev Fill (σ α : Type) := EStateM FillError σ α

namespace Node

/-- The path of a member. -/
def memberPath (path key : String) : String :=
  if path = "" then key else path ++ "/" ++ key

/-- The error of an edit at a path. -/
def filling {α : Type} (path : String) (act : Edit Node α) : Fill Node α := fun n =>
  match act n with
  | .ok a n => .ok a n
  | .error e n => .error (.tree path e) n

/-- The declared type of a key, or of the entries of a list. -/
def hint? (n : Node) (key : String) : Option Primitive :=
  match (n.parameter? key).bind (·.type.primitive?), n with
  | some p, _ => some p
  | none, list l => l.element.primitive?
  | none, _ => none

/-- Append an entry of a name, if the node is a list without one. -/
def ensureEntry (catalog : Catalog) (key : String) : Edit Node Unit := do
  match ← get with
  | list l => if l.contains key then pure () else appendEmpty catalog key
  | _ => pure ()

/-- Fill the sub-spec under a key. -/
def fillWithin {α : Type} (path key : String) (act : Fill Node α) : Fill Node α := fun n =>
  let inner : Edit Node (Except FillError α) := fun child =>
    match act child with
    | .ok a child => .ok (.ok a) child
    | .error e child => .ok (.error e) child
  match within key inner n with
  | .ok (.ok a) n => .ok a n
  | .ok (.error e) n => .error e n
  | .error e n => .error (.tree path e) n

/-- Set a key to a scalar or an array. -/
def fillLeaf (catalog : Catalog) (path key : String) (json : Json) : Fill Node Unit := do
  match json.toValue? ((← get).hint? key) with
  | some value => filling path (set catalog key value)
  | none => throw (.unsupported path json.compact)

mutual

/-- Fill a node from a document. -/
def fillFrom (catalog : Catalog) (path : String) : Json → Fill Node Unit
  | .object members => do
    let isSelector := (← get).isSelector
    fillMembers catalog path isSelector true members
    fillMembers catalog path isSelector false members
  | _ => throw (.notObject (if path = "" then "/" else path))

/-- Fill a node from the members of an object that are selectors, or from those that are not. -/
def fillMembers (catalog : Catalog) (path : String) (isSelector : String → Bool)
    (selectors : Bool) : List (String × Json) → Fill Node Unit
  | [] => pure ()
  | member :: members => do
    if isSelector member.1 = selectors then fillMember catalog path member
    fillMembers catalog path isSelector selectors members

/-- Fill one key of a node. -/
def fillMember (catalog : Catalog) (path : String) : String × Json → Fill Node Unit
  | (key, .object members) => do
    let here := memberPath path key
    filling here (ensureEntry catalog key)
    fillWithin here key (fillFrom catalog here (.object members))
  | (key, json) => do
    let here := memberPath path key
    filling here (ensureEntry catalog key)
    fillLeaf catalog here key json

end

/-- Fill a tree from a document. -/
def fill (catalog : Catalog) (json : Json) : Fill Node Unit :=
  fillFrom catalog "" json

end Node

end SpecTree
