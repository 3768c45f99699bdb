import SpecTree.Json.Printer
import SpecTree.Loading
import SpecTree.Tree.Open

/-!
# Reports

What the program tells about loads and trees, as JSON.
-/

namespace SpecTree

namespace LoadError

/-- The error by parts. -/
def toJson (e : LoadError) : Json :=
  .ofMembers [("pass", .ofNat e.stage), ("spec", .ofString? e.spec), ("file", .string e.file),
    ("line", .ofNat e.line), ("message", .string e.message)]

/-- The error as a part of a report, where no spec means no member. -/
def toReportJson (e : LoadError) : Json :=
  let spec := match e.spec with
    | some s => [("spec", Json.string s)]
    | none => []
  .ofMembers (spec ++ [("pass", .ofNat e.stage), ("file", .string e.file), ("line", .ofNat e.line),
    ("message", .string e.message)])

end LoadError

/-- The report by parts. -/
def LoadReport.toJson (r : LoadReport) : Json :=
  .ofMembers [("files_read", .ofNat r.filesRead), ("specs", .ofNat r.specs),
    ("skipped", .array (r.skipped.map LoadError.toReportJson)), ("empty", .ofStrings r.empty),
    ("unresolved", .array (r.unresolved.map LoadError.toReportJson))]

/-- The parts of a decision, its kind before all others. -/
def OpenChoice.members : OpenChoice → List (String × Json)
  | oneOf branches =>
    [("kind", .string "one_of"), ("branches", .array (branches.map Json.ofStrings))]
  | case name => [("kind", .string "case"), ("name", .string name)]
  | type field valid =>
    [("kind", .string "type"), ("field", .string field), ("valid", .ofStrings valid)]

/-- The decision and its path. -/
def OpenAlternation.toJson (a : OpenAlternation) : Json :=
  .ofMembers (("path", .ofStrings a.path) :: a.choice.members)

/-- The decision on a line for a reader: where it is open, and what it is. -/
def OpenAlternation.line (spec : String) (a : OpenAlternation) : String :=
  let place := if a.path = [] then spec else "/".intercalate a.path
  "  open at " ++ place ++ ": " ++ (Json.object a.choice.members).compact

namespace Node

/-- The state of a tree that is made for the name `spec`. -/
def summary (catalog : Catalog) (spec : String) (n : Node) : Json :=
  let names := fun ps : List (Parameter Node) => Json.ofStrings (ps.map (·.name))
  .ofMembers [("spec", .string spec), ("complete", .bool n.isComplete),
    ("parameters", names n.parameters), ("unfilled", names n.unfilled),
    ("optional", names n.optional),
    ("open", .array ((n.openAlternations catalog).map OpenAlternation.toJson))]

/-- What a tree lacks, in lines for a reader. -/
def shortcomings (catalog : Catalog) (spec : String) (n : Node) : List String :=
  ["warning: " ++ spec ++ " is incomplete"] ++ n.unfilled.map ("  unfilled: " ++ ·.name) ++
    (n.openAlternations catalog).map (OpenAlternation.line spec)

end Node

end SpecTree
