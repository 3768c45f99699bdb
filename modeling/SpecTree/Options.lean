import SpecTree.File.Path
import SpecTree.Text.Cut

/-!
# Load options

Which files are read, and what happens when one of them is bad or says nothing.
-/

namespace SpecTree

/-- What to do about a problem with a file. -/
inductive Policy where
  /-- End the load. -/
  | raise
  /-- Skip the file and warn. -/
  | warn
  /-- Skip the file. -/
  | ignore
deriving DecidableEq

namespace Policy

def name : Policy → String
  | raise => "raise"
  | warn => "warn"
  | ignore => "ignore"

/-- The policy of the given name. -/
def ofName? (name : String) : Option Policy :=
  [raise, warn, ignore].find? (·.name == name)

end Policy

/-- The options of a load. -/
structure LoadOptions where
  /-- For files that cannot be read, and for problems between definitions. -/
  onError : Policy
  /-- For files without a definition. -/
  onEmpty : Policy
  /-- Only files whose name ends with this are read. -/
  suffix : String
  /-- Files whose name ends with one of these are not. -/
  exclude : List String
deriving DecidableEq

namespace LoadOptions

/-- Bad files are skipped with a warning, empty ones without. -/
def standard : LoadOptions :=
  { onError := .warn, onEmpty := .ignore, suffix := ".hh", exclude := ["_reg.hh"] }

/-- The first problem ends the load. -/
def strict : LoadOptions := { standard with onError := .raise }

/-- Is the file of this path to be read? -/
def accepts (options : LoadOptions) (path : String) : Bool :=
  match Path.fileName? path with
  | none => false
  | some name =>
    let ends := fun suffix => (Text.withoutSuffix? suffix name).isSome
    ends options.suffix && !options.exclude.any ends

/-- The file's name without the suffix, after which a spec without a header is named. -/
def stem (options : LoadOptions) (path : String) : String :=
  let name := (Path.fileName? path).getD ""
  (Text.withoutSuffix? options.suffix name).getD (Path.stemOfName name)

end LoadOptions

end SpecTree
