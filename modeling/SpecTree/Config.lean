import SpecTree.File.Sources
import SpecTree.Json
import SpecTree.Options
import SpecTree.Toml.Parser

/-!
# Configuration

A TOML document that names source roots and sets load options. What it leaves out keeps its
standard value, and keys that mean nothing here are passed over.
-/

namespace SpecTree

/-! ## Values -/

/-- A policy is a string, or a table with the policy's name as its only key and nothing
behind it. -/
def Policy.ofToml? : Toml → Option Policy
  | .string s => ofName? s
  | .table [(name, .table [])] | .table [(name, .array [])] => ofName? name
  | _ => none

namespace Toml

/-- Read what is given, or else keep a standard value. -/
def readOr {α : Type} (standard : α) (read : Toml → Option α) : Option Toml → Option α
  | some given => read given
  | none => some standard

end Toml

namespace LoadOptions

/-- Options with some of them set. An option that is absent keeps its standard value; a value
of the wrong kind is an error. -/
def ofTomlParts? (onError onEmpty suffix exclude : Option Toml) : Option LoadOptions := do
  return {
    onError := ← Toml.readOr standard.onError Policy.ofToml? onError
    onEmpty := ← Toml.readOr standard.onEmpty Policy.ofToml? onEmpty
    suffix := ← Toml.readOr standard.suffix Toml.asString? suffix
    exclude := ← Toml.readOr standard.exclude Toml.asStrings? exclude }

/-- Options are a table, or an array in the order of the options. A time is taken for a table
without any of them. -/
def ofToml? : Toml → Option LoadOptions
  | .table members =>
    let given := fun key => Toml.find? key members
    ofTomlParts? (given "on_error") (given "on_empty") (given "suffix") (given "exclude")
  | .array items => ofTomlParts? items[0]? items[1]? items[2]? items[3]?
  | .time _ => some standard
  | _ => none

/-- The options by name. -/
def toJson (o : LoadOptions) : Json :=
  .ofMembers [("on_error", .string o.onError.name), ("on_empty", .string o.onEmpty.name),
    ("suffix", .string o.suffix), ("exclude", .ofStrings o.exclude)]

end LoadOptions

/-- Source roots and load options. -/
structure Config where
  sources : List String
  load : LoadOptions
deriving DecidableEq

/-- Why there is no configuration. -/
inductive ConfigError where
  | unreadable (path : String) (error : FileError)
  | malformed
deriving DecidableEq

/-- The error in words. -/
def ConfigError.message : ConfigError → String
  | unreadable path error => "could not read '" ++ path ++ "': " ++ error.message
  | malformed => "could not parse config: no valid document"

namespace Config

/-- The configuration without a document. -/
def standard : Config := ⟨[], .standard⟩

def ofToml? (members : List (String × Toml)) : Option Config := do
  return {
    sources := ← Toml.readOr [] Toml.asStrings? (Toml.find? "sources" members)
    load := ← Toml.readOr .standard LoadOptions.ofToml? (Toml.find? "load" members) }

/-- The configuration that a document describes. -/
def parse (text : String) : Except ConfigError Config :=
  match (Toml.parse? text).bind ofToml? with
  | some config => .ok config
  | none => .error .malformed

/-- Read a configuration. Its source roots are relative to the directory that it lies in. -/
def read (files : Sources) (path : String) : Except ConfigError Config :=
  match files.read path with
  | .error e => .error (.unreadable path e)
  | .ok text => do
    let config ← parse text
    return { config with sources := config.sources.map (Path.join (Path.parent path)) }

/-- The roots and the options by name. -/
def toJson (c : Config) : Json :=
  .ofMembers [("sources", .ofStrings c.sources), ("load", c.load.toJson)]

end Config

end SpecTree
