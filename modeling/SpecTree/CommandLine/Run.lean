import SpecTree.CommandLine.Invocation
import SpecTree.CommandLine.Report
import SpecTree.Config
import SpecTree.Json.Parser
import SpecTree.Registry
import SpecTree.Tree.Explain
import SpecTree.Tree.Fill
import SpecTree.Tree.Xml

/-!
# Running commands

What the program answers to an invocation, given the files that it may read: an outcome, or a
text to be written to a file and the outcome of that.
-/

namespace SpecTree

/-- The exit code of a run, and what it writes to standard output and standard error. -/
structure Outcome where
  code : UInt32
  output : String
  errors : String
deriving DecidableEq

/-- The answer to an invocation. -/
inductive Answer where
  | finished (outcome : Outcome)
  /-- A text is to be written to a file; the outcome depends on whether that succeeds. -/
  | writing (path text : String) (outcome : Except FileError Unit → Outcome)

namespace Outcome

/-- Success with some output. -/
def success (output : String) : Outcome := ⟨0, output, ""⟩

/-- Failure with a complaint. -/
def failure (errors : String) : Outcome := ⟨1, "", errors⟩

/-- The name and the number of the program. -/
def versionLine : String := "parspec 0.1.0\n"

/-- How to use the program. -/
def usage : String :=
  "Read input specs from source comments and build parameter lists\n\n" ++
  "Usage: parspec [OPTIONS] <COMMAND>\n\n" ++
  "Commands:\n" ++
  "  list [SOURCES]...         List every registered spec name\n" ++
  "  check [SOURCES]...        Load sources and report every problem\n" ++
  "  explain <SOURCE> <SPEC>   Show the parameters of a spec\n" ++
  "  build <SOURCE> <SPEC>     Fill a spec from JSON values and write ParameterList XML\n" ++
  "        --values <VALUES>   JSON file with the parameter values\n" ++
  "        --name <NAME>       Name of the top-level ParameterList [default: main]\n" ++
  "    -o, --out <OUT>         Write XML here instead of stdout\n" ++
  "        --strict            Fail (exit 2) instead of writing an incomplete list\n" ++
  "  help                      Print this text\n\n" ++
  "Options:\n" ++
  "      --output <OUTPUT>      Output format (text or json) [default: text]\n" ++
  "      --quiet                Suppress non-essential output\n" ++
  "  -v, --verbose...           More log output\n" ++
  "      --config <CONFIG>      Configuration file with extra source roots and load options\n" ++
  "      --on-error <ON_ERROR>  What to do with files that fail to load (raise, warn, ignore)\n" ++
  "  -h, --help                 Print this text\n" ++
  "  -V, --version              Print version\n"

/-- The outcome of arguments that lead to no command. -/
def ofHalt : Halt → Outcome
  | .help => success usage
  | .version => success versionLine
  | .rejected => ⟨2, "", usage⟩

end Outcome

namespace Invocation

variable (inv : Invocation)

/-- A complaint in the form that is asked for; a quiet run makes none. -/
def complaint (message : String) : String :=
  if inv.quiet then ""
  else match inv.output with
    | .text => "error: " ++ message ++ "\n"
    | .json => (Json.ofMembers [("error", .string message)]).compact ++ "\n"

/-- A complaint about a load. -/
def loadComplaint (e : LoadError) : String :=
  if inv.quiet then ""
  else match inv.output with
    | .text => "error: " ++ e.display ++ "\n"
    | .json => e.toJson.pretty ++ "\n"

/-- Failure for a reason in words. -/
def fail {α : Type} (message : String) : Except Outcome α :=
  .error (.failure (inv.complaint message))

/-- Output as JSON. -/
def document (json : Json) : Outcome := .success (json.pretty ++ "\n")

/-- The configuration, and the load options that result from it and from the arguments. -/
def settings (files : Sources) : Except Outcome Config :=
  match inv.config with
  | none => .ok (override .standard)
  | some path =>
    match Config.read files path with
    | .ok config => .ok (override config)
    | .error e => inv.fail e.message
where
  override (config : Config) : Config :=
    { config with load := { config.load with onError := inv.onError.getD config.load.onError } }

/-- Load the roots of the command and those of the configuration. -/
def load (files : Sources) (config : Config) (options : LoadOptions) :
    Except Outcome (Registry × LoadReport) :=
  match inv.command.sources ++ config.sources with
  | [] => inv.fail "no source directories given (pass one or set `sources` in the config)"
  | roots =>
    match Registry.load files options roots with
    | .ok loaded => .ok loaded
    | .error e => .error (.failure (inv.loadComplaint e))

/-- The fresh tree of a name. -/
def get (r : Registry) (spec : String) : Except Outcome Node :=
  match r.get spec with
  | .ok n => .ok n
  | .error e => inv.fail e.message

/-- The names of all registered specs. -/
def listing (r : Registry) : Outcome :=
  match inv.output with
  | .json => document (.ofStrings r.catalog.names)
  | .text => .success (String.join (r.catalog.names.map (· ++ "\n")))

/-- The problems of a load, which is a failure if there are any. -/
def checking (report : LoadReport) : Outcome :=
  let shown := match inv.output with
    | .json => document report.toJson
    | .text =>
      { code := 0
        output := if inv.quiet then "" else
          toString report.filesRead ++ " files, " ++ toString report.specs ++ " specs, " ++
            toString report.problems.length ++ " problems\n"
        errors := String.join (report.problems.map fun e : LoadError => e.display ++ "\n") }
  { shown with code := if report.hasProblems then 1 else 0 }

/-- The fresh tree of a spec. -/
def explaining (catalog : Catalog) (spec : String) (n : Node) : Outcome :=
  match inv.output with
  | .text => .success (n.explain catalog ++ "\n")
  | .json => document (n.summary catalog spec)

/-- The document with the values for a build. -/
def readValues (files : Sources) (path : String) : Except Outcome Json :=
  match files.read path with
  | .error e => inv.fail ("error reading file '" ++ path ++ "': " ++ e.message)
  | .ok text =>
    match Json.parse? text with
    | none => inv.fail ("error parsing JSON in '" ++ path ++ "': no valid document")
    | some values => .ok values

/-- What is told about a tree that is not complete. -/
def warning (catalog : Catalog) (spec : String) (n : Node) : String :=
  if n.isComplete || inv.quiet then ""
  else match inv.output with
    | .json => (n.summary catalog spec).compact ++ "\n"
    | .text => String.join ((n.shortcomings catalog spec).map (· ++ "\n"))

/-- The filled tree as XML, on standard output or in a file. -/
def building (catalog : Catalog) (spec name : String) (out : Option String) (strict : Bool)
    (n : Node) : Answer :=
  let warning := inv.warning catalog spec n
  if strict && !n.isComplete then .finished ⟨2, "", warning⟩
  else match out with
    | none => .finished ⟨0, n.toXml name, warning⟩
    | some path => .writing path (n.toXml name) fun
      | .ok () => ⟨0, "", warning⟩
      | .error e =>
        .failure (warning ++ inv.complaint ("error writing '" ++ path ++ "': " ++ e.message))

/-- Run a command. -/
def execute (files : Sources) : Except Outcome Answer := do
  let config ← inv.settings files
  match inv.command with
  | .list _ =>
    let (r, _) ← inv.load files config config.load
    return .finished (inv.listing r)
  | .check _ =>
    let (_, report) ← inv.load files config { config.load with onError := .ignore }
    return .finished (inv.checking report)
  | .explain _ spec =>
    let (r, _) ← inv.load files config config.load
    let n ← inv.get r spec
    return .finished (inv.explaining r.catalog spec n)
  | .build _ spec values name out strict =>
    let json ← inv.readValues files values
    let (r, _) ← inv.load files config config.load
    let n ← inv.get r spec
    match n.fill r.catalog json with
    | .error e _ => inv.fail e.message
    | .ok _ n => return inv.building r.catalog spec name out strict n

/-- The answer to an invocation. -/
def run (files : Sources) : Answer :=
  match inv.execute files with
  | .ok answer => answer
  | .error outcome => .finished outcome

end Invocation

end SpecTree
