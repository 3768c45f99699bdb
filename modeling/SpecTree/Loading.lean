import SpecTree.Definition.Scope
import SpecTree.File.Sources
import SpecTree.Options

/-!
# Loading

The definitions in all files at or below a path, and a report of what was read and what had
to be skipped.
-/

namespace SpecTree

/-- What happened when sources were read. -/
structure LoadReport where
  /-- How many files had an accepted name. -/
  filesRead : Nat
  /-- How many definitions were found. -/
  specs : Nat
  /-- Files that could not be read, or whose comments make no sense. -/
  skipped : List LoadError
  /-- Files without a definition. -/
  empty : List String
  /-- Dangling references and cycles between definitions. -/
  unresolved : List LoadError
deriving DecidableEq

namespace LoadReport

/-- The report before anything is read. -/
def nothing : LoadReport := ⟨0, 0, [], [], []⟩

/-- What happened in two loads, one after the other. -/
def append (r s : LoadReport) : LoadReport :=
  ⟨r.filesRead + s.filesRead, r.specs + s.specs, r.skipped ++ s.skipped, r.empty ++ s.empty,
    r.unresolved ++ s.unresolved⟩

def problems (r : LoadReport) : List LoadError := r.skipped ++ r.unresolved

def hasProblems (r : LoadReport) : Bool := !r.problems.isEmpty

end LoadReport

namespace Sources

/-- The definitions in one file. -/
def loadFile (sources : Sources) (options : LoadOptions) (file : String) :
    Except LoadError (List Definition) :=
  match sources.read file with
  | .ok text => Definition.readSource file (options.stem file) text
  | .error e => .error ⟨none, file, 0, .unreadable e⟩

/-- What a file adds to the definitions and to the report, under the policies for bad and for
empty files. -/
def addFile (sources : Sources) (options : LoadOptions) (file : String) :
    Except LoadError (List Definition × LoadReport) :=
  match sources.loadFile options file with
  | .ok [] =>
    if options.onEmpty = .raise then .error ⟨none, file, 0, .noSpecs⟩
    else .ok ([], { LoadReport.nothing with filesRead := 1, empty := [file] })
  | .ok definitions =>
    .ok (definitions, { LoadReport.nothing with filesRead := 1, specs := definitions.length })
  | .error e =>
    if options.onError = .raise then .error e
    else .ok ([], { LoadReport.nothing with filesRead := 1, skipped := [e] })

/-- What files add, one after the other. -/
def addFiles (sources : Sources) (options : LoadOptions) :
    List String → Except LoadError (List Definition × LoadReport)
  | [] => .ok ([], .nothing)
  | file :: files => do
    let (definitions, report) ← sources.addFile options file
    let (later, laterReport) ← addFiles sources options files
    return (definitions ++ later, report.append laterReport)

/-- The definitions in the accepted files at or below a path. -/
def load (sources : Sources) (options : LoadOptions) (root : String) :
    Except LoadError (List Definition × LoadReport) :=
  match sources.list root with
  | .ok files => sources.addFiles options (files.filter options.accepts)
  | .error e => .error ⟨none, root, 0, .unlistable e⟩

end Sources

end SpecTree
