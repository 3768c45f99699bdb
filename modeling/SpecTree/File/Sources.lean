import SpecTree.File.Error
import SpecTree.File.Path

/-!
# Sources

Where source texts come from: something that lists the files at or below a path and reads
them. One kind of it is a collection of texts in memory, whose paths are resolved by their
spelling alone.
-/

namespace SpecTree

/-- A collection of source files. -/
structure Sources where
  /-- The files at or below a path. -/
  list : String → Except FileError (List String)
  /-- The text of a file. -/
  read : String → Except FileError String

/-- Texts in memory, under normalized paths in ascending order. -/
structure MemoryFiles where
  entries : List (List PathComponent × String)

namespace MemoryFiles

def empty : MemoryFiles := ⟨[]⟩

/-- Put an entry in its place; one of the same path is replaced. -/
def insertEntry (path : List PathComponent) (text : String) :
    List (List PathComponent × String) → List (List PathComponent × String)
  | [] => [(path, text)]
  | (p, t) :: rest =>
    if p = path then (path, text) :: rest
    else if PathComponent.listLe path p then (path, text) :: (p, t) :: rest
    else (p, t) :: insertEntry path text rest

/-- Store a text under a path. -/
def insert (files : MemoryFiles) (path text : String) : MemoryFiles :=
  ⟨insertEntry (Path.normalize path) text files.entries⟩

/-- Store texts one after another. -/
def ofList (files : List (String × String)) : MemoryFiles :=
  files.foldl (fun stored (path, text) => stored.insert path text) empty

/-- The text stored under a path. -/
def read (files : MemoryFiles) (path : String) : Except FileError String :=
  let normal := Path.normalize path
  match files.entries.find? (·.1 = normal) with
  | some (_, text) => .ok text
  | none => .error (.noSource (Path.ofNormal normal))

/-- The stored files at or below a path. -/
def list (files : MemoryFiles) (root : String) : Except FileError (List String) :=
  let normal := Path.normalize root
  match files.entries.filter (normal.isPrefixOf ·.1) with
  | [] => .error (.noSources (Path.ofNormal normal))
  | found => .ok (found.map fun (path, _) => Path.ofNormal path)

/-- Texts in memory as sources. -/
def sources (files : MemoryFiles) : Sources :=
  ⟨files.list, files.read⟩

end MemoryFiles

end SpecTree
