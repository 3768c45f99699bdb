import SpecTree.File.Limits
import SpecTree.File.Sources

/-!
# Disks

Files and directories around a working directory. A path is walked name by name, so that a
double point leaves the directory that was entered, and a name behind a file is an error.

A place is given by the names on the way to it. Double points at the front lead out of the
working directory, a slash at the front to the root. There are directories at all these
places, but nothing is seen in them that has not been written there.
-/

namespace SpecTree

/-- What a file holds. -/
inductive FileContent where
  | text (s : String)
  /-- Bytes that are no text. -/
  | binary
deriving DecidableEq

/-- The files by the names on the way to them, and directories that need not hold any. -/
structure Disk where
  files : List (List String × FileContent)
  directories : List (List String)
deriving DecidableEq

namespace Disk

def empty : Disk := ⟨[], []⟩

/-- Do some names lead no further than to the working directory, a directory above it, or the
root? -/
def isOutside (names : List String) : Bool :=
  names.all (· == "..") || names == ["/"]

/-- The directory above a directory. The root has none but itself. -/
def above (names : List String) : List String :=
  if names = ["/"] then names
  else if isOutside names then names ++ [".."]
  else names.dropLast

/-- Go on by one part of a path. -/
def follow (here : List String) (part : String) : List String :=
  if part = "" ∨ part = "." then here
  else if part = ".." then above here
  else here ++ [part]

/-- The place at which a path begins. -/
def start (path : String) : List String :=
  if Path.isAbsolute path then ["/"] else []

/-- The names that a path leads to. -/
def namesOf (path : String) : List String :=
  (Path.parts path).foldl follow (start path)

/-- Put a file at the end of some names, in place of one that is there. -/
def put (disk : Disk) (names : List String) (content : FileContent) : Disk :=
  { disk with files := disk.files.filter (·.1 != names) ++ [(names, content)] }

/-- Put a file on the disk, together with the directories on the way. -/
def addFile (disk : Disk) (path : String) (content : FileContent) : Disk :=
  disk.put (namesOf path) content

/-- Put a directory on the disk. -/
def addDirectory (disk : Disk) (path : String) : Disk :=
  { disk with directories := disk.directories ++ [namesOf path] }

variable (disk : Disk)

/-- The content of the file at the end of some names. -/
def file? (names : List String) : Option FileContent :=
  (disk.files.find? (·.1 == names)).map (·.2)

/-- Do some names lead to a directory? -/
def isDirectory (names : List String) : Bool :=
  isOutside names || disk.directories.any (names.isPrefixOf ·) ||
    disk.files.any fun (path, _) => names.isPrefixOf path && names != path

/-- Go on from a place that must be a directory. -/
def step (here : List String) (part : String) : Except FileError (List String) :=
  if (disk.file? here).isSome then .error .notADirectory
  else if !disk.isDirectory here then .error .notFound
  else if Path.maxNameBytes < part.utf8ByteSize then .error .nameTooLong
  else .ok (follow here part)

/-- The names that a path leads to. The last of them need not exist. -/
def locate (path : String) : Except FileError (List String) :=
  match Path.refusal? path with
  | some e => .error e
  | none => (Path.parts path).foldlM disk.step (start path)

/-- The text of a file. -/
def read (path : String) : Except FileError String := do
  let names ← disk.locate path
  match disk.file? names with
  | some (.text s) => .ok s
  | some .binary => .error .notText
  | none => .error (if disk.isDirectory names then .isADirectory else .notFound)

/-- The names that a walk down from a directory passes. It does not enter a directory whose
path is too long, but ends there. -/
def walk (directory : String) : List String → List String
  | [] => []
  | name :: names =>
    let path := Path.join directory name
    if Path.isTooLong path then [name] else name :: walk path names

/-- Does the walk down some names come to a path that is too long? -/
def isBlocked (directory : String) : List String → Bool
  | [] => false
  | name :: names =>
    let path := Path.join directory name
    Path.isTooLong path || isBlocked path names

/-- The way down from some names to others, if these lie below them. -/
def wayDown? (names path : List String) : Option (List String) :=
  let way := path.drop names.length
  if names.isPrefixOf path ∧ way.head? ≠ some ".." ∧ way.head? ≠ some "/" then some way else none

/-- What a walk down from a directory comes upon, by the names on the way from there, in
ascending order: the files, and directories that it cannot enter. -/
def below (root : String) (names : List String) : List (List String) :=
  let files := (disk.files.map (·.1)).filterMap (wayDown? names)
  let directories := (disk.directories.filterMap (wayDown? names)).filter (isBlocked root)
  ((files ++ directories).map (walk root)).eraseDups.mergeSort Path.namesLe

/-- The files at or below a path. -/
def list (root : String) : Except FileError (List String) := do
  let names ← disk.locate root
  if (disk.file? names).isSome then .ok [root]
  else if disk.isDirectory names then
    .ok ((disk.below root names).map fun path => path.foldl Path.join root)
  else .error .notFound

/-- A disk as a collection of sources. -/
def sources : Sources := ⟨disk.list, disk.read⟩

/-- Drop empty parts at the end of a path. -/
def dropEmptyEnd (parts : List String) : List String :=
  (parts.reverse.dropWhile (· = "")).reverse

/-- Write a text to a file. A file of that path is replaced; a new one needs a directory to
lie in. A slash at the end asks for a directory, which is not written to, even if its name is
too long. -/
def write (path text : String) : Except FileError Disk :=
  match Path.refusal? path with
  | some e => .error e
  | none => do
    let parts := dropEmptyEnd (Path.parts path)
    let directory ← (parts.dropLast ++ [""]).foldlM disk.step (start path)
    if (Path.parts path).getLast? = some "" then throw .isADirectory
    let names ← disk.step directory (parts.getLast?.getD "")
    if disk.isDirectory names then throw .isADirectory
    return disk.put names (.text text)

end Disk

end SpecTree
