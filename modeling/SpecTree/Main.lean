import SpecTree.CommandLine.Run
import SpecTree.File.Limits

/-!
# The program

Reads what an invocation may look at, runs it, and writes its answer.
-/

namespace SpecTree.Main

/-- A failed access, by the code of the system, of which the sign does not matter. -/
def fileError (e : IO.Error) : FileError :=
  match e with
  | .noFileOrDirectory .. => .notFound
  | .inappropriateType _ code _ =>
    if code = 21 ∨ code = 0 - 21 then .isADirectory else .notADirectory
  | .invalidArgument _ code _ =>
    if code = 36 ∨ code = 0 - 36 then .nameTooLong else .system (toString e)
  | e => .system (toString e)

/-- Access a path, unless it is refused at once. -/
def access {α : Type} (path : String) (action : IO (Except FileError α)) :
    IO (Except FileError α) := do
  match Path.refusal? path with
  | some e => return .error e
  | none =>
    try action
    catch e => return .error (fileError e)

/-- The text of a file. -/
def readText (path : String) : IO (Except FileError String) :=
  access path do
    match String.fromUTF8? (← IO.FS.readBinFile path) with
    | some text => return .ok text
    | none => return .error .notText

/-- The files below a directory, in ascending order within each directory. -/
partial def filesBelow (directory : String) : IO (List String) := do
  let entries ← (IO.FS.DirEntry.mk directory "").path.readDir
  let names := (entries.toList.map (·.fileName)).mergeSort fun a b => decide (a ≤ b)
  let found ← names.mapM fun name => do
    let path := Path.join directory name
    let isDirectory ← (IO.FS.DirEntry.mk directory name).path.isDir
    if isDirectory && !Path.isTooLong path then filesBelow path else return [path]
  return found.flatten

/-- The files at or below a path. -/
def listFiles (root : String) : IO (Except FileError (List String)) := do
  match ← access root (Except.ok <$> filesBelow root) with
  | .error .notADirectory =>
    if root.toList.getLast? = some '/' then return .error .notADirectory
    match ← readText root with
    | .error .notADirectory => return .error .notADirectory
    | _ => return .ok [root]
  | listed => return listed

/-- The sources that hold what has been read. -/
def snapshot (lists : List (String × Except FileError (List String)))
    (texts : List (String × Except FileError String)) : Sources :=
  { list := fun root => ((lists.find? (·.1 == root)).map (·.2)).getD (.error .notFound)
    read := fun path => ((texts.find? (·.1 == path)).map (·.2)).getD (.error .notFound) }

/-- Read the configuration, the values and all files that an invocation may look at. -/
def readFiles (inv : Invocation) : IO Sources := do
  let named := inv.config.toList ++ match inv.command with
    | .build _ _ values _ _ _ => [values]
    | _ => []
  let front ← named.mapM fun path => return (path, ← readText path)
  match inv.settings (snapshot [] front) with
  | .error _ => return snapshot [] front
  | .ok config =>
    let roots := inv.command.sources ++ config.sources
    let lists ← roots.mapM fun root => return (root, ← listFiles root)
    let paths := lists.flatMap fun (_, listed) => (listed.toOption.getD []).filter config.load.accepts
    let texts ← paths.mapM fun path => return (path, ← readText path)
    return snapshot lists (front ++ texts)

/-- Write a text to a file. -/
def writeText (path text : String) : IO (Except FileError Unit) :=
  access path do
    IO.FS.writeFile path text
    return .ok ()

end SpecTree.Main

open SpecTree in
def main (args : List String) : IO UInt32 := do
  let outcome ← match Invocation.ofArgs args with
    | .error halt => pure (Outcome.ofHalt halt)
    | .ok inv =>
      match inv.run (← Main.readFiles inv) with
      | .finished outcome => pure outcome
      | .writing path text outcome => pure (outcome (← Main.writeText path text))
  (← IO.getStdout).putStr outcome.output
  (← IO.getStderr).putStr outcome.errors
  return outcome.code
