import SpecTree.Text.Blank

/-!
# Paths

A path is a string of names between slashes. What it means is the list of its components;
what is written about it keeps its spelling.
-/

namespace SpecTree

/-- A component of a path. -/
inductive PathComponent where
  | root
  | current
  | parent
  | name (s : String)
deriving DecidableEq

namespace PathComponent

/-- The place of a component before others of a different kind. -/
def rank : PathComponent → Nat
  | root => 0
  | current => 1
  | parent => 2
  | name _ => 3

/-- The order of components: by kind, and names by their characters. -/
def le : PathComponent → PathComponent → Bool
  | name s, name t => s ≤ t
  | c, d => c.rank ≤ d.rank

/-- The lexicographic order of lists of components. -/
def listLe : List PathComponent → List PathComponent → Bool
  | [], _ => true
  | _ :: _, [] => false
  | c :: cs, d :: ds => if c = d then listLe cs ds else c.le d

end PathComponent

namespace Path

/-- The lexicographic order of lists of names. -/
def namesLe : List String → List String → Bool
  | [], _ => true
  | _ :: _, [] => false
  | s :: ss, t :: ts => if s = t then namesLe ss ts else s ≤ t

/-- The parts of a path between slashes. -/
def parts (path : String) : List String :=
  (Text.splitOnChar '/' path.toList).map String.ofList

/-- Does a path start at the root? -/
def isAbsolute (path : String) : Bool :=
  path.toList.head? = some '/'

/-- The component that a part between slashes makes. An empty part makes none, and neither
does a point, except at the start. -/
def component? (part : String) : Option PathComponent :=
  if part = "" ∨ part = "." then none
  else if part = ".." then some .parent
  else some (.name part)

/-- The components of a path. -/
def components (path : String) : List PathComponent :=
  let ps := parts path
  let front :=
    if isAbsolute path then [PathComponent.root]
    else if ps.head? = some "." then [.current]
    else []
  front ++ ps.filterMap component?

/-- The last component, if it is a name. -/
def fileName? (path : String) : Option String :=
  match (components path).getLast? with
  | some (.name s) => some s
  | _ => none

/-- A file's name up to its last point. A point at the front does not count. -/
def stemOfName (name : String) : String :=
  let behind := name.toList.reverse.dropWhile (· ≠ '.')
  match behind with
  | _ :: before@(_ :: _) => String.ofList before.reverse
  | _ => name

/-- A path below a directory; an absolute path stays as it is. -/
def join (directory path : String) : String :=
  if isAbsolute path then path
  else if directory = "" ∨ directory.toList.getLast? = some '/' then directory ++ path
  else directory ++ "/" ++ path

/-- Drop parts at the end that make no component. The first part is kept. -/
def dropIdle : List String → List String
  | [] => []
  | part :: rest => part :: (rest.reverse.dropWhile fun p => (component? p).isNone).reverse

/-- The directory that a path lies in: the path without its last component. -/
def parent (path : String) : String :=
  match dropIdle (dropIdle (parts path)).dropLast with
  | [""] => "/"
  | kept => "/".intercalate kept

/-- The components of a path after its points and double points are worked out. A double
point takes away the component before it. -/
def normalize (path : String) : List PathComponent :=
  (components path).foldl (fun kept c =>
    match c with
    | .current => kept
    | .parent => kept.dropLast
    | c => kept ++ [c]) []

/-- The spelling of a normalized path. -/
def ofNormal (components : List PathComponent) : String :=
  let names := components.filterMap fun
    | .name s => some s
    | _ => none
  (if components.head? = some .root then "/" else "") ++ "/".intercalate names

end Path

end SpecTree
