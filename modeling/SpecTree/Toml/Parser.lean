import SpecTree.Toml.Scalar
import SpecTree.Toml.Table

/-!
# Reading TOML

A document is a list of lines, headers of tables and values of keys, that are read first and
put together then. Arrays and tables in braces nest at most 79 levels deep, and a dotted key
has at most 79 parts.
-/

namespace SpecTree.Toml

/-! ## Blanks and comments -/

def dropBlanks (s : List Char) : List Char :=
  s.dropWhile fun c => c = ' ' ∨ c = '\t'

/-- A line break, or the end of the text. -/
def takeBreak? : List Char → Option (List Char)
  | [] => some []
  | '\n' :: rest => some rest
  | '\r' :: '\n' :: rest => some rest
  | _ => none

/-- Blanks and a comment up to the end of the line. -/
def takeLineEnd? (s : List Char) : Option (List Char) :=
  match dropBlanks s with
  | '#' :: rest => takeBreak? (rest.dropWhile isPlain)
  | rest => takeBreak? rest

/-- Drop blanks, line breaks and comments; `inComment` says that the text starts in one. -/
def dropLines (inComment : Bool) : List Char → List Char
  | [] => []
  | '\r' :: '\n' :: rest => dropLines false rest
  | c :: rest =>
    if c = '\n' then dropLines false rest
    else if inComment then if isPlain c then dropLines true rest else c :: rest
    else if c = ' ' ∨ c = '\t' then dropLines false rest
    else if c = '#' then dropLines true rest
    else c :: rest

/-! ## Keys -/

/-- How many levels values may nest, and how many parts a key may have, and one more. -/
def maxDepth : Nat := 80

/-- A part of a key: quoted on one line, or a row of letters, digits, hyphens and underscores. -/
def takeKeyPart? : List Char → Option (String × List Char)
  | '"' :: rest => (takeBasic? rest).map fun (cs, rest) => (String.ofList cs, rest)
  | '\'' :: rest => (takeLiteral? rest).map fun (cs, rest) => (String.ofList cs, rest)
  | s =>
    let isBare := fun c : Char => c.isAlphanum || c = '-' || c = '_'
    let bare := s.takeWhile isBare
    if bare = [] then none else some (String.ofList bare, s.dropWhile isBare)

/-- The parts of a dotted key and the blanks around them. There are fewer than `fuel`. -/
def takeKey? : Nat → List Char → Option (List String × List Char)
  | 0, _ => none
  | fuel + 1, s => do
    let (part, rest) ← takeKeyPart? (dropBlanks s)
    match dropBlanks rest with
    | '.' :: rest =>
      let (parts, rest) ← takeKey? fuel rest
      return (part :: parts, rest)
    | rest => return ([part], rest)

/-! ## Values -/

mutual

/-- The value at the front of a text. `depth` bounds the nesting, `fuel` the number of
steps. -/
def takeValue? (depth : Nat) : Nat → List Char → Option (Toml × List Char)
  | 0, _ => none
  | fuel + 1, s =>
    match s with
    | '[' :: rest =>
      if depth ≤ 1 then none
      else do
        let (items, rest) ← takeItems? (depth - 1) fuel rest
        return (array items, rest)
    | '\x7b' :: rest =>
      if depth ≤ 1 then none
      else
        match dropBlanks rest with
        | '\x7d' :: rest => some (table [], rest)
        | rest => do
          let (assignments, rest) ← takeMembers? (depth - 1) fuel rest
          let entries ← Entries.assignAll assignments []
          return (table (Entries.finish entries), rest)
    | 't' :: 'r' :: 'u' :: 'e' :: rest => some (bool true, rest)
    | 'f' :: 'a' :: 'l' :: 's' :: 'e' :: rest => some (bool false, rest)
    | '"' :: _ | '\'' :: _ => (takeString? s).map fun (text, rest) => (string text, rest)
    | _ => (takeTime? s).or (takeNumber? s)

/-- The items of an array up to its closing bracket. A comma may stand behind the last. -/
def takeItems? (depth : Nat) : Nat → List Char → Option (List Toml × List Char)
  | 0, _ => none
  | fuel + 1, s =>
    match dropLines false s with
    | ']' :: rest => some ([], rest)
    | s => do
      let (item, rest) ← takeValue? depth fuel s
      match dropLines false rest with
      | ',' :: rest =>
        let (items, rest) ← takeItems? depth fuel rest
        return (item :: items, rest)
      | ']' :: rest => return ([item], rest)
      | _ => none

/-- The keys and values of a table in braces, up to its closing brace. -/
def takeMembers? (depth : Nat) : Nat → List Char → Option (List (List String × Toml) × List Char)
  | 0, _ => none
  | fuel + 1, s => do
    let (key, rest) ← takeKey? (maxDepth - 1) s
    match rest with
    | '=' :: rest =>
      let (value, rest) ← takeValue? depth fuel (dropBlanks rest)
      match dropBlanks rest with
      | ',' :: rest =>
        let (members, rest) ← takeMembers? depth fuel rest
        return ((key, value) :: members, rest)
      | '\x7d' :: rest => return ([(key, value)], rest)
      | _ => none
    | _ => none

end

/-! ## Documents -/

/-- A line that says something. -/
inductive Line where
  /-- `[path]`, or with `several` `[[path]]`. -/
  | header (several : Bool) (path : List String)
  | assignment (path : List String) (value : Toml)

/-- The line at the front of a text, with the end of the line. -/
def takeLine? (s : List Char) : Option (Line × List Char) :=
  match s with
  | '[' :: '[' :: rest => do
    let (path, rest) ← takeKey? (maxDepth - 1) rest
    match rest with
    | ']' :: ']' :: rest => return (.header true path, ← takeLineEnd? rest)
    | _ => none
  | '[' :: rest => do
    let (path, rest) ← takeKey? (maxDepth - 1) rest
    match rest with
    | ']' :: rest => return (.header false path, ← takeLineEnd? rest)
    | _ => none
  | s => do
    let (path, rest) ← takeKey? (maxDepth - 1) s
    match rest with
    | '=' :: rest =>
      let rest := dropBlanks rest
      let (value, rest) ← takeValue? maxDepth (2 * rest.length + 2) rest
      return (.assignment path value, ← takeLineEnd? rest)
    | _ => none

/-- The lines of a text. Every line takes a character, so as many steps as characters do. -/
def takeLines? : Nat → List Char → Option (List Line)
  | 0, _ => none
  | fuel + 1, s =>
    match dropLines false s with
    | [] => some []
    | s => do
      let (line, rest) ← takeLine? s
      return line :: (← takeLines? fuel rest)

/-- The assignments before the first header, and the headers with the assignments behind
them. -/
def sections : List Line →
    List (List String × Toml) × List (Bool × List String × List (List String × Toml))
  | [] => ([], [])
  | .assignment path value :: rest =>
    let (front, later) := sections rest
    ((path, value) :: front, later)
  | .header several path :: rest =>
    let (front, later) := sections rest
    ([], (several, path, front) :: later)

/-- Put the lines of a document together. -/
def ofLines? (lines : List Line) : Option (List (String × Toml)) := do
  let (front, later) := sections lines
  let entries ← Entries.assignAll front []
  let entries ← later.foldlM (fun entries (several, path, assignments) =>
    Entries.openTable several (Entries.assignAll assignments) path entries) entries
  return Entries.finish entries

/-- Read a document. A byte order mark at its front is dropped. -/
def parse? (text : String) : Option (List (String × Toml)) := do
  let s := match text.toList with
    | '\ufeff' :: rest => rest
    | s => s
  ofLines? (← takeLines? (s.length + 1) s)

end SpecTree.Toml
