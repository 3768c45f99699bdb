import SpecTree.Text.Cut
import SpecTree.Text.Blank

/-!
# Kinds of comment lines

A comment line declares a parameter, names a spec, opens or closes a block or a list, is an
item of a list, or is prose.
-/

namespace SpecTree

/-- The words that open, divide and close blocks and lists. -/
inductive Keyword where
  | oneOf | or | close | condition | whenTrue | whenFalse
  | evaluators | keys | includes | dependencies
deriving DecidableEq

namespace Keyword

/-- The spellings of a keyword, the usual one first. -/
def spellings : Keyword → String × List String
  | oneOf => ("ONE OF", [])
  | or => ("OR", [])
  | close => ("END", [])
  | condition => ("IF", [])
  | whenTrue => ("THEN", [])
  | whenFalse => ("ELSE", [])
  | evaluators => ("EVALUATORS", ["EVALUATOR"])
  | keys => ("KEYS", [])
  | includes => ("INCLUDES", [])
  | dependencies => ("DEPENDENCIES", [])

/-- The usual spelling. -/
def name (k : Keyword) : String := k.spellings.1

/-- All keywords. -/
def all : List Keyword :=
  [oneOf, or, close, condition, whenTrue, whenFalse, evaluators, keys, includes, dependencies]

/-- Does a line start with the word, alone or before a colon or white space? -/
def opens (word : String) (line : List Char) : Bool :=
  match Text.afterPrefix? word.toList line with
  | some [] => true
  | some (c :: _) => c = ':' || Text.isBlank c
  | none => false

/-- The keyword that a line starts with. -/
def ofLine? (line : List Char) : Option Keyword :=
  all.find? fun k => opens k.name line || k.spellings.2.any (opens · line)

end Keyword

/-- What a comment line means. -/
inductive LineKind where
  | blank
  /-- A `*` that starts a declaration. -/
  | declaration
  /-- A `-` that starts an item of a list. -/
  | item
  | keyword (k : Keyword)
  /-- The name of the spec that the lines below describe. -/
  | header (name : String)
  | prose
deriving DecidableEq

namespace LineKind

/-- Does the line mean anything to the scanner? -/
def isMarker : LineKind → Bool
  | blank | prose => false
  | _ => true

/-- The name in a header line, bracketed or after the word for a framed paragraph. -/
def headerName? (line : List Char) : Option String :=
  match Text.afterPrefix? "``[".toList line with
  | some rest =>
    let name := match Text.cutAt? "]``".toList rest with
      | some (before, _) => before
      | none => rest
    some (String.ofList (Text.trim name))
  | none =>
    (Text.afterPrefix? ".. admonition::".toList line).map fun rest =>
      let colonless := (((Text.trim rest).dropWhile (· = ':')).reverse.dropWhile (· = ':')).reverse
      String.ofList (Text.trim colonless)

/-- The kind of a line, whatever white space surrounds it. -/
def ofText (text : String) : LineKind :=
  let line := Text.trim text.toList
  if line = [] then blank
  else match headerName? line with
    | some name => header name
    | none =>
      if Text.startsWith ['*'] line && !Text.startsWith ['*', '*'] line then declaration
      else if line = ['-'] ∨ Text.startsWith ['-', ' '] line then item
      else match Keyword.ofLine? line with
        | some k => keyword k
        | none => prose

end LineKind

end SpecTree
