import SpecTree.Text.Cut
import SpecTree.Text.Blank

/-!
# Documentation comments

The lines of a source text that stand between `/*!` and `*/`. The rest of an opening line
and the front of a closing line belong to the comment, and the comments of a text follow
one another in one list.
-/

namespace SpecTree

/-- A line of comment text and the number of the source line it stands on. -/
structure CommentLine where
  text : String
  number : Nat
deriving DecidableEq

namespace CommentLine

/-- The comment lines among source lines, of which the first has the given number. `inside`
says whether a comment is open. -/
def extractFrom (inside : Bool) (number : Nat) : List (List Char) → List CommentLine
  | [] => []
  | line :: rest =>
    let opened := if inside then some line else Text.afterPrefix? "/*!".toList (Text.trim line)
    match opened with
    | none => extractFrom false (number + 1) rest
    | some body =>
      match Text.cutAt? "*/".toList body with
      | some (before, _) => ⟨String.ofList before, number⟩ :: extractFrom false (number + 1) rest
      | none => ⟨String.ofList body, number⟩ :: extractFrom true (number + 1) rest

/-- The comment lines of a source text. -/
def extract (source : String) : List CommentLine :=
  extractFrom false 1 (Text.lines source.toList)

/-- Lines of comment text, numbered from one. -/
def numbered (texts : List String) : List CommentLine :=
  texts.zipIdx.map fun (text, i) => ⟨text, i + 1⟩

end CommentLine

end SpecTree
