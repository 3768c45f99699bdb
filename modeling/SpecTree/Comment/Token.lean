import SpecTree.Comment.Kind
import SpecTree.Comment.Line

/-!
# Comment tokens

What a scanner reads: one token for each comment line, except that a declaration or an item
takes the prose lines that follow it into its text.
-/

namespace SpecTree

/-- The meaning of one or several comment lines. -/
inductive TokenKind where
  | blank
  | prose (text : String)
  | declaration (text : String)
  | item (text : String)
  | keyword (k : Keyword)
  | header (name : String)
deriving DecidableEq

/-- A token and the number of its first line. -/
structure Token where
  line : Nat
  kind : TokenKind
deriving DecidableEq

namespace Token

/-- The text of a prose line. -/
def proseText? (t : Token) : Option String :=
  match t.kind with
  | .prose text => some text
  | _ => none

/-- The text of a line and of the prose lines behind it, with single spaces between them. -/
def joined (text : String) (later : List Token) : String :=
  " ".intercalate (Text.trimmed text :: (later.takeWhile (·.proseText?.isSome)).filterMap proseText?)

/-- The tokens of comment lines. -/
def ofLines : List CommentLine → List Token
  | [] => []
  | line :: lines =>
    let later := ofLines lines
    let withoutProse := later.dropWhile (·.proseText?.isSome)
    match LineKind.ofText line.text with
    | .blank => ⟨line.number, .blank⟩ :: later
    | .prose => ⟨line.number, .prose (Text.trimmed line.text)⟩ :: later
    | .header name => ⟨line.number, .header name⟩ :: later
    | .keyword k => ⟨line.number, .keyword k⟩ :: later
    | .declaration => ⟨line.number, .declaration (joined line.text later)⟩ :: withoutProse
    | .item => ⟨line.number, .item (joined line.text later)⟩ :: withoutProse

end Token

end SpecTree
