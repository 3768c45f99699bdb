import Mathlib.Tactic.Common
import SpecTree.Definition.Scope

/-!
# Marks

What a comment says to the scanner, line by line: blank lines and prose say nothing of their
own, every other line is a mark. The text of a declaration or an item goes on through the prose
that stands directly below it. Main statements: `Token.marks_ofLines`, `Token.itemRun_ofLines`
and `Token.listItems_ofLines`, the tokens of a comment say what its lines say.
-/

namespace SpecTree

namespace Keyword

/-- Does the word open a list of items? -/
def opensList : Keyword → Bool
  | evaluators | keys | includes | dependencies => true
  | _ => false

/-- Does the word divide or close a block? -/
def endsBranch : Keyword → Bool
  | or | close | whenTrue | whenFalse => true
  | _ => false

end Keyword

namespace CommentLine

def kind (l : CommentLine) : LineKind := LineKind.ofText l.text

/-- The text that starts on a line, with the prose directly below it. -/
def gathered (l : CommentLine) (below : List CommentLine) : String :=
  " ".intercalate ((l :: below.takeWhile (·.kind = .prose)).map (Text.trimmed ·.text))

/-- The items that follow one another, with the line of each. -/
def itemRun : List CommentLine → List (String × Nat)
  | [] => []
  | l :: below =>
    match l.kind with
    | .item => (l.gathered below, l.number) :: itemRun below
    | .prose => itemRun below
    | _ => []

/-- The items of the list that a line opens, given the lines below it. Blank lines may stand
before the first item, prose may not. -/
def listed (below : List CommentLine) : List (String × Nat) :=
  match below.dropWhile (·.kind = .blank) with
  | [] => []
  | l :: later => if l.kind = .item then itemRun (l :: later) else []

/-- The items of all the lists. -/
def listItems : List CommentLine → List (String × Nat)
  | [] => []
  | l :: below =>
    match l.kind with
    | .keyword k => (if k.opensList then listed below else []) ++ listItems below
    | _ => listItems below

end CommentLine

/-- What a line says to the scanner. A declaration is read already. -/
inductive Mark where
  | header (name : String)
  | declaration (read : Except DeclarationFault Declared)
  | item
  | keyword (k : Keyword)

namespace Mark

/-- The mark of a line, given the lines below it. -/
def ofLine? (file : String) (l : CommentLine) (below : List CommentLine) : Option Mark :=
  match l.kind with
  | .blank | .prose => none
  | .header name => some (header name)
  | .declaration => some (declaration (Declaration.read ⟨file, l.number⟩ (l.gathered below)))
  | .item => some item
  | .keyword k => some (keyword k)

/-- The marks of comment lines, in order. -/
def ofLines (file : String) : List CommentLine → List Mark
  | [] => []
  | l :: below => (ofLine? file l below).toList ++ ofLines file below

end Mark

namespace Token

/-- The mark of a token. -/
def mark? (file : String) (t : Token) : Option Mark :=
  match t.kind with
  | .blank | .prose _ => none
  | .header name => some (.header name)
  | .declaration text => some (.declaration (Declaration.read ⟨file, t.line⟩ text))
  | .item _ => some .item
  | .keyword k => some (.keyword k)

/-- Is it a blank line, or prose? -/
def isUnmarked (t : Token) : Bool := t.kind = .blank ∨ t.proseText?.isSome

/-- The tokens from the first mark on. -/
def fromFirstMark (ts : List Token) : List Token := ts.dropWhile isUnmarked

/-- The marks of tokens, in order. -/
def marks (file : String) (ts : List Token) : List Mark := ts.filterMap (mark? file)

/-- The items at the front, with the line of each. -/
def itemRun : List Token → List (String × Nat)
  | [] => []
  | t :: rest =>
    match t.kind with
    | .item text => (text, t.line) :: itemRun rest
    | _ => []

/-- The items of the list that is opened before the tokens. -/
def listed (ts : List Token) : List (String × Nat) := itemRun (ts.dropWhile (·.kind = .blank))

/-- The items of all the lists. -/
def listItems : List Token → List (String × Nat)
  | [] => []
  | t :: rest =>
    match t.kind with
    | .keyword k => (if k.opensList then listed rest else []) ++ listItems rest
    | _ => listItems rest

/-! ## From lines to tokens -/

variable {file : String}

@[simp] theorem marks_nil : marks file [] = [] := rfl

theorem marks_append (ts us : List Token) : marks file (ts ++ us) = marks file ts ++ marks file us :=
  List.filterMap_append

/-- The marks are that of the first token, if it has one, and those of the others. -/
theorem marks_cons (t : Token) (ts : List Token) :
    marks file (t :: ts) = (t.mark? file).toList ++ marks file ts := by
  unfold marks
  cases h : t.mark? file with
  | none => rw [List.filterMap_cons_none h]; rfl
  | some m => rw [List.filterMap_cons_some h]; rfl

/-- A token has no mark if it is blank or prose. -/
theorem mark?_eq_none {t : Token} : t.mark? file = none ↔ t.isUnmarked := by
  cases hk : t.kind <;> simp [mark?, isUnmarked, proseText?, hk]

/-- There are no marks before the first one. -/
theorem marks_takeWhile_isUnmarked (ts : List Token) : marks file (ts.takeWhile isUnmarked) = [] := by
  apply List.filterMap_eq_nil_iff.2
  intro t ht
  have hunmarked : t.isUnmarked := List.all_eq_true.1 List.all_takeWhile t ht
  exact mark?_eq_none.2 hunmarked

/-- From the first mark on there are all of them. -/
theorem marks_fromFirstMark (ts : List Token) : marks file (fromFirstMark ts) = marks file ts := by
  have hts : ts.takeWhile isUnmarked ++ fromFirstMark ts = ts := List.takeWhile_append_dropWhile
  conv_rhs => rw [← hts]
  rw [marks_append, marks_takeWhile_isUnmarked, List.nil_append]

/-- Prose tokens, and what is read of them: exactly the prose lines at the front. -/
theorem proseTexts_ofLines (lines : List CommentLine) :
    ((ofLines lines).takeWhile (·.proseText?.isSome)).filterMap proseText?
      = (lines.takeWhile (·.kind = .prose)).map (Text.trimmed ·.text) := by
  induction lines with
  | nil => rfl
  | cons l below ih => cases h : l.kind <;> simp_all [ofLines, proseText?, CommentLine.kind]

/-- A line is joined with the prose that is gathered below it. -/
theorem joined_ofLines (l : CommentLine) (below : List CommentLine) :
    joined l.text (ofLines below) = l.gathered below := by
  unfold joined CommentLine.gathered
  rw [proseTexts_ofLines, List.map_cons]

/-- Prose has no mark. -/
theorem marks_dropProse (ts : List Token) :
    marks file (ts.dropWhile (·.proseText?.isSome)) = marks file ts := by
  induction ts with
  | nil => rfl
  | cons t ts ih =>
    rw [List.dropWhile_cons]
    split
    · next hprose =>
      have hmark : t.mark? file = none := mark?_eq_none.2 (by simp [isUnmarked, hprose])
      rw [ih, marks_cons, hmark]
      rfl
    · rfl

/-- **The marks of the tokens are those of the lines.** -/
theorem marks_ofLines (lines : List CommentLine) :
    marks file (ofLines lines) = Mark.ofLines file lines := by
  induction lines with
  | nil => rfl
  | cons l below ih =>
    cases h : l.kind <;> unfold CommentLine.kind at h <;>
      simp_all [ofLines, Mark.ofLines, Mark.ofLine?, CommentLine.kind, marks_cons, marks_dropProse,
        joined_ofLines, mark?]

/-- The items at the front go on through prose. -/
theorem itemRun_ofLines (lines : List CommentLine) :
    itemRun ((ofLines lines).dropWhile (·.proseText?.isSome)) = CommentLine.itemRun lines := by
  induction lines with
  | nil => rfl
  | cons l below ih =>
    cases h : l.kind <;> unfold CommentLine.itemRun <;> unfold CommentLine.kind at h <;>
      simp_all [ofLines, itemRun, proseText?, CommentLine.kind, joined_ofLines]

/-- Blank lines make blank tokens. -/
theorem dropBlank_ofLines (lines : List CommentLine) :
    (ofLines lines).dropWhile (·.kind = .blank) = ofLines (lines.dropWhile (·.kind = .blank)) := by
  induction lines with
  | nil => rfl
  | cons l below ih => cases h : l.kind <;> simp_all [ofLines, CommentLine.kind]

/-- The items below a line are those of its tokens. -/
theorem listed_ofLines (lines : List CommentLine) :
    listed (ofLines lines) = CommentLine.listed lines := by
  unfold listed CommentLine.listed
  rw [dropBlank_ofLines]
  cases hdrop : lines.dropWhile (·.kind = .blank) with
  | nil => rfl
  | cons l later =>
    have run := itemRun_ofLines (l :: later)
    cases h : l.kind <;> unfold CommentLine.kind at h <;>
      simp_all [ofLines, itemRun, proseText?, CommentLine.kind]

/-- Prose is in no list. -/
theorem listItems_dropProse (ts : List Token) :
    listItems (ts.dropWhile (·.proseText?.isSome)) = listItems ts := by
  induction ts with
  | nil => rfl
  | cons t ts ih => cases h : t.kind <;> simp_all [listItems, proseText?]

/-- **The items in the lists of the tokens are those in the lists of the lines.** -/
theorem listItems_ofLines (lines : List CommentLine) :
    listItems (ofLines lines) = CommentLine.listItems lines := by
  induction lines with
  | nil => rfl
  | cons l below ih =>
    cases h : l.kind <;> unfold CommentLine.listItems <;> unfold CommentLine.kind at h <;>
      simp_all [ofLines, listItems, CommentLine.kind, listItems_dropProse, listed_ofLines]

end Token

end SpecTree
