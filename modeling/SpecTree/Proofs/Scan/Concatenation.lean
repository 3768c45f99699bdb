import SpecTree.Proofs.Scan.Append
import SpecTree.Proofs.Text

/-!
# Source texts behind one another

A source text that ends with a line, and outside of comments, can be put in front of another one
whose comments start with a header: both are read as they are read alone. Main statements:

* `Text.lines_append`, `CommentLine.extract_append`: lines, and comment lines;
* `Token.ofLines_append`: tokens;
* `Definition.readSource_append`: definitions and errors.
-/

namespace SpecTree

/-! ## Lines -/

namespace Text

theorem lines_append_newline (s t : List Char) :
    lines (s ++ '\n' :: t) = (splitOnChar '\n' s).map dropReturn ++ lines t := by
  have ht := splitOnChar_ne_nil '\n' t
  unfold lines
  dsimp only
  rw [splitOnChar_append, List.dropLast_append_of_ne_nil ht, List.getLast?_append_of_ne_nil _ ht,
    List.map_append, List.append_assoc]

/-- The lines of a text that ends with a line come before those of the text behind it. -/
theorem lines_append {s : List Char} (hs : s = [] ∨ s.getLast? = some '\n') (t : List Char) :
    lines (s ++ t) = lines s ++ lines t := by
  rcases hs with rfl | hs
  · rfl
  · obtain ⟨before, rfl⟩ := List.getLast?_eq_some_iff.1 hs
    have hnil : lines [] = [] := rfl
    rw [List.append_assoc, List.singleton_append, lines_append_newline, lines_append_newline, hnil,
      List.append_nil]

end Text

/-! ## Comment lines -/

namespace CommentLine

variable {f : Nat → Nat}

/-- Is a comment open after a line? -/
def openAfterLine (inside : Bool) (line : List Char) : Bool :=
  match if inside then some line else Text.afterPrefix? "/*!".toList (Text.trim line) with
  | none => false
  | some body => (Text.cutAt? "*/".toList body).isNone

/-- Is a comment open after lines? -/
def openAfter (inside : Bool) (lines : List (List Char)) : Bool := lines.foldl openAfterLine inside

/-- The part of a line that is comment text. -/
def textIn? (inside : Bool) (line : List Char) : Option (List Char) :=
  (if inside then some line else Text.afterPrefix? "/*!".toList (Text.trim line)).map fun body =>
    ((Text.cutAt? "*/".toList body).map (·.1)).getD body

/-- What a line gives, and whether the next one stands in a comment. -/
theorem extractFrom_cons (inside : Bool) (number : Nat) (line : List Char)
    (lines : List (List Char)) :
    extractFrom inside number (line :: lines) =
      ((textIn? inside line).map fun text => ⟨String.ofList text, number⟩).toList ++
        extractFrom (openAfterLine inside line) (number + 1) lines := by
  unfold openAfterLine textIn?
  rw [extractFrom]
  cases if inside then some line else Text.afterPrefix? "/*!".toList (Text.trim line) with
  | none => rfl
  | some body =>
    dsimp only [Option.map_some]
    cases Text.cutAt? "*/".toList body <;> rfl

theorem extractFrom_append (inside : Bool) (number : Nat) (lines later : List (List Char)) :
    extractFrom inside number (lines ++ later) =
      extractFrom inside number lines ++
        extractFrom (openAfter inside lines) (number + lines.length) later := by
  induction lines generalizing inside number with
  | nil => rfl
  | cons line lines ih =>
    have hopen : openAfter inside (line :: lines) = openAfter (openAfterLine inside line) lines := rfl
    have hnumber : number + (line :: lines).length = number + 1 + lines.length := by
      rw [List.length_cons]
      omega
    rw [List.cons_append, extractFrom_cons, extractFrom_cons, ih, hopen, hnumber, List.append_assoc]

theorem extractFrom_add (inside : Bool) (number k : Nat) (lines : List (List Char)) :
    extractFrom inside (number + k) lines =
      (extractFrom inside number lines).map (renumber (· + k)) := by
  induction lines generalizing inside number with
  | nil => rfl
  | cons line lines ih =>
    have hnumber : number + k + 1 = number + 1 + k := by omega
    rw [extractFrom_cons, extractFrom_cons, hnumber, ih, List.map_append]
    cases textIn? inside line <;> rfl

/-- The comment lines of a text that ends outside of comments come before those of the text behind
it, which stand further down. -/
theorem extract_append {a b : String} (hend : a = "" ∨ a.toList.getLast? = some '\n')
    (hclosed : openAfter false (Text.lines a.toList) = false) :
    extract (a ++ b) =
      extract a ++ (extract b).map (renumber (· + (Text.lines a.toList).length)) := by
  have hnil : a.toList = [] ∨ a.toList.getLast? = some '\n' :=
    hend.imp_left (congrArg String.toList)
  unfold extract
  rw [String.toList_append, Text.lines_append hnil, extractFrom_append, hclosed, extractFrom_add]

end CommentLine

/-! ## Tokens -/

namespace Token

theorem takeWhile_append_of_head {p : Token → Bool} {us : List Token}
    (hus : ∀ t ∈ us.head?, p t = false) (ts : List Token) :
    (ts ++ us).takeWhile p = ts.takeWhile p ∧ (ts ++ us).dropWhile p = ts.dropWhile p ++ us := by
  induction ts with
  | nil => cases us with
    | nil => exact ⟨rfl, rfl⟩
    | cons t us => simp [hus t rfl]
  | cons t ts ih => cases ht : p t <;> simp [ht, ih]

/-- Prose at the front would go on with the text of a declaration before it. -/
theorem ofLines_append {later : List CommentLine} (hlater : ∀ l ∈ later.head?, l.kind ≠ .prose)
    (lines : List CommentLine) : ofLines (lines ++ later) = ofLines lines ++ ofLines later := by
  have hhead : ∀ t ∈ (ofLines later).head?, t.proseText?.isSome = false := by
    intro t ht
    cases later with
    | nil => cases ht
    | cons l later =>
      have hl := hlater l rfl
      unfold CommentLine.kind at hl
      unfold ofLines at ht
      cases hk : LineKind.ofText l.text <;> simp_all [proseText?] <;> (subst ht; rfl)
  induction lines with
  | nil => rfl
  | cons l lines ih =>
    obtain ⟨htake, hdrop⟩ := takeWhile_append_of_head hhead (ofLines lines)
    have hjoined : joined l.text (ofLines lines ++ ofLines later) = joined l.text (ofLines lines) := by
      unfold joined
      rw [htake]
    simp only [List.cons_append, ofLines, ih, hjoined, hdrop]
    cases LineKind.ofText l.text <;> rfl

/-- The first mark of the tokens is that of the lines. -/
theorem beforeHeader_ofLines {lines : List CommentLine}
    (h : ∀ l ∈ lines.find? (·.kind.isMarker), ∃ name, l.kind = .header name) :
    BeforeHeader (ofLines lines) := by
  induction lines with
  | nil =>
    intro t ht
    cases ht
  | cons l lines ih =>
    by_cases hmarker : l.kind.isMarker = true
    · obtain ⟨name, hname⟩ := h l (List.find?_cons_of_pos hmarker)
      have hfront : fromFirstMark (ofLines (l :: lines)) =
          ⟨l.number, .header name⟩ :: ofLines lines := by
        unfold CommentLine.kind at hname
        simp [ofLines, hname, fromFirstMark_cons, isUnmarked, proseText?]
      intro t ht
      rw [hfront] at ht
      cases ht
      exact ⟨name, rfl⟩
    · -- a line that marks nothing is passed over on both sides:
      have hskip : (l :: lines).find? (·.kind.isMarker) = lines.find? (·.kind.isMarker) :=
        List.find?_cons_of_neg hmarker
      rw [hskip] at h
      refine (ih h).congr ?_
      unfold CommentLine.kind at hmarker
      cases hk : LineKind.ofText l.text <;>
        simp_all [LineKind.isMarker, ofLines, fromFirstMark_cons, isUnmarked, proseText?]

theorem BeforeHeader.renumber {ts : List Token} (h : BeforeHeader ts) (f : Nat → Nat) :
    BeforeHeader (ts.map (Token.renumber f)) := by
  have hfront : fromFirstMark (ts.map (Token.renumber f)) =
      (fromFirstMark ts).map (Token.renumber f) := List.dropWhile_map ..
  unfold BeforeHeader
  rw [hfront, List.head?_map]
  intro u hu
  obtain ⟨t, ht, rfl⟩ := Option.map_eq_some_iff.1 hu
  exact h t ht

end Token

/-! ## Definitions -/

namespace Definition

/-- Lines are read in the same way under other numbers. The last one of them has the last number,
also if others stand above. -/
theorem readLines_renumber (f : Nat → Nat) (file stem : String) (above lines : List CommentLine) :
    Scope.readAll file stem
        (((above ++ lines.map (CommentLine.renumber f)).getLast?.map (·.number)).getD 0)
        (Token.ofLines (lines.map (CommentLine.renumber f))) =
      renumbered f (List.map (renumber f)) (readLines file stem lines) := by
  rw [Token.ofLines_renumber]
  unfold readLines
  cases lines with
  | nil => rw [Token.ofLines, List.map_nil, List.map_nil, Scope.readAll_nil, Scope.readAll_nil]; rfl
  | cons l lines =>
    have hne : (l :: lines).map (CommentLine.renumber f) ≠ [] := List.cons_ne_nil _ _
    rw [List.getLast?_append_of_ne_nil _ hne, List.getLast?_map,
      List.getLast?_eq_some_getLast (List.cons_ne_nil l lines)]
    exact Scope.readAll_renumber file stem ((l :: lines).getLast (List.cons_ne_nil l lines)).number
      (Token.ofLines (l :: lines))

/-- **Source texts compose.** Behind a text that can be read, ends with a line and leaves no comment
open, a text that starts with a header is read as it is read alone, further down: its definitions
follow those of the first text, and its error is the error of both. -/
theorem readSource_append {file stem a b : String} {ds : List Definition}
    (hend : a = "" ∨ a.toList.getLast? = some '\n')
    (hclosed : CommentLine.openAfter false (Text.lines a.toList) = false)
    (ha : readSource file stem a = .ok ds)
    (hfirst : ∀ l ∈ (CommentLine.extract b).head?, l.kind = .blank ∨ ∃ name, l.kind = .header name)
    (hmarker : ∀ l ∈ (CommentLine.extract b).find? (·.kind.isMarker), ∃ name, l.kind = .header name) :
    let shift := (· + (Text.lines a.toList).length)
    (∀ es, readSource file stem b = .ok es →
        readSource file stem (a ++ b) = .ok (ds ++ es.map (renumber shift))) ∧
      ∀ e, readSource file stem b = .error e →
        readSource file stem (a ++ b) = .error (e.renumber shift) := by
  intro shift
  -- no prose is gathered across the seam:
  have hprose : ∀ l ∈ ((CommentLine.extract b).map (CommentLine.renumber shift)).head?,
      l.kind ≠ .prose := by
    intro u hu
    rw [List.head?_map] at hu
    obtain ⟨l, hl, rfl⟩ := Option.map_eq_some_iff.1 hu
    rw [CommentLine.kind_renumber]
    rcases hfirst l hl with hblank | ⟨name, hheader⟩
    · simp [hblank]
    · simp [hheader]
  -- the second text begins with a header:
  have hheader : Token.BeforeHeader
      (Token.ofLines ((CommentLine.extract b).map (CommentLine.renumber shift))) := by
    rw [Token.ofLines_renumber]
    exact (Token.beforeHeader_ofLines hmarker).renumber shift
  -- so it is read as the scopes behind those of the first one, on later lines:
  have hread : readSource file stem (a ++ b) =
      renumbered shift (fun es => ds ++ es.map (renumber shift)) (readSource file stem b) := by
    unfold readSource at ha ⊢
    rw [CommentLine.extract_append hend hclosed]
    unfold readLines at ha
    rw [readLines, Token.ofLines_append hprose, Scope.readAll_append hheader ha, readLines_renumber]
    cases readLines file stem (CommentLine.extract b) <;> rfl
  constructor
  · intro es hes
    rw [hread, hes]
    rfl
  · intro e he
    rw [hread, he]
    rfl

/-- A parameter whose text goes on, and a list without items at the end. -/
def exampleAbove : String := "/*! * `\"x`\" ``[int]`` about\n  x\n KEYS */\n"

def exampleBelow : String := "/*! ``[b-spec]``\n* `\"y`\" ``[int]`` */"

/-- A block that is not closed. -/
def exampleUnclosed : String := "/*! ``[c-spec]``\n ONE OF */"

/-- A comment that starts with a header starts with a mark. -/
theorem header_of_head? (lines : List CommentLine) (name : String)
    (h : lines.head?.map (·.kind) = some (.header name)) :
    (∀ l ∈ lines.head?, l.kind = .blank ∨ ∃ name, l.kind = .header name) ∧
      ∀ l ∈ lines.find? (·.kind.isMarker), ∃ name, l.kind = .header name := by
  obtain ⟨l, hl, hname⟩ := Option.map_eq_some_iff.1 h
  obtain ⟨later, rfl⟩ := List.head?_eq_some_iff.1 hl
  have hfind : (l :: later).find? (·.kind.isMarker) = some l :=
    List.find?_cons_of_pos (by rw [hname]; rfl)
  rw [hl, hfind]
  refine ⟨fun u hu => ?_, fun u hu => ?_⟩
  · cases hu
    exact .inr ⟨name, hname⟩
  · cases hu
    exact ⟨name, hname⟩

theorem readSource_append_exampleAbove :
    ∃ ds es : List Definition, ds.map (·.name) = ["example-spec"] ∧ es.map (·.name) = ["b-spec"] ∧
      readSource "example.hh" "example" (exampleAbove ++ exampleBelow) =
        .ok (ds ++ es.map (renumber (· + 3))) ∧
      readSource "example.hh" "example" (exampleAbove ++ exampleUnclosed) =
        .error ⟨some "c-spec", "example.hh", 5, .unclosedOneOf 5⟩ := by
  have habove : (readSource "example.hh" "example" exampleAbove).map (·.map (·.name)) =
      .ok ["example-spec"] := by decide +kernel
  have hbelow : (readSource "example.hh" "example" exampleBelow).map (·.map (·.name)) =
      .ok ["b-spec"] := by decide +kernel
  have hunclosed : readSource "example.hh" "example" exampleUnclosed =
      .error ⟨some "c-spec", "example.hh", 2, .unclosedOneOf 2⟩ := by decide +kernel
  obtain ⟨hend, hclosed, hlines⟩ : exampleAbove.toList.getLast? = some '\n' ∧
      CommentLine.openAfter false (Text.lines exampleAbove.toList) = false ∧
      (Text.lines exampleAbove.toList).length = 3 := by decide +kernel
  obtain ⟨ds, hds, hdsNames⟩ := map_eq_ok.1 habove
  obtain ⟨es, hes, hesNames⟩ := map_eq_ok.1 hbelow
  obtain ⟨hfirst, hmarker⟩ := header_of_head? (CommentLine.extract exampleBelow) "b-spec"
    (by decide +kernel)
  obtain ⟨hfirst', hmarker'⟩ := header_of_head? (CommentLine.extract exampleUnclosed) "c-spec"
    (by decide +kernel)
  have hok := (readSource_append (.inr hend) hclosed hds hfirst hmarker).1 es hes
  have herror := (readSource_append (.inr hend) hclosed hds hfirst' hmarker').2 _ hunclosed
  rw [hlines] at hok herror
  exact ⟨ds, es, hdsNames, hesNames, hok, herror⟩

end Definition

end SpecTree
