import SpecTree.Tree.Xml
import Mathlib.Data.List.Forall2

/-!
# Reading XML back

The text of a tree says all that its elements say. An attribute ends with the first quote, since
none is left inside one, and every character in it is escaped in its own way. A list ends with the
first line that is indented no further than its own tag, since its children are. So a text that
begins with an element begins with no other (`XmlElement.same_of_render_append`), and trees that
are written alike have the same name and elements: `Node.toXml_eq_iff`.
-/

namespace SpecTree

/-- No two primitive types have one name. -/
theorem Primitive.name_injective : Function.Injective Primitive.name := by
  rintro (s | s) (t | t) h <;> cases s <;> cases t <;>
    first | rfl | exact absurd h (by decide)

namespace XmlElement

/-! ## What elements say -/

/-- Elements are the same if they are nested and named alike and their values have the same types
and texts. -/
inductive Same : XmlElement → XmlElement → Prop
  | parameter {name : String} {value value' : Value} (htype : value.type = value'.type)
      (htext : value.toText = value'.toText) :
      Same (.parameter name value) (.parameter name value')
  | list {name : String} {children children' : List XmlElement}
      (hchildren : List.Forall₂ Same children children') :
      Same (.list name children) (.list name children')

mutual

/-- What elements say is all that is written of them. -/
theorem render_of_same {e e' : XmlElement} (h : Same e e') (level : Nat) :
    e.render level = e'.render level := by
  cases h with
  | parameter htype htext => simp only [render, htype, htext]
  | list hchildren => simp only [render, renderAll_of_same hchildren]

theorem renderAll_of_same {es es' : List XmlElement} (h : List.Forall₂ Same es es')
    (level : Nat) : renderAll level es = renderAll level es' := by
  cases h with
  | nil => rfl
  | cons hhead htail => simp only [renderAll, render_of_same hhead, renderAll_of_same htail]

end

/-! ## Attributes -/

/-- A text up to its first quote, read back from what it was escaped to, and what stands behind
the quote. -/
def readQuoted? : List Char → Option (List Char × List Char)
  | [] => none
  | '"' :: rest => some ([], rest)
  | '&' :: 'l' :: 't' :: ';' :: rest => (readQuoted? rest).map (Prod.map ('<' :: ·) id)
  | '&' :: 'g' :: 't' :: ';' :: rest => (readQuoted? rest).map (Prod.map ('>' :: ·) id)
  | '&' :: 'a' :: 'm' :: 'p' :: ';' :: rest => (readQuoted? rest).map (Prod.map ('&' :: ·) id)
  | '&' :: 'a' :: 'p' :: 'o' :: 's' :: ';' :: rest =>
    (readQuoted? rest).map (Prod.map ('\'' :: ·) id)
  | '&' :: 'q' :: 'u' :: 'o' :: 't' :: ';' :: rest =>
    (readQuoted? rest).map (Prod.map ('"' :: ·) id)
  | c :: rest => (readQuoted? rest).map (Prod.map (c :: ·) id)

/-- An escaped character is read back. -/
theorem readQuoted?_escapeChar (c : Char) (rest : List Char) :
    readQuoted? (escapeChar c ++ rest) = (readQuoted? rest).map (Prod.map (c :: ·) id) := by
  unfold escapeChar
  split
  · simp [readQuoted?]
  · simp [readQuoted?]
  · simp [readQuoted?]
  · simp [readQuoted?]
  · simp [readQuoted?]
  · next hamp _ hquot =>
    -- any other character stands for itself: it is no quote, and no entity begins with it
    rw [List.singleton_append, readQuoted?]
    · exact hquot
    all_goals exact fun _ h => absurd h hamp

/-- An escaped text is read back whole, up to the quote behind it. -/
theorem readQuoted?_escaped (cs rest : List Char) :
    readQuoted? (cs.flatMap escapeChar ++ '"' :: rest) = some (cs, rest) := by
  induction cs with
  | nil => simp [readQuoted?]
  | cons c cs ih =>
    rw [List.flatMap_cons, List.append_assoc, readQuoted?_escapeChar, ih]
    rfl

/-- An attribute is written as its name and its escaped value between quotes. -/
theorem toList_attr (name value : String) :
    (attr name value).toList =
      ' ' :: (name.toList ++ ("=\"".toList ++ (value.toList.flatMap escapeChar ++ ['"']))) := by
  simp [attr, escape]

/-- The value of an attribute can be read off, and so can what follows. -/
theorem eq_of_attr_append {name value value' : String} {r r' : List Char}
    (h : (attr name value).toList ++ r = (attr name value').toList ++ r') :
    value = value' ∧ r = r' := by
  simp only [toList_attr, List.cons_append, List.append_assoc, List.cons.injEq, true_and,
    List.append_cancel_left_eq, List.nil_append] at h
  have hread := congrArg readQuoted? h
  rw [readQuoted?_escaped, readQuoted?_escaped] at hread
  obtain ⟨hvalue, hrest⟩ := Prod.mk.inj (Option.some.inj hread)
  exact ⟨String.toList_inj.1 hvalue, hrest⟩

/-! ## Lines -/

theorem toList_pushn (s : String) (c : Char) (n : Nat) :
    (s.pushn c n).toList = s.toList ++ List.replicate n c := by
  induction n with
  | zero => exact (List.append_nil _).symm
  | succ n ih =>
    show ((s.pushn c n).push c).toList = _
    rw [String.toList_push, ih, List.replicate_succ', List.append_assoc]

theorem toList_line (level : Nat) (text : String) :
    (line level text).toList = List.replicate (2 * level) ' ' ++ (text.toList ++ ['\n']) := by
  simp [line, toList_pushn]

/-- The line that ends a list. -/
def closing (level : Nat) : List Char := (line level "</ParameterList>").toList

/-- A parameter is written on one line, with its name, its type and its value. -/
theorem toList_render_parameter (level : Nat) (name : String) (value : Value) (r : List Char) :
    (render level (.parameter name value)).toList ++ r =
      List.replicate (2 * level) ' ' ++ ("<Parameter".toList ++ ((attr "name" name).toList ++
        ((attr "type" value.type.name).toList ++ ((attr "value" value.toText).toList ++
          ("/>\n".toList ++ r))))) := by
  simp [render, toList_line]

/-- A list is written around its children. -/
theorem toList_render_list (level : Nat) (name : String) (children : List XmlElement)
    (r : List Char) :
    (render level (.list name children)).toList ++ r =
      List.replicate (2 * level) ' ' ++ ("<ParameterList".toList ++ ((attr "name" name).toList ++
        ((attr "type" "ParameterList").toList ++ (">\n".toList ++
          ((renderAll (level + 1) children).toList ++ (closing level ++ r)))))) := by
  simp [render, toList_line, closing]

theorem toList_renderAll_cons (level : Nat) (e : XmlElement) (es : List XmlElement)
    (r : List Char) :
    (renderAll level (e :: es)).toList ++ r =
      (render level e).toList ++ ((renderAll level es).toList ++ r) := by
  simp [renderAll]

/-- The line of a tag is told from the line that ends the list around it by its indentation. -/
theorem closing_append_ne_render_append {level : Nat} {e : XmlElement} {r r' : List Char} :
    closing level ++ r ≠ (render (level + 1) e).toList ++ r' := by
  have hspaces : List.replicate (2 * (level + 1)) ' ' =
      List.replicate (2 * level) ' ' ++ [' ', ' '] := by
    rw [Nat.mul_add, List.replicate_add]
    rfl
  intro h
  -- past the indentation of the end of the list a blank would have to be the bracket of a tag
  cases e with
  | parameter name value =>
    rw [toList_render_parameter, closing, toList_line, hspaces, List.append_assoc,
      List.append_assoc, List.append_assoc, List.append_cancel_left_eq] at h
    exact absurd (List.cons.inj h).1 (by decide)
  | list name children =>
    rw [toList_render_list, closing, toList_line, hspaces, List.append_assoc, List.append_assoc,
      List.append_assoc, List.append_cancel_left_eq] at h
    exact absurd (List.cons.inj h).1 (by decide)

/-- The tag of a parameter is told from that of a list by what stands behind its first letters. -/
theorem render_parameter_append_ne_render_list_append {level : Nat} {name name' : String}
    {value : Value} {children : List XmlElement} {r r' : List Char} :
    (render level (.parameter name value)).toList ++ r ≠
      (render level (.list name' children)).toList ++ r' := by
  have htag : "<ParameterList".toList = "<Parameter".toList ++ "List".toList := by decide
  intro h
  rw [toList_render_parameter, toList_render_list, htag, List.append_cancel_left_eq,
    List.append_assoc, List.append_cancel_left_eq, toList_attr, toList_attr] at h
  exact absurd (List.cons.inj h).1 (by decide)

/-! ## Elements -/

mutual

/-- A text that begins with an element begins with no other, and the rest of it is as given. -/
theorem same_of_render_append {level : Nat} {e e' : XmlElement} {r r' : List Char}
    (h : (render level e).toList ++ r = (render level e').toList ++ r') : Same e e' ∧ r = r' := by
  match e, e', h with
  | .parameter name value, .parameter name' value', h =>
    rw [toList_render_parameter, toList_render_parameter, List.append_cancel_left_eq,
      List.append_cancel_left_eq] at h
    obtain ⟨rfl, htail⟩ := eq_of_attr_append h
    obtain ⟨htype, htail⟩ := eq_of_attr_append htail
    obtain ⟨htext, htail⟩ := eq_of_attr_append htail
    -- the type is written by its name, and no other type has that name
    exact ⟨.parameter (Primitive.name_injective htype) htext, List.append_cancel_left htail⟩
  | .list name children, .list name' children', h =>
    rw [toList_render_list, toList_render_list, List.append_cancel_left_eq,
      List.append_cancel_left_eq] at h
    obtain ⟨rfl, htail⟩ := eq_of_attr_append h
    obtain ⟨-, htail⟩ := eq_of_attr_append htail
    obtain ⟨hchildren, hrest⟩ := same_of_renderAll_append (List.append_cancel_left htail)
    exact ⟨.list hchildren, hrest⟩
  | .parameter .., .list .., h =>
    exact absurd h render_parameter_append_ne_render_list_append
  | .list .., .parameter .., h =>
    exact absurd h.symm render_parameter_append_ne_render_list_append

/-- The same of the elements of a list: they end with the line that ends the list. -/
theorem same_of_renderAll_append {level : Nat} {es es' : List XmlElement} {r r' : List Char}
    (h : (renderAll (level + 1) es).toList ++ (closing level ++ r) =
      (renderAll (level + 1) es').toList ++ (closing level ++ r')) :
    List.Forall₂ Same es es' ∧ r = r' := by
  match es, es' with
  | [], [] => exact ⟨.nil, List.append_cancel_left (List.append_cancel_left h)⟩
  | e :: es, e' :: es' =>
    rw [toList_renderAll_cons, toList_renderAll_cons] at h
    obtain ⟨hhead, h⟩ := same_of_render_append h
    obtain ⟨htail, hrest⟩ := same_of_renderAll_append h
    exact ⟨.cons hhead htail, hrest⟩
  | [], e' :: es' =>
    rw [toList_renderAll_cons] at h
    exact absurd h closing_append_ne_render_append
  | e :: es, [] =>
    rw [toList_renderAll_cons] at h
    exact absurd h.symm closing_append_ne_render_append

end

/-- Elements are written alike exactly if they say the same. -/
theorem render_eq_iff {level : Nat} {e e' : XmlElement} :
    e.render level = e'.render level ↔ Same e e' :=
  ⟨fun h => (same_of_render_append (congrArg (·.toList ++ []) h)).1, (render_of_same · level)⟩

end XmlElement

/-- Trees are written alike exactly if they have the same name and the same elements, in the same
order. Names and values may hold any characters. -/
theorem Node.toXml_eq_iff (name name' : String) (n n' : Node) :
    n.toXml name = n'.toXml name' ↔
      name = name' ∧ List.Forall₂ XmlElement.Same n.xmlElements n'.xmlElements := by
  rw [toXml, toXml, XmlElement.render_eq_iff]
  constructor
  · rintro ⟨⟩
    exact ⟨rfl, ‹_›⟩
  · rintro ⟨rfl, h⟩
    exact .list h

end SpecTree
