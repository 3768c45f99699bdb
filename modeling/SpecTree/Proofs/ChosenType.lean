import SpecTree.Proofs.Declared
import SpecTree.Proofs.Filling.Kind
import SpecTree.Proofs.Headed
import SpecTree.Proofs.Suffix.Alternative
import SpecTree.Proofs.Text
import SpecTree.Proofs.Xml

/-!
# Chosen types in what is written

Under the placements where the type is a parameter it is written first, before anything else of the
choice. Under the others it is not written at all, but the list that the variant makes is named for
it, once the variant holds a value; and nothing else that the choice declares later has a name like
that. So types can be told apart in what is written, unless they are not written.
Main statements:

* `Naming.hyphenate_of_dash`: types that are told apart before they are hyphenated;
* `Node.lasting_announced`: a type that is a parameter comes first;
* `Node.stepwise_grown`: what a choice declares after operations;
* `Node.xmlElements_of_setType`: a type that is no parameter leaves no trace of its own;
* `Registry.toXml_ne_of_types`: different types are written differently.
-/

namespace SpecTree

/-! ## The names of nested lists -/

namespace Naming

/-- Does the text begin with white space? -/
def startsBlank (s : String) : Bool := s.toList.head?.any Text.isBlank

/-- Texts that are hyphenated alike behind a dash are hyphenated alike, unless one of them begins
with a blank: that is trimmed only at the beginning. -/
theorem hyphenate_of_dash {field s t : String} (hs : startsBlank s = false)
    (ht : startsBlank t = false) (h : hyphenate (field ++ "-" ++ s) = hyphenate (field ++ "-" ++ t)) :
    hyphenate s = hyphenate t := by
  have hstart : ∀ {s}, startsBlank s = false → Text.trim s.toList = Text.trimEnd s.toList := by
    intro s hs
    unfold startsBlank at hs
    unfold Text.trim
    cases hlist : s.toList with
    | nil => rfl
    | cons c cs =>
      rw [hlist] at hs
      rw [Text.trimStart_cons hs]
  have hdash : ∀ s : String, (field ++ "-" ++ s).toList = field.toList ++ '-' :: s.toList := by
    intro s
    simp
  unfold hyphenate at h ⊢
  rw [hdash, hdash, Text.trim_append_cons (by decide), Text.trim_append_cons (by decide),
    String.ofList_inj, List.map_append, List.map_append, List.append_cancel_left_eq,
    List.map_cons, List.map_cons, List.cons.injEq] at h
  rw [hstart hs, hstart ht, h.2]

end Naming

namespace Choice

variable {ν : Type}

/-- The name of the list that a variant makes where the type is no parameter. -/
def nestedKey (c : Choice ν) (type : String) : String :=
  if c.placement = .sublistDash then Naming.hyphenate (c.field ++ "-" ++ type)
  else c.field ++ ": " ++ type

/-- Lists of different types have different names. -/
theorem nestedKey_ne {c : Choice ν} {s t : String}
    (hblank : c.placement = .sublistDash →
      Naming.startsBlank s = false ∧ Naming.startsBlank t = false)
    (htypes : Naming.hyphenate s ≠ Naming.hyphenate t) : c.nestedKey s ≠ c.nestedKey t := by
  unfold nestedKey
  split
  · next hdash => exact fun h => htypes (Naming.hyphenate_of_dash (hblank hdash).1 (hblank hdash).2 h)
  · intro h
    have hlist := congrArg String.toList h
    simp only [String.toList_append, List.append_cancel_left_eq] at hlist
    exact htypes (congrArg _ (String.toList_inj.1 hlist))

end Choice

/-! ## Types that are parameters -/

namespace Choice

variable {catalog : Catalog} {c c' : Choice Node} {type : String}

/-- The parameter that holds the type. -/
def typeParameter (c : Choice Node) : Parameter Node :=
  { Parameter.primitive c.selector (.scalar .string) with value := c.selected.map .string }

/-- Does the body begin with the type, if that is a parameter? -/
def Announced (c : Choice Node) : Prop :=
  c.placement.hasTypeParameter = true → c.body.HeadedBy c.typeParameter

theorem announced_ofField (name field : String) (placement : Placement)
    (others : Option (Spec Node)) : Announced (.ofField name field placement others) := by
  intro hplacement
  have hplacement : placement.hasTypeParameter = true := hplacement
  let p : Parameter Node := Parameter.primitive (selectorOf field) (.scalar .string)
  have hown : Spec.HeadedBy ((Spec.ofName name).push (.collection (Collection.ofList [p]))) p :=
    ⟨Collection.ofList [p], [], rfl, rfl⟩
  show Spec.HeadedBy (ofField name field placement others).body p
  unfold ofField
  simp only [if_pos hplacement]
  cases others with
  | none => exact hown
  | some others => exact hown.merge _

/-- A type that is chosen is written to the first parameter, and the variant comes behind it. -/
theorem Announced.setType (h : c.Announced) (hset : Choice.setType catalog type c = .ok () c') :
    c'.Announced := by
  obtain ⟨variant, node, body, -, hwrite, rfl⟩ := setType_eq_ok hset
  intro hplacement
  rw [placement_chosen] at hplacement
  have hselector : (c.chosen type variant node body).selector = c.selector :=
    congrArg selectorOf (field_chosen c type variant node body)
  have htype : (c.chosen type variant node body).typeParameter
      = { c.typeParameter with value := some (.string type) } := by
    unfold typeParameter
    rw [hselector]
    rfl
  have hbody : body.HeadedBy { c.typeParameter with value := some (.string type) } := by
    rcases Spec.headedBy_of_set (h hplacement) (set_of_writeType hplacement hwrite) with
      ⟨hkey, -⟩ | ⟨-, w, hw, hhead⟩
    · exact absurd rfl hkey
    · -- a string is kept as it is
      cases hw
      exact hhead
  rw [htype]
  -- the variant goes behind the selector, wherever it is put:
  rcases chosen_cases c type variant node body with ⟨-, -, heq⟩ | ⟨s, -, heq⟩ | ⟨k, heq⟩
  · rw [heq]
    exact hbody.insertFixed (selector_ne c.field type)
  · rw [heq]
    exact hbody.merge s
  · rw [heq]
    exact hbody.push _

end Choice

namespace Node

variable {catalog : Catalog} {n : Node}

/-- If the node is a choice whose type is a parameter, it begins with the type. -/
def Announced : Node → Prop
  | choice c => c.Announced
  | spec _ | list _ => True

/-- **A type that is a parameter comes first.** -/
theorem lasting_announced (catalog : Catalog) : Lasting catalog Announced where
  generic := trivial
  list _ _ := trivial
  spec _ _ := trivial
  choice name field placement others _ := Choice.announced_ofField name field placement others
  set {n n' key value} _ h hset := by
    cases written_of_set hset with
    | spec | list => trivial
    | type hkey hpart => exact h.setType hpart
    | body hkey hpart =>
      intro hplacement
      -- the selector is not the key that is written:
      rcases Spec.headedBy_of_set (h hplacement) hpart with ⟨-, hhead⟩ | ⟨heq, -⟩
      · exact hhead
      · exact absurd heq hkey
  append {n n' name} _ happend := by
    obtain ⟨l, l', rfl, rfl, -⟩ := appendEmpty_eq_ok happend
    trivial
  within {n key α} act _ h := by
    cases n with
    | spec s =>
      rw [Edit.stateAfter_of_through (within_spec key act s)]
      trivial
    | list l =>
      rw [Edit.stateAfter_of_through (within_list key act l)]
      trivial
    | choice c =>
      rw [Edit.stateAfter_of_through (within_choice key act c)]
      exact fun hplacement => Spec.headedBy_within act (h hplacement) rfl

end Node

/-! ## What a choice declares -/

namespace Choice

variable {catalog : Catalog} {c c' c'' : Choice Node} {type key : String} {value : Value}

/-- What operations make of a choice: the type is chosen once, and where it is no parameter nothing
is declared but the list of its variant. -/
structure Grown (c c' : Choice Node) : Prop where
  field : c'.field = c.field
  placement : c'.placement = c.placement
  unknown : c'.body.unknown = c.body.unknown
  selected : ∀ type, c.selected = some type → c'.selected = some type
  declares : c.placement.hasTypeParameter = false → c.body.unknown = .error →
    ∀ k, c'.body.contains k = true →
      c.body.contains k = true ∨ ∃ type, c'.selected = some type ∧ k = c.nestedKey type

theorem Grown.refl (c : Choice Node) : Grown c c :=
  ⟨rfl, rfl, rfl, fun _ => id, fun _ _ _ => .inl⟩

theorem Grown.nestedKey (h : Grown c c') : c'.nestedKey = c.nestedKey := by
  funext type
  unfold Choice.nestedKey
  rw [h.field, h.placement]

theorem Grown.trans (h : Grown c c') (h' : Grown c' c'') : Grown c c'' where
  field := h'.field.trans h.field
  placement := h'.placement.trans h.placement
  unknown := h'.unknown.trans h.unknown
  selected type hselected := h'.selected type (h.selected type hselected)
  declares hplacement hunknown k hk := by
    rcases h'.declares (h.placement ▸ hplacement) (h.unknown.trans hunknown) k hk with
      hbefore | ⟨type, hselected, hkey⟩
    · rcases h.declares hplacement hunknown k hbefore with hfirst | ⟨type, hselected, hkey⟩
      · exact .inl hfirst
      · exact .inr ⟨type, h'.selected type hselected, hkey⟩
    · exact .inr ⟨type, hselected, hkey.trans (congrFun h.nestedKey type)⟩

/-- An edit of the body that declares nothing. -/
theorem grown_body {body : Spec Node} (hunknown : body.unknown = c.body.unknown)
    (hcontains : c.body.unknown = .error → ∀ k, body.contains k = true → c.body.contains k = true) :
    Grown c { c with body } :=
  ⟨rfl, rfl, hunknown, fun _ => id, fun _ herror k hk => .inl (hcontains herror k hk)⟩

/-- Where the type is no parameter the variant makes a list of its own. -/
theorem body_chosen (type variant : String) (node : Node) (body : Spec Node)
    (hplacement : c.placement.hasTypeParameter = false) :
    (c.chosen type variant node body).body = body.push
      (.collection (Collection.ofList [Parameter.derived (c.nestedKey type) variant node])) := by
  obtain ⟨name, field, placement, body', selected⟩ := c
  cases placement with
  | standard | inline => cases hplacement
  | sublist | sublistDash => rfl

theorem contains_chosen {variant k : String} {node : Node} {body : Spec Node}
    (hplacement : c.placement.hasTypeParameter = false)
    (hk : (c.chosen type variant node body).body.contains k = true) :
    body.contains k = true ∨ k = c.nestedKey type := by
  rw [body_chosen type variant node body hplacement, Spec.contains, Spec.push, List.any_append,
    Bool.or_eq_true] at hk
  refine hk.imp id fun hlast => ?_
  rw [List.any_cons, List.any_nil, Bool.or_false] at hlast
  have hname := (Collection.contains_ofList_singleton _ k).symm.trans hlast
  exact (of_decide_eq_true hname).symm

theorem grown_of_setType (hset : Choice.setType catalog type c = .ok () c') : Grown c c' := by
  obtain ⟨variant, node, body, hvariant, hwrite, rfl⟩ := setType_eq_ok hset
  have hnone : c.selected = none := (variantFor_eq_ok.1 hvariant).1
  refine ⟨field_chosen c type variant node body, placement_chosen c type variant node body, ?_, ?_,
    ?_⟩
  · have hbody : body.unknown = c.body.unknown := by
      rcases writeType_cases hwrite with ⟨-, hset⟩ | ⟨-, rfl⟩
      · exact Spec.unknown_of_set hset
      · rfl
    refine Eq.trans ?_ hbody
    rcases chosen_cases c type variant node body with ⟨-, -, heq⟩ | ⟨s, -, heq⟩ | ⟨k, heq⟩ <;>
      rw [heq] <;> rfl
  · intro current hcurrent
    rw [hnone] at hcurrent
    cases hcurrent
  · intro hplacement _ k hk
    obtain rfl := eq_of_writeType hplacement hwrite
    exact (contains_chosen hplacement hk).imp id fun hkey => ⟨type, rfl, hkey⟩

end Choice

namespace Node

/-- **What a choice declares later** is the list of its variant, where the type is no parameter. -/
theorem stepwise_grown (catalog : Catalog) : Stepwise catalog fun _ n n' =>
    ∀ c, n = .choice c → ∃ c', n' = .choice c' ∧ c.Grown c' where
  refl n c hc := ⟨c, hc, .refl c⟩
  trans h h' c hc := by
    obtain ⟨c', hc', hgrown⟩ := h c hc
    obtain ⟨c'', hc'', hgrown'⟩ := h' c' hc'
    exact ⟨c'', hc'', hgrown.trans hgrown'⟩
  set n key value c hc := by
    cases hset : Node.set catalog key value n with
    | error e n' =>
      rw [Edit.stateAfter_of_error hset, set_error hset]
      exact ⟨c, hc, .refl c⟩
    | ok u n' =>
      rw [Edit.stateAfter_of_ok hset]
      subst hc
      cases written_of_set hset with
      | type _ hpart => exact ⟨_, rfl, Choice.grown_of_setType hpart⟩
      | body _ hpart =>
        exact ⟨_, rfl, Choice.grown_body (Spec.unknown_of_set hpart)
          fun herror k => Spec.contains_of_set herror hpart⟩
  append n name c hc := by
    subst hc
    exact ⟨c, rfl, .refl c⟩
  within n key α act _ _ c hc := by
    subst hc
    rw [Edit.stateAfter_of_through (within_choice key act c)]
    exact ⟨_, rfl, Choice.grown_body (Spec.unknown_within key act c.body)
      fun _ k => Spec.contains_of_within key act⟩

end Node

/-! ## What is written -/

namespace XmlElement

/-- The name of a parameter or of a list. -/
def name : XmlElement → String
  | parameter name _ => name
  | list name _ => name

theorem Same.name_eq {e e' : XmlElement} (h : Same e e') : e.name = e'.name := by
  cases h <;> rfl

/-- A parameter that holds a value is written as one element, of its name. -/
theorem map_name_ofSlot {p : Parameter Node} (h : p.hasValue = true) :
    (ofSlot p).map name = [p.name] := by
  unfold ofSlot
  split
  · rfl
  · rfl
  · next hvalue hnode =>
    unfold Parameter.hasValue at h
    split at h
    · rw [hvalue] at h
      cases h
    · rw [hnode] at h
      cases h

end XmlElement

theorem Spec.of_mem_valued {s : Spec Node} {p : Parameter Node} (h : p ∈ s.valued) :
    p.hasValue = true ∧ s.contains p.name = true := by
  rw [valued_eq] at h
  have hfound := Parameter.find?_of_mem (Parameter.distinct_distinct _) h
  have hmem := Parameter.mem_of_find? ((find?_listed _ s p.name).symm.trans hfound)
  obtain ⟨hshown, hvalue⟩ := List.mem_filter.1 hmem
  refine ⟨hvalue, ?_⟩
  obtain ⟨q, hq⟩ : ∃ q, s.parameter? p.name = some q := by
    rw [parameter?_eq, ← Option.isSome_iff_exists, Parameter.find?, List.find?_isSome]
    exact ⟨p, hshown, decide_eq_true rfl⟩
  exact contains_of_parameter? hq

namespace Node

/-- What is written is named for the parameters that hold a value. -/
theorem map_name_xmlElements (c : Choice Node) :
    (choice c).xmlElements.map XmlElement.name = c.body.valued.map (·.name) := by
  rw [xmlElements_eq, List.map_flatMap, List.map_eq_flatMap]
  exact List.flatMap_congr fun p hp =>
    XmlElement.map_name_ofSlot (Spec.of_mem_valued hp).1

/-- Trees that are written alike have the same elements. -/
theorem same_of_toXml_eq {name name' : String} {n n' : Node} (h : n.toXml name = n'.toXml name') :
    List.Forall₂ XmlElement.Same n.xmlElements n'.xmlElements := by
  rw [toXml, toXml, XmlElement.render_eq_iff] at h
  cases h with
  | list hchildren => exact hchildren

theorem names_of_toXml_eq {name name' : String} {c c' : Choice Node}
    (h : (choice c).toXml name = (choice c').toXml name') :
    c.body.valued.map (·.name) = c'.body.valued.map (·.name) := by
  rw [← map_name_xmlElements, ← map_name_xmlElements, ← List.forall₂_eq_eq_eq,
    List.forall₂_map_left_iff, List.forall₂_map_right_iff]
  exact (same_of_toXml_eq h).imp fun _ _ hsame => hsame.name_eq

/-- Where the type is a parameter it is written first. -/
theorem head?_xmlElements {c : Choice Node} {type : String} (h : c.Announced)
    (hplacement : c.placement.hasTypeParameter = true) (hselected : c.selected = some type) :
    (choice c).xmlElements.head? = some (.parameter c.selector (.string type)) := by
  have hvalue : c.typeParameter.hasValue = true := by
    show (c.selected.map Value.string).isSome = true
    rw [hselected]
    rfl
  obtain ⟨ps, hps⟩ := List.head?_eq_some_iff.1 ((h hplacement).head?_valued hvalue)
  have hslot : XmlElement.ofSlot c.typeParameter = [.parameter c.selector (.string type)] := by
    unfold Choice.typeParameter
    rw [hselected]
    rfl
  rw [xmlElements_eq, show (choice c).valued = c.typeParameter :: ps from hps, List.flatMap_cons,
    hslot]
  rfl

/-- Where the type is no parameter, nothing is written when it is chosen: the variant is empty. -/
theorem xmlElements_of_setType {catalog : Catalog} {c c' : Choice Node} {type : String}
    (hplacement : c.placement.hasTypeParameter = false)
    (hset : Choice.setType catalog type c = .ok () c') :
    (choice c').xmlElements = (choice c).xmlElements := by
  obtain ⟨variant, node, body, hvariant, hwrite, rfl⟩ := Choice.setType_eq_ok hset
  obtain rfl := Choice.eq_of_writeType hplacement hwrite
  have hfresh : (Parameter.derived (c.nestedKey type) variant node).hasValue = false :=
    (Catalog.fresh_of_build (Choice.variantFor_eq_ok.1 hvariant).2.2).hasValue
  have hvalued : (c.chosen type variant node c.body).body.valued = c.body.valued := by
    rw [Choice.body_chosen type variant node c.body hplacement, Spec.valued_eq, Spec.valued_eq]
    show Parameter.distinct ((c.body.components ++ [_]).flatMap _) = _
    rw [List.flatMap_append, List.flatMap_singleton]
    show Parameter.distinct (_ ++ List.filter _ [_]) = _
    rw [List.filter_cons_of_neg (Bool.not_eq_true _ ▸ hfresh), List.filter_nil, List.append_nil]
    rfl
  rw [xmlElements_eq, xmlElements_eq]
  exact congrArg (List.flatMap XmlElement.ofSlot) hvalued

end Node

/-! ## Types told apart -/

/-- Types that are parameters are the same if they are written alike: each is the first element. -/
theorem Choice.Announced.eq_of_toXml_eq {d d' : Choice Node} {list list' type type' : String}
    (h : d.Announced) (h' : d'.Announced) (hplacement : d.placement.hasTypeParameter = true)
    (hplacement' : d'.placement.hasTypeParameter = true) (hselectors : d.selector = d'.selector)
    (hselected : d.selected = some type) (hselected' : d'.selected = some type')
    (hsame : (Node.choice d).toXml list = (Node.choice d').toXml list') : type = type' := by
  have hhead := Node.head?_xmlElements h hplacement hselected
  have hhead' := Node.head?_xmlElements h' hplacement' hselected'
  obtain ⟨es, hes⟩ := List.head?_eq_some_iff.1 hhead
  obtain ⟨es', hes'⟩ := List.head?_eq_some_iff.1 hhead'
  have hforall := Node.same_of_toXml_eq hsame
  rw [hes, hes', hselectors] at hforall
  cases hforall with
  | cons hfirst _ =>
    cases hfirst with
    | parameter _ htext => exact htext

/-- Can the type of a choice be told from what is written of the node that came of it? It is a
parameter, or the list that is named for it, and that the choice did not declare, holds a value. -/
def Choice.records (c : Choice Node) (type : String) (n : Node) : Bool :=
  c.placement.hasTypeParameter ||
    (!c.body.contains (c.nestedKey type) && n.valued.any (·.name = c.nestedKey type))

/-- A type that has a list with a value is not written like another. -/
theorem Choice.Grown.names_ne {c d d' : Choice Node} {type type' : String} (h : c.Grown d')
    (hplacement : c.placement.hasTypeParameter = false) (hunknown : c.body.unknown = .error)
    (hselected : d'.selected = some type') (hkeys : c.nestedKey type ≠ c.nestedKey type')
    (hrecords : c.records type (.choice d) = true) :
    d.body.valued.map (·.name) ≠ d'.body.valued.map (·.name) := by
  intro hnames
  unfold Choice.records at hrecords
  rw [hplacement, Bool.false_or, Bool.and_eq_true, Bool.not_eq_true'] at hrecords
  obtain ⟨hnew, hvalue⟩ := hrecords
  obtain ⟨p, hp, hname⟩ := List.any_eq_true.1 hvalue
  have hmem : c.nestedKey type ∈ d'.body.valued.map (·.name) := by
    rw [← hnames, ← of_decide_eq_true hname]
    exact List.mem_map_of_mem hp
  obtain ⟨q, hq, hqname⟩ := List.mem_map.1 hmem
  have hdeclared : d'.body.contains (c.nestedKey type) = true :=
    hqname ▸ (Spec.of_mem_valued hq).2
  -- what is declared there was so before, or it is the list of the other type
  rcases h.declares hplacement hunknown _ hdeclared with hbefore | ⟨other, hother, hkey⟩
  · rw [hnew] at hbefore
    cases hbefore
  · rw [hselected] at hother
    cases hother
    exact hkeys hkey

/-- A choice takes no unknown keys. -/
theorem Catalog.unknown_of_build {catalog : Catalog} {path : List String} {name : String}
    {c : Choice Node} (h : catalog.buildBelow path name = .ok (.choice c)) :
    c.body.unknown = .error := by
  have hofField : ∀ field placement others,
      (Choice.ofField name field placement others : Choice Node).body.unknown = .error := by
    intro field placement others
    unfold Choice.ofField
    cases others <;> cases placement <;> rfl
  fun_induction Catalog.buildBelow catalog path name with
  | case1 => cases h
  | case2 => cases h
  | case3 => cases h
  | case4 => cases h
  | case5 => cases h
  | case6 =>
    obtain ⟨s, -, hrest⟩ := bind_eq_ok.1 h
    split at hrest
    · cases hrest
      exact hofField _ _ _
    · cases hrest
  | case7 =>
    cases h
    exact hofField _ _ _
  | case8 => cases h

namespace Registry

variable {r : Registry} {c : Choice Node} {n n' : Node} {name type type' : String}

/-- **Different types are written differently.** Of two runs from one fresh choice, in which types
were chosen that are not the same when hyphenated, the trees are written differently, if the type
is a parameter, or if the list of one of the types holds a value. -/
theorem toXml_ne_of_types {operations operations' : List Operation}
    (hget : r.get name = .ok (.choice c))
    (hrun : Operation.applyAll r.catalog operations (.choice c) = n)
    (hrun' : Operation.applyAll r.catalog operations' (.choice c) = n')
    (hselected : n.selected? = some type) (hselected' : n'.selected? = some type')
    (htypes : Naming.hyphenate type ≠ Naming.hyphenate type')
    (hblank : c.placement = .sublistDash →
      Naming.startsBlank type = false ∧ Naming.startsBlank type' = false)
    (hrecords : c.records type n = true ∨ c.records type' n' = true) (list list' : String) :
    n.toXml list ≠ n'.toXml list' := by
  intro hsame
  have hstep := Node.stepwise_grown r.catalog
  obtain ⟨d, rfl, hd⟩ : ∃ d, n = .choice d ∧ c.Grown d :=
    hrun ▸ hstep.applyAll operations (.choice c) c rfl
  obtain ⟨d', rfl, hd'⟩ : ∃ d', n' = .choice d' ∧ c.Grown d' :=
    hrun' ▸ hstep.applyAll operations' (.choice c) c rfl
  have hnames := Node.names_of_toXml_eq hsame
  -- a selector writes the type itself, without one it is in the key of the variant:
  cases hplacement : c.placement.hasTypeParameter with
  | true =>
    have hreach := fun os => (Node.lasting_announced r.catalog).reachable
      ((Reachable.get hget).run os)
    have hfirst : d.Announced := by
      have hhere := (hreach operations).here
      rwa [hrun] at hhere
    have hfirst' : d'.Announced := by
      have hhere := (hreach operations').here
      rwa [hrun'] at hhere
    have hselectors : d.selector = d'.selector :=
      congrArg Choice.selectorOf (hd.field.trans hd'.field.symm)
    have htype := hfirst.eq_of_toXml_eq hfirst' (hd.placement ▸ hplacement)
      (hd'.placement ▸ hplacement) hselectors hselected hselected' hsame
    exact htypes (congrArg Naming.hyphenate htype)
  | false =>
    have hunknown := Catalog.unknown_of_build (build_of_get hget)
    have hkeys := Choice.nestedKey_ne hblank htypes
    rcases hrecords with hrecords | hrecords
    · exact hd'.names_ne hplacement hunknown hselected' hkeys hrecords hnames
    · exact hd.names_ne hplacement hunknown hselected hkeys.symm hrecords hnames.symm

/-- Types that are told apart by a dash. -/
def exampleNested : Registry :=
  ofLines ["``[my-a-spec]``", "* `\"x`\" ``[int]``", "", "``[my--a-spec]``", "* `\"x`\" ``[int]``"]

/-- A choice with a parameter of the name that the list of a variant has. -/
def exampleClash : Registry :=
  ofLines ["``[my-typedsublist-spec]``", "* `\"my: a`\" ``[int]``", "", "``[my-a-spec]``",
    "* `\"x`\" ``[int]``", "", "``[my-b-spec]``", "* `\"x`\" ``[int]``"]

theorem exists_choice_of_get (r : Registry) (name : String) (test : Choice Node → Bool)
    (h : (match r.get name with
      | .ok (.choice c) => test c
      | _ => false) = true) : ∃ c, r.get name = .ok (.choice c) ∧ test c = true := by
  split at h
  · next c hget => exact ⟨c, hget, h⟩
  · cases h

theorem toXml_ne_of_types_exampleNested : ∃ (c : Choice Node) (n n' : Node),
    exampleNested.get "my-typedsublist-spec" = .ok (.choice c) ∧
      n.selected? = some "a" ∧ n'.selected? = some "-a" ∧ c.records "a" n = true ∧
      n.toXml "my" ≠ n'.toXml "my" := by
  let operations := [Operation.set "my type" (.string "a"), .within "my: a" [.set "x" (.int 1)]]
  let operations' := [Operation.set "my type" (.string "-a")]
  let after := fun os c => Operation.applyAll exampleNested.catalog os (.choice c)
  obtain ⟨c, hget, hrun⟩ := exists_choice_of_get exampleNested "my-typedsublist-spec"
    (fun c => (after operations c).selected? = some "a" ∧
      (after operations' c).selected? = some "-a" ∧ c.placement ≠ .sublistDash ∧
      c.records "a" (after operations c) = true)
    (by decide +kernel)
  obtain ⟨htype, htype', hplacement, hrecords⟩ := of_decide_eq_true hrun
  have hne := toXml_ne_of_types hget rfl rfl htype htype' (by decide)
    (fun hdash => absurd hdash hplacement) (.inl hrecords) "my" "my"
  exact ⟨c, _, _, hget, htype, htype', hrecords, hne⟩

/-- Are there two runs from a fresh tree that choose types that are not the same when hyphenated,
and end in trees that are written alike? -/
def WrittenAlike (r : Registry) (name : String) (operations operations' : List Operation) : Prop :=
  ∃ n type type', r.get name = .ok n ∧
    (Operation.applyAll r.catalog operations n).selected? = some type ∧
    (Operation.applyAll r.catalog operations' n).selected? = some type' ∧
    Naming.hyphenate type ≠ Naming.hyphenate type' ∧
    (Operation.applyAll r.catalog operations n).toXml name
      = (Operation.applyAll r.catalog operations' n).toXml name

theorem writtenAlike_of_get {operations operations' : List Operation} (type type' : String)
    (h : (match r.get name with
      | .ok n => decide ((Operation.applyAll r.catalog operations n).selected? = some type ∧
          (Operation.applyAll r.catalog operations' n).selected? = some type' ∧
          Naming.hyphenate type ≠ Naming.hyphenate type' ∧
          (Operation.applyAll r.catalog operations n).toXml name
            = (Operation.applyAll r.catalog operations' n).toXml name)
      | .error _ => false) = true) : r.WrittenAlike name operations operations' := by
  obtain ⟨n, hget, hrun⟩ := exists_of_get r name _ h
  exact ⟨n, type, type', hget, of_decide_eq_true hrun⟩

/-- Types are written alike if their lists are empty, if a blank at the beginning of one is written
like a dash, or if the list that is written is a parameter of another kind. -/
theorem toXml_eq_of_types :
    exampleNested.WrittenAlike "my-typedsublist-spec"
      [.set "my type" (.string "a")] [.set "my type" (.string "-a")] ∧
    exampleNested.WrittenAlike "my-typedsublistdash-spec"
      [.set "my type" (.string " a"), .within "my--a" [.set "x" (.int 1)]]
      [.set "my type" (.string "-a"), .within "my--a" [.set "x" (.int 1)]] ∧
    exampleClash.WrittenAlike "my-typedsublist-spec"
      [.set "my: a" (.int 1), .set "my type" (.string "a")]
      [.set "my: a" (.int 1), .set "my type" (.string "b")] :=
  ⟨writtenAlike_of_get "a" "-a" (by decide +kernel),
    writtenAlike_of_get " a" "-a" (by decide +kernel),
    writtenAlike_of_get "a" "b" (by decide +kernel)⟩

end Registry

end SpecTree
