import Mathlib.Data.List.Basic
import SpecTree.Proofs.Everywhere

/-!
# What no edit changes of a node

A node stays a spec, a list or a choice of its field, the type of a choice is chosen once, and the
case parameters of a node stay the same, with the keys that their groups declare, unless a chosen
variant brings its own (`Node.isInline`). Main statement: `Node.stepwise_akin`. So the keys of a
document that are filled in first are selectors until the end.
-/

namespace SpecTree

variable {ν : Type} {key : String} {value : Value}

/-! ## Case parameters -/

namespace Component

/-- The key of the case parameter, and the keys that are declared with it. -/
def case? : Component ν → Option (String × (String → Bool))
  | conditional s => some (s.case.name, s.contains)
  | _ => none

variable [Judged ν] {c c' : Component ν}

/-- A write to a component leaves its case parameter and the keys behind it alone. -/
theorem case?_of_set (h : Component.set key value c = .ok () c') : c'.case? = c.case? := by
  cases written_of_set h with
  | collection => rfl
  | oneOf => rfl
  | conditional hset =>
    obtain ⟨hname, hcontains⟩ := Conditional.contains_of_set hset
    exact congrArg some (Prod.ext hname hcontains)

theorem case?_of_select (h : select key c = .ok () c') : c'.case? = c.case? := by
  rcases select_cases h with rfl | ⟨o, o', rfl, rfl, -⟩
  · rfl
  · rfl

/-- An edit of a sub-spec leaves the keys of the groups alone, as it puts back under the same name.
-/
theorem case?_within {α : Type} (key : String) (act : Edit ν α) (c : Component ν) :
    ((Component.within key act).stateAfter c).case? = c.case? := by
  cases c with
  | collection c => rw [Edit.stateAfter_of_through (within_collection key act c)]; rfl
  | oneOf o => rw [Edit.stateAfter_of_through (within_oneOf key act o)]; rfl
  | conditional s =>
    rw [Edit.stateAfter_of_through (within_conditional key act s)]
    rcases Conditional.within_cases s key with
      ⟨e, he⟩ | ⟨i, x, group, p, m, -, -, hb, hp, -, -, hreaches⟩
    · rw [Edit.stateAfter_of_error (he act)]
    · rw [Edit.stateAfter_of_through (hreaches act)]
      have hkey : group.contains key = true := Collection.contains_iff.2 ⟨p, hp⟩
      rw [← Collection.name_of_parameter? hp] at hkey
      have hsame := Conditional.contains_setGroup hb (Collection.contains_insert
        (p := { p with node := some (act.stateAfter m) }) hkey)
      exact congrArg (fun declared => some (s.case.name, declared)) hsame

end Component

namespace Spec

variable {s s' : Spec ν}

/-- The case parameters, and the keys that are declared with each. -/
def cases (s : Spec ν) : List (String × (String → Bool)) := s.components.filterMap Component.case?

/-- A selector is the key of one of the cases. -/
theorem isSelector_eq_any (s : Spec ν) (k : String) :
    s.isSelector k = s.cases.any fun case => case.1 = k := by
  unfold isSelector cases
  rw [List.any_filterMap]
  congr 1
  funext c
  cases c <;> rfl

/-- A key hides another one exactly if a case of that key declares the other in its groups. -/
theorem hides_eq_any (s : Spec ν) (key k : String) :
    s.hides key k = s.cases.any fun case => case.1 = key && case.2 k := by
  unfold hides cases
  rw [List.any_filterMap]
  congr 1
  funext c
  cases c <;> rfl

/-- What selects does not change with the values, only with the cases. -/
theorem isSelector_congr (h : s'.cases = s.cases) (k : String) :
    s'.isSelector k = s.isSelector k := by
  rw [isSelector_eq_any, isSelector_eq_any, h]

theorem hides_congr (h : s'.cases = s.cases) (key k : String) :
    s'.hides key k = s.hides key k := by
  rw [hides_eq_any, hides_eq_any, h]

/-- A parameter that is added to a collection makes no case. -/
theorem cases_insertFixed (p : Parameter ν) (s : Spec ν) :
    (s.insertFixed p).cases = s.cases := by
  have hlist : ∀ cs : List (Component ν),
      (insertFirst p cs).filterMap Component.case? = cs.filterMap Component.case? := by
    intro cs
    induction cs with
    | nil => rfl
    | cons c cs ih =>
      cases c with
      | collection c => rfl
      | oneOf o => exact ih
      | conditional d => exact congrArg ((d.case.name, d.contains) :: ·) ih
  exact hlist s.components

theorem cases_push_collection (c : Collection ν) (s : Spec ν) :
    (s.push (.collection c)).cases = s.cases := by
  show (s.components ++ [_]).filterMap Component.case? = _
  rw [List.filterMap_append]
  exact List.append_nil _

/-- Components that are changed one by one keep their case keys. -/
theorem filterMap_case?_map {change : Component ν → Component ν} {cs : List (Component ν)}
    (h : ∀ c ∈ cs, (change c).case? = c.case?) :
    (cs.map change).filterMap Component.case? = cs.filterMap Component.case? := by
  rw [List.filterMap_map]
  exact List.filterMap_congr h

variable [Judged ν]

/-- A write to a spec leaves the cases alone, whichever components it goes to. -/
theorem cases_of_set (h : Spec.set key value s = .ok () s') : s'.cases = s.cases := by
  rcases set_cases s key value with ⟨e, he⟩ | ⟨-, p, -, hok⟩ | ⟨-, haccepted, hok⟩
  · rw [he] at h
    cases h
  · rw [hok] at h
    cases h
    exact cases_insertFixed p s
  · rw [hok] at h
    cases h
    refine filterMap_case?_map fun c hc => ?_
    split
    · next hcontains =>
      obtain ⟨c', hset⟩ := Component.set_of_checkSet_eq_ok hcontains (haccepted c hc hcontains)
      rw [Edit.stateAfter_of_ok hset]
      exact Component.case?_of_set hset
    · rfl

/-- An edit of a sub-spec leaves the cases alone. -/
theorem cases_within {α : Type} (key : String) (act : Edit ν α) (s : Spec ν) :
    ((Spec.within key act).stateAfter s).cases = s.cases := by
  rcases within_cases s key with ⟨e, he⟩ | ⟨pre, c, post, happend, -, -, haccess, hwithin⟩
  · rw [Edit.stateAfter_of_error (he act)]
  · rw [Edit.stateAfter_of_through (hwithin act)]
    unfold cases
    rw [happend, List.filterMap_append, List.filterMap_append, List.filterMap_cons,
      List.filterMap_cons, Component.case?_within]
    rw [filterMap_case?_map fun d hd => ?_]
    split
    · next hcontains =>
      have hmem : d ∈ s.components := by
        rw [happend]
        exact List.mem_append_right _ (List.mem_cons_of_mem _ hd)
      obtain ⟨d', hselect⟩ := Component.select_of_checkAccess_eq_ok (haccess d hmem hcontains)
      rw [Edit.stateAfter_of_ok hselect]
      exact Component.case?_of_select hselect
    · rfl

end Spec

/-- Writing the type leaves the cases of the body alone. -/
theorem Choice.cases_of_writeType {c : Choice Node} {type : String} {s s' : Spec Node}
    (h : c.writeType type s = .ok () s') : s'.cases = s.cases := by
  rcases writeType_cases h with ⟨-, hset⟩ | ⟨-, rfl⟩
  · exact Spec.cases_of_set hset
  · rfl

/-! ## Nodes -/

namespace Node

variable {catalog : Catalog} {n n' n'' : Node}

/-- The key at which a choice takes its type. -/
def typeKey? : Node → Option String
  | choice c => some c.selector
  | _ => none

/-- The type of a choice. -/
def selected? : Node → Option String
  | choice c => c.selected
  | _ => none

/-- Does a variant become a part of the node itself? -/
def isInline : Node → Bool
  | choice c => c.placement = .inline
  | _ => false

/-- What no edit changes of a node. -/
structure Akin (n n' : Node) : Prop where
  typeKey? : n'.typeKey? = n.typeKey?
  isInline : n'.isInline = n.isInline
  selected? : ∀ type, n.selected? = some type → n'.selected? = some type
  isSelector : n.isInline = false → ∀ k, n'.isSelector k = n.isSelector k
  hides : n.isInline = false → ∀ key k, n'.hides key k = n.hides key k

theorem Akin.refl (n : Node) : Akin n n :=
  ⟨rfl, rfl, fun _ => id, fun _ _ => rfl, fun _ _ _ => rfl⟩

/-- Nodes that are akin to one node, one after the other, are akin. -/
theorem Akin.trans (h : Akin n n') (h' : Akin n' n'') : Akin n n'' where
  typeKey? := h'.typeKey?.trans h.typeKey?
  isInline := h'.isInline.trans h.isInline
  selected? type hselected := h'.selected? type (h.selected? type hselected)
  isSelector hinline k :=
    (h'.isSelector (h.isInline.trans hinline) k).trans (h.isSelector hinline k)
  hides hinline key k :=
    (h'.hides (h.isInline.trans hinline) key k).trans (h.hides hinline key k)

/-- Specs with the same cases are akin. -/
theorem akin_spec {s s' : Spec Node} (h : s'.cases = s.cases) :
    Akin (.spec s) (.spec s') :=
  ⟨rfl, rfl, fun _ => id, fun _ => Spec.isSelector_congr h, fun _ => Spec.hides_congr h⟩

theorem akin_list (l l' : EntryList Node) : Akin (.list l) (.list l') :=
  ⟨rfl, rfl, fun _ => id, fun _ _ => rfl, fun _ _ _ => rfl⟩

/-- Choices of one field and one placement, with the same case parameters in them unless variants
are merged into them. -/
theorem akin_choice {c c' : Choice Node} (hselector : c'.selector = c.selector)
    (hplacement : c'.placement = c.placement)
    (hselected : ∀ type, c.selected = some type → c'.selected = some type)
    (hcases : (Node.choice c).isInline = false → c'.body.cases = c.body.cases) :
    Akin (.choice c) (.choice c') where
  typeKey? := congrArg some hselector
  isInline := by
    show decide (_ = _) = decide (_ = _)
    rw [hplacement]
  selected? := hselected
  isSelector hinline k := by
    show (decide (k = c'.selector) || c'.body.isSelector k) = (_ || c.body.isSelector k)
    rw [hselector, Spec.isSelector_congr (hcases hinline)]
  hides hinline key k := by
    show (c'.body.hides key k && (decide (key ≠ c'.selector) || c'.placement.hasTypeParameter))
      = (c.body.hides key k && _)
    rw [hselector, hplacement, Spec.hides_congr (hcases hinline)]

/-- A choice stays akin while the cases of its body do not change. -/
theorem akin_body {c : Choice Node} {body : Spec Node} (h : body.cases = c.body.cases) :
    Akin (.choice c) (.choice { c with body }) :=
  akin_choice rfl rfl (fun _ => id) fun _ => h

/-- A type is chosen once, and the variant has no say in what the selectors are unless it is
merged into the choice. -/
theorem akin_setType {c c' : Choice Node} {type : String}
    (h : Choice.setType catalog type c = .ok () c') : Akin (.choice c) (.choice c') := by
  obtain ⟨variant, node, body, hvariant, hwrite, rfl⟩ := Choice.setType_eq_ok h
  have hselector : (c.chosen type variant node body).selector = c.selector :=
    congrArg Choice.selectorOf (Choice.field_chosen c type variant node body)
  refine akin_choice hselector (Choice.placement_chosen c type variant node body) ?_
    fun hinline => ?_
  · intro current hcurrent
    rw [(Choice.variantFor_eq_ok.1 hvariant).1] at hcurrent
    cases hcurrent
  · refine Eq.trans ?_ (Choice.cases_of_writeType hwrite)
    obtain ⟨name, field, placement, body', selected⟩ := c
    cases placement with
    | inline => cases hinline
    | standard => exact Spec.cases_insertFixed _ _
    | sublist => exact Spec.cases_push_collection _ _
    | sublistDash => exact Spec.cases_push_collection _ _

/-- A write leaves a node akin to what it was. -/
theorem akin_of_set (h : Node.set catalog key value n = .ok () n') : Akin n n' := by
  cases written_of_set h with
  | spec hpart => exact akin_spec (Spec.cases_of_set hpart)
  | list => exact akin_list _ _
  | type _ hpart => exact akin_setType hpart
  | body _ hpart => exact akin_body (Spec.cases_of_set hpart)

/-- An edit of a sub-spec leaves a node akin to what it was. -/
theorem akin_within {α : Type} (key : String) (act : Edit Node α) (n : Node) :
    Akin n ((within key act).stateAfter n) := by
  cases n with
  | spec s =>
    rw [Edit.stateAfter_of_through (within_spec key act s)]
    exact akin_spec (Spec.cases_within key act s)
  | list l =>
    rw [Edit.stateAfter_of_through (within_list key act l)]
    exact akin_list _ _
  | choice c =>
    rw [Edit.stateAfter_of_through (within_choice key act c)]
    exact akin_body (Spec.cases_within key act c.body)

/-- No edit makes another node of a node. -/
theorem stepwise_akin (catalog : Catalog) : Stepwise catalog fun _ n n' => Akin n n' where
  refl := .refl
  trans := .trans
  set n key value := by
    cases hset : Node.set catalog key value n with
    | error e n' =>
      rw [Edit.stateAfter_of_error hset, set_error hset]
      exact .refl n
    | ok u n' =>
      rw [Edit.stateAfter_of_ok hset]
      exact akin_of_set hset
  append n name := by
    cases happend : appendEmpty catalog name n with
    | error e n' =>
      rw [Edit.stateAfter_of_error happend, appendEmpty_error happend]
      exact .refl n
    | ok u n' =>
      rw [Edit.stateAfter_of_ok happend]
      obtain ⟨l, l', rfl, rfl, -⟩ := appendEmpty_eq_ok happend
      exact akin_list l l'
  within n key α act _ _ := akin_within key act n

end Node

end SpecTree
