import Mathlib.Data.List.Forall2
import SpecTree.Proofs.Atomicity
import SpecTree.Proofs.Suffix.Writing

/-!
# Trees with suffixes for keys

A tree is extended if keys have moved into alternatives where its definition declares them. Nobody
who does not ask for the suffixes can tell the trees apart: writes are answered alike and lead to
trees that are extended in the same way (`Node.Extended.set`), and what can be asked is the same
(`Node.Extended.get?`, `Node.Extended.isComplete`, `Node.Extended.hasValue`).
-/

namespace SpecTree

variable {ν : Type}

/-! ## Where a key is written -/

namespace Spec

/-- A test of the places of a key is a test of the components that declare it, in order. -/
theorem checkTargets_eq_forM (s : Spec ν) (key : String)
    (test : Component ν → Except TreeError Unit) :
    checkTargets test (s.targets key) s = (s.components.filter (·.contains key)).forM test := by
  unfold checkTargets targets
  simp only [List.forM_eq_forM]
  -- the induction is on the components; in the tail all places are one further:
  induction s.components with
  | nil => rfl
  | cons c cs ih =>
    rw [List.length_cons, List.range_succ_eq_map, List.filter_cons, List.filter_map,
      List.filter_cons]
    show forM (if c.contains key = true then _ else _ : List Nat) _
      = forM (if c.contains key = true then _ else _ : List (Component ν)) test
    split
    · rw [List.forM_cons, List.forM_cons, List.forM_map, ← ih]
      rfl
    · rw [List.forM_map, ← ih]
      rfl

variable [Judged ν] {s t : Spec ν} {key : String}

/-- A spec that takes no new keys writes to the components that declare the key, or refuses. -/
theorem set_of_unknown_eq_error (h : s.unknown = .error) (key : String) (value : Value) :
    set key value s =
      if s.components.filter (·.contains key) = [] then .error (.unknownKey key s.name) s
      else match (s.components.filter (·.contains key)).forM (Component.checkSet key value) with
        | .ok _ => .ok () { s with components := s.components.map (Component.written key value) }
        | .error e => .error e s := by
  have hcontains : s.contains key = false ↔ s.components.filter (·.contains key) = [] := by
    unfold contains
    rw [List.any_eq_false, List.filter_eq_nil_iff]
  split
  · next hnil =>
    rw [set_of_not_contains (hcontains.2 hnil), Edit.replace]
    simp only [if_pos h]
  · next hnil =>
    have hkey : s.contains key = true := by
      rw [← Bool.not_eq_false, hcontains]
      exact hnil
    rw [set_of_contains hkey, ← checkTargets_eq_forM]
    cases hcheck : checkTargets (Component.checkSet key value) (s.targets key) s with
    | error e => exact Edit.inspect_bind_of_error hcheck _
    | ok u => exact (Edit.inspect_bind_of_ok hcheck _).trans (each_set_of_checkTargets hcheck)

end Spec

/-! ## Specs -/

/-- The second spec is the first with keys moved that are declared in the middle of it. In front of
them there are collections. -/
structure Spec.Extended [Judged ν] (suffix? : String → Option String) (names : List String)
    (front : List (Collection ν)) (s t : Spec ν) : Prop where
  unknown : s.unknown = .error
  split : ∃ middle back, Component.Apart suffix? names middle ∧
    s.components = front.map .collection ++ (middle ++ back) ∧
    t = { s with
      components := front.map .collection ++ (Component.withSuffixes suffix? middle ++ back) }

namespace Spec.Extended

variable [Judged ν] {suffix? : String → Option String} {names : List String}
  {front : List (Collection ν)} {s t : Spec ν} {key : String}

/-- The components that declare a key answer alike in both specs. -/
theorem alike (h : Extended suffix? names front s t) (hkey : key ∉ names) :
    List.Forall₂ (Component.Alike key) (s.components.filter (·.contains key))
      (t.components.filter (·.contains key)) := by
  obtain ⟨middle, back, hapart, hs, rfl⟩ := h.split
  have hsame : ∀ cs : List (Component ν), List.Forall₂ (Component.Alike key) cs cs := fun cs =>
    List.forall₂_same.2 fun c _ => .refl key c
  rw [hs, List.filter_append, List.filter_append, List.filter_append, List.filter_append]
  exact List.rel_append (hsame _)
    (List.rel_append (Component.forall₂_alike_withSuffixes hapart hkey) (hsame _))

theorem get? (h : Extended suffix? names front s t) (hkey : key ∉ names) :
    s.get? key = t.get? key := by
  unfold Spec.get? Spec.parameter?
  rw [Component.findSome?_parameter?_eq, Component.findSome?_parameter?_eq t.components,
    Component.findSome?_parameter?_of_alike (h.alike hkey)]

theorem isComplete (h : Extended suffix? names front s t) : s.isComplete = t.isComplete := by
  obtain ⟨middle, back, hapart, hs, rfl⟩ := h.split
  unfold Spec.isComplete
  rw [hs, List.all_append, List.all_append, List.all_append, List.all_append,
    Component.all_isComplete_withSuffixes hapart]

theorem hasValue (h : Extended suffix? names front s t) : s.hasValue = t.hasValue := by
  obtain ⟨middle, back, -, hs, rfl⟩ := h.split
  unfold Spec.hasValue
  rw [hs, List.any_append, List.any_append, List.any_append, List.any_append,
    Component.any_hasValue_withSuffixes]

/-- A write is refused by both specs for the same reason, or it leads to specs of which one is
extended to the other again. -/
theorem set (h : Extended suffix? names front s t) (hkey : key ∉ names) (value : Value) :
    (∃ e, Spec.set key value s = .error e s ∧ Spec.set key value t = .error e t) ∨
      ∃ front' s' t', front'.length = front.length ∧ Spec.set key value s = .ok () s' ∧
        Spec.set key value t = .ok () t' ∧ Extended suffix? names front' s' t' := by
  have halike := h.alike hkey
  have hnil : s.components.filter (·.contains key) = [] ↔
      t.components.filter (·.contains key) = [] := by
    rw [← List.length_eq_zero_iff, halike.length_eq, List.length_eq_zero_iff]
  have hcheck := Component.forM_checkSet_of_alike halike value
  have hunknown : t.unknown = .error ∧ t.name = s.name := by
    obtain ⟨middle, back, -, -, rfl⟩ := h.split
    exact ⟨h.unknown, rfl⟩
  rw [set_of_unknown_eq_error h.unknown, set_of_unknown_eq_error hunknown.1, ← hcheck, hunknown.2]
  by_cases hkeyless : s.components.filter (·.contains key) = []
  · rw [if_pos hkeyless, if_pos (hnil.1 hkeyless)]
    exact .inl ⟨_, rfl, rfl⟩
  · rw [if_neg hkeyless, if_neg fun hn => hkeyless (hnil.2 hn)]
    cases haccepted : (s.components.filter (·.contains key)).forM (Component.checkSet key value) with
    | error e => exact .inl ⟨e, rfl, rfl⟩
    | ok u =>
      obtain ⟨middle, back, hapart, hs, rfl⟩ := h.split
      have hmiddle : ∀ c ∈ middle, c.contains key = true → c.checkSet key value = .ok () := by
        intro c hc hcontains
        refine forM_eq_ok.1 haccepted c (List.mem_filter.2 ⟨?_, hcontains⟩)
        rw [hs]
        exact List.mem_append_right _ (List.mem_append_left _ hc)
      obtain ⟨front', hlength, hfront⟩ := Component.exists_map_written key value front
      refine .inr ⟨front', _, _, hlength, rfl, rfl, h.unknown, middle.map (.written key value),
        back.map (.written key value), hapart.map_written hmiddle, ?_, ?_⟩
      · show s.components.map _ = _
        rw [hs, List.map_append, List.map_append, hfront]
      · simp only [List.map_append, hfront, Component.withSuffixes_map_written hapart hkey hmiddle]

/-! ### More components -/

/-- What is added at the end makes no difference. -/
theorem push (h : Extended suffix? names front s t) (c : Component ν) :
    Extended suffix? names front (s.push c) (t.push c) := by
  obtain ⟨middle, back, hapart, hs, rfl⟩ := h.split
  refine ⟨h.unknown, middle, back ++ [c], hapart, ?_, ?_⟩
  · show s.components ++ [c] = _
    rw [hs, List.append_assoc, List.append_assoc]
  · simp only [Spec.push, List.append_assoc]

/-- Nor does another spec that is merged in. -/
theorem merge (h : Extended suffix? names front s t) (other : Spec ν) :
    Extended suffix? names front (s.merge other) (t.merge other) := by
  obtain ⟨middle, back, hapart, hs, rfl⟩ := h.split
  refine ⟨h.unknown, middle, back ++ other.components, hapart, ?_, ?_⟩
  · show s.components ++ other.components = _
    rw [hs, List.append_assoc, List.append_assoc]
  · simp only [Spec.merge, List.append_assoc]

/-- A parameter that is put into the first collection is put in front of the keys that have
moved. -/
theorem insertFixed {c : Collection ν} (h : Extended suffix? names (c :: front) s t)
    (p : Parameter ν) :
    Extended suffix? names (c.insert p :: front) (s.insertFixed p) (t.insertFixed p) := by
  obtain ⟨middle, back, hapart, hs, rfl⟩ := h.split
  refine ⟨h.unknown, middle, back, hapart, ?_, ?_⟩
  · show insertFirst p s.components = _
    rw [hs]
    rfl
  · rfl

end Spec.Extended

variable {suffix? : String → Option String} {names : List String} {catalog : Catalog} {key : String}

/-! ## Choices -/

/-- The choices differ in nothing but their bodies, of which the second is extended. The selector
is not a suffix; if it is a parameter, it stands in front of the keys that have moved. -/
structure Choice.Extended (suffix? : String → Option String) (names : List String)
    (c d : Choice Node) : Prop where
  body : ∃ front, Spec.Extended suffix? names front c.body d.body ∧
    (c.placement.hasTypeParameter = true → front ≠ [])
  same : d = { c with body := d.body }
  selector : c.selector ∉ names

namespace Choice.Extended

variable {c d : Choice Node}

theorem get? (h : Extended suffix? names c d) (hkey : key ∉ names) : c.get? key = d.get? key := by
  obtain ⟨front, hbody, -⟩ := h.body
  rw [h.same]
  unfold Choice.get?
  rw [hbody.get? hkey]
  rfl

theorem isComplete (h : Extended suffix? names c d) : c.isComplete = d.isComplete := by
  obtain ⟨front, hbody, -⟩ := h.body
  rw [h.same]
  unfold Choice.isComplete
  rw [hbody.isComplete]

theorem hasValue (h : Extended suffix? names c d) : c.hasValue = d.hasValue := by
  obtain ⟨front, hbody, -⟩ := h.body
  rw [h.same]
  unfold Choice.hasValue
  rw [hbody.hasValue]

/-- A variant goes in front of the keys that have moved, or behind them. -/
theorem chosen {front : List (Collection Node)} {body body' : Spec Node}
    (hselector : c.selector ∉ names) (hbody : Spec.Extended suffix? names front body body')
    (hfront : c.placement.hasTypeParameter = true → front ≠ []) (type variant : String)
    (node : Node) :
    Extended suffix? names (c.chosen type variant node body)
      (c.chosen type variant node body') := by
  obtain ⟨name, field, placement, old, selected⟩ := c
  -- a variant that is put in front is put into the collection of the selector:
  have hinserted : placement.hasTypeParameter = true → ∀ p : Parameter Node, ∃ front',
      Spec.Extended suffix? names front' (body.insertFixed p) (body'.insertFixed p) ∧
        (placement.hasTypeParameter = true → front' ≠ []) := by
    intro hplacement p
    obtain ⟨first, rest, rfl⟩ := List.exists_cons_of_ne_nil (hfront hplacement)
    exact ⟨_, hbody.insertFixed p, fun _ => List.cons_ne_nil _ _⟩
  cases placement with
  | standard => exact ⟨hinserted rfl _, rfl, hselector⟩
  | sublist => exact ⟨⟨front, hbody.push _, hfront⟩, rfl, hselector⟩
  | sublistDash => exact ⟨⟨front, hbody.push _, hfront⟩, rfl, hselector⟩
  | inline =>
    cases node with
    | spec s => exact ⟨⟨front, hbody.merge s, hfront⟩, rfl, hselector⟩
    | list l => exact ⟨hinserted rfl _, rfl, hselector⟩
    | choice e => exact ⟨hinserted rfl _, rfl, hselector⟩

theorem setType (h : Extended suffix? names c d) (type : String) :
    (∃ e, Choice.setType catalog type c = .error e c ∧
        Choice.setType catalog type d = .error e d) ∨
      ∃ c' d', Choice.setType catalog type c = .ok () c' ∧
        Choice.setType catalog type d = .ok () d' ∧ Extended suffix? names c' d' := by
  obtain ⟨front, hbody, hfront⟩ := h.body
  obtain ⟨body, rfl⟩ : ∃ body, d = { c with body } := ⟨_, h.same⟩
  have hvariant : variantFor catalog type { c with body } = variantFor catalog type c := rfl
  cases hfound : variantFor catalog type c with
  | error e =>
    exact .inl ⟨e, setType_of_variantFor_error hfound,
      setType_of_variantFor_error (hvariant.trans hfound)⟩
  | ok found =>
    obtain ⟨variant, node⟩ := found
    rw [setType_of_variantFor hfound, setType_of_variantFor (hvariant.trans hfound)]
    -- the selector is written in both bodies, if there is one:
    by_cases hplacement : c.placement.hasTypeParameter = true
    · have hwrite : ∀ s, c.writeType type s = Spec.set c.selector (.string type) s := fun s => by
        rw [writeType, if_pos hplacement]
      have hwrite' : ({ c with body } : Choice Node).writeType type body
          = Spec.set c.selector (.string type) body := hwrite body
      rw [hwrite, hwrite']
      rcases hbody.set h.selector (.string type) with
        ⟨e, hc, hd⟩ | ⟨front', s', t', hlength, hc, hd, hbody'⟩
      · rw [hc, hd]
        exact .inl ⟨e, rfl, rfl⟩
      · rw [hc, hd]
        refine .inr ⟨_, _, rfl, rfl, chosen h.selector hbody' ?_ type variant node⟩
        intro _ hnil
        rw [hnil, List.length_nil, eq_comm, List.length_eq_zero_iff] at hlength
        exact hfront hplacement hlength
    · have hwrite : ∀ s, c.writeType type s = .ok () s := fun s => by
        rw [writeType, if_neg hplacement]
        rfl
      have hwrite' : ({ c with body } : Choice Node).writeType type body = .ok () body :=
        hwrite body
      rw [hwrite, hwrite']
      exact .inr ⟨_, _, rfl, rfl, chosen h.selector hbody hfront type variant node⟩

theorem set (h : Extended suffix? names c d) (hkey : key ∉ names) (value : Value) :
    (∃ e, Choice.set catalog key value c = .error e c ∧
        Choice.set catalog key value d = .error e d) ∨
      ∃ c' d', Choice.set catalog key value c = .ok () c' ∧
        Choice.set catalog key value d = .ok () d' ∧ Extended suffix? names c' d' := by
  have hselector : d.selector = c.selector := by rw [h.same]; rfl
  by_cases hsel : key = c.selector
  · have hd : Choice.set catalog key value d = Choice.setType catalog value.toText d := by
      rw [hsel, ← hselector]
      exact set_selector catalog value d
    rw [hd, hsel, set_selector]
    exact h.setType value.toText
  · rw [set_of_ne_selector hsel, set_of_ne_selector (hselector ▸ hsel)]
    obtain ⟨front, hbody, hfront⟩ := h.body
    rcases hbody.set hkey value with ⟨e, hc, hd⟩ | ⟨front', s', t', hlength, hc, hd, hbody'⟩
    · exact .inl ⟨e, Edit.through_eq_error.2 ⟨_, hc, rfl⟩, Edit.through_eq_error.2 ⟨_, hd, rfl⟩⟩
    · refine .inr ⟨_, _, Edit.through_eq_ok.2 ⟨_, hc, rfl⟩, Edit.through_eq_ok.2 ⟨_, hd, rfl⟩,
        ⟨front', hbody', fun hplacement hnil => ?_⟩, ?_, h.selector⟩
      · rw [hnil, List.length_nil, eq_comm, List.length_eq_zero_iff] at hlength
        exact hfront hplacement hlength
      · rw [h.same]

end Choice.Extended

/-! ## Nodes -/

/-- The second tree is the first with keys moved in its spec, or in the body of its choice. -/
inductive Node.Extended (suffix? : String → Option String) (names : List String) :
    Node → Node → Prop
  | spec {s t : Spec Node} (h : Spec.Extended suffix? names [] s t) :
      Extended suffix? names (.spec s) (.spec t)
  | choice {c d : Choice Node} (h : Choice.Extended suffix? names c d) :
      Extended suffix? names (.choice c) (.choice d)

namespace Node

/-- The answers to writes, one after the other, and the tree that they lead to. -/
def setAll (catalog : Catalog) : List (String × Value) → Node → List (Except TreeError Unit) × Node
  | [], n => ([], n)
  | (key, value) :: writes, n =>
    let (answers, last) := setAll catalog writes ((set catalog key value).stateAfter n)
    ((set catalog key value).answer n :: answers, last)

namespace Extended

variable {n m : Node}

theorem get? (h : Extended suffix? names n m) (hkey : key ∉ names) : n.get? key = m.get? key := by
  cases h with
  | spec h => exact h.get? hkey
  | choice h => exact h.get? hkey

theorem isComplete (h : Extended suffix? names n m) : n.isComplete = m.isComplete := by
  cases h with
  | spec h => exact h.isComplete
  | choice h => exact h.isComplete

theorem hasValue (h : Extended suffix? names n m) : n.hasValue = m.hasValue := by
  cases h with
  | spec h => exact h.hasValue
  | choice h => exact h.hasValue

/-- A write that does not ask for a suffix is answered alike, and afterwards the second tree extends
the first again. -/
theorem set (catalog : Catalog) (h : Extended suffix? names n m) (hkey : key ∉ names)
    (value : Value) :
    (Node.set catalog key value).answer n = (Node.set catalog key value).answer m ∧
      Extended suffix? names ((Node.set catalog key value).stateAfter n)
        ((Node.set catalog key value).stateAfter m) := by
  have hanswers : (∃ e, Node.set catalog key value n = .error e n ∧
        Node.set catalog key value m = .error e m) ∨
      ∃ n' m', Node.set catalog key value n = .ok () n' ∧ Node.set catalog key value m = .ok () m' ∧
        Extended suffix? names n' m' := by
    cases h with
    | spec h =>
      rw [set_spec, set_spec]
      rcases h.set hkey value with ⟨e, hs, ht⟩ | ⟨front, s', t', hlength, hs, ht, h'⟩
      · exact .inl ⟨e, Edit.through_eq_error.2 ⟨_, hs, rfl⟩, Edit.through_eq_error.2 ⟨_, ht, rfl⟩⟩
      · obtain rfl := List.length_eq_zero_iff.1 hlength
        exact .inr ⟨_, _, Edit.through_eq_ok.2 ⟨_, hs, rfl⟩, Edit.through_eq_ok.2 ⟨_, ht, rfl⟩,
          .spec h'⟩
    | choice h =>
      rw [set_choice, set_choice]
      rcases h.set hkey value with ⟨e, hc, hd⟩ | ⟨c', d', hc, hd, h'⟩
      · exact .inl ⟨e, Edit.through_eq_error.2 ⟨_, hc, rfl⟩, Edit.through_eq_error.2 ⟨_, hd, rfl⟩⟩
      · exact .inr ⟨_, _, Edit.through_eq_ok.2 ⟨_, hc, rfl⟩, Edit.through_eq_ok.2 ⟨_, hd, rfl⟩,
          .choice h'⟩
  rcases hanswers with ⟨e, hn, hm⟩ | ⟨n', m', hn, hm, h'⟩
  · rw [Edit.stateAfter_of_error hn, Edit.stateAfter_of_error hm, Edit.answer, Edit.answer, hn, hm]
    exact ⟨rfl, h⟩
  · rw [Edit.stateAfter_of_ok hn, Edit.stateAfter_of_ok hm, Edit.answer, Edit.answer, hn, hm]
    exact ⟨rfl, h'⟩

/-- All writes are answered alike. -/
theorem setAll (catalog : Catalog) (h : Extended suffix? names n m) {writes : List (String × Value)}
    (hwrites : ∀ write ∈ writes, write.1 ∉ names) :
    (Node.setAll catalog writes n).1 = (Node.setAll catalog writes m).1 ∧
      Extended suffix? names (Node.setAll catalog writes n).2 (Node.setAll catalog writes m).2 := by
  induction writes generalizing n m with
  | nil => exact ⟨rfl, h⟩
  | cons write writes ih =>
    obtain ⟨hwrite, hrest⟩ := List.forall_mem_cons.1 hwrites
    obtain ⟨hanswer, hafter⟩ := set catalog h hwrite write.2
    obtain ⟨hanswers, hlast⟩ := ih hafter hrest
    exact ⟨congrArg₂ List.cons hanswer hanswers, hlast⟩

end Extended

end Node

end SpecTree
