import SpecTree.Proofs.Choice
import SpecTree.Proofs.Sound.Spec
import SpecTree.Proofs.Status
import SpecTree.Tree.Build

/-!
# Fresh trees

A tree that was just built is sound and holds no value (`Catalog.fresh_of_build`). Parts are built
from declarations, with sub-specs that are fresh themselves; a slot without a value whose sub-spec
is fresh holds none.
-/

namespace SpecTree

variable {ν : Type} {S : ν → Prop} {make : String → Except TreeError ν}

/-- Sub-specs that are built are good. -/
def Makes (S : ν → Prop) (make : String → Except TreeError ν) : Prop :=
  ∀ name m, make name = .ok m → S m

/-! ## Parts -/

/-- What a part is built into, from what its declarations are built into. -/
inductive Part.Built (make : String → Except TreeError ν) : Part → Component ν → Prop
  | parameters {ds : List Declaration} {c : Collection ν}
    (parameters : Declaration.buildAll make ds = .ok c) :
    Built make (.parameters ds) (.collection c)
  | oneOf {branches : List (List Declaration)} {built : List (Collection ν)} {o : OneOf ν}
    (branches_built : branches.mapM (Declaration.buildAll make) = .ok built)
    (oneOf : OneOf.ofBranches built = .ok o) : Built make (.oneOf branches) (.oneOf o)
  | conditional {condition : Declaration} {whenTrue whenFalse : List Declaration}
    {case : Parameter ν} {yes no : Collection ν} {s : Conditional ν}
    (case_built : condition.build make = .ok case)
    (yes_built : Declaration.buildAll make whenTrue = .ok yes)
    (no_built : Declaration.buildAll make whenFalse = .ok no)
    (conditional : Conditional.ifThenElse case yes no = .ok s) :
    Built make (.conditional condition whenTrue whenFalse) (.conditional s)

/-- A part that is built is a collection, alternatives or a conditional of built collections. -/
theorem Part.built_of_build {part : Part} {c : Component ν} (h : part.build make = .ok c) :
    part.Built make c := by
  cases part with
  | parameters ds =>
    obtain ⟨c', hc', hpure⟩ := bind_eq_ok.1 h
    cases hpure
    exact .parameters hc'
  | oneOf branches =>
    obtain ⟨built, hbuilt, hrest⟩ := bind_eq_ok.1 h
    obtain ⟨o, ho, hpure⟩ := bind_eq_ok.1 hrest
    cases hpure
    exact .oneOf hbuilt ho
  | conditional condition whenTrue whenFalse =>
    obtain ⟨case, hcase, hrest⟩ := bind_eq_ok.1 h
    obtain ⟨yes, hyes, hrest⟩ := bind_eq_ok.1 hrest
    obtain ⟨no, hno, hrest⟩ := bind_eq_ok.1 hrest
    obtain ⟨s, hs, hpure⟩ := bind_eq_ok.1 hrest
    cases hpure
    exact .conditional hcase hyes hno hs

/-- Every component comes from a part. -/
theorem Definition.exists_part_of_build {d : Definition} {s : Spec ν} {c : Component ν}
    (h : d.build make = .ok s) (hc : c ∈ s.components) :
    ∃ part ∈ d.parts, part.build make = .ok c := by
  obtain ⟨components, hcomponents, hpure⟩ := bind_eq_ok.1 h
  cases hpure
  exact exists_of_mem_mapM hcomponents hc

/-! ## Slots -/

namespace Parameter

variable {p : Parameter ν}

/-- A fit slot without a value. -/
structure Fresh (S : ν → Prop) (p : Parameter ν) : Prop where
  fit : p.Fit S
  value : p.value = none

theorem fresh_primitive (name : String) (t : Primitive) : Fresh S (primitive name t) :=
  ⟨fit_primitive name t, rfl⟩

/-- A default is a value of the type, and leaves the parameter fresh. -/
theorem Fresh.withDefault {q : Parameter ν} {v : Value} (h : p.Fresh S)
    (hq : p.withDefault v = .ok q) : q.Fresh S := by
  obtain ⟨w, hw, hpure⟩ := bind_eq_ok.1 hq
  cases hpure
  obtain ⟨t, ht, hcoerce⟩ := check_eq_ok.1 hw
  refine ⟨⟨h.fit.node_none, h.fit.node_some, ?_, fun _ => rfl⟩, h.value⟩
  rintro u (hu | hu)
  · have hnone := h.value
    rw [show p.value = some u from hu] at hnone
    cases hnone
  · cases hu
    rw [Value.type_of_coerce hcoerce]
    exact ht

/-- A parameter stays fresh when it is described. -/
theorem Fresh.described {q : Parameter ν} (h : q.Fresh S) (isOptional : Bool) (doc : String) :
    Fresh S { q with isOptional := q.isOptional || isOptional, doc } where
  fit := by
    refine ⟨h.fit.node_none, h.fit.node_some, h.fit.typed, fun hdefault => ?_⟩
    show (q.isOptional || isOptional) = true
    rw [h.fit.optional hdefault, Bool.true_or]
  value := h.value

/-- A slot that is declared is built empty. -/
theorem fresh_of_build {d : Declaration} (hmake : Makes S make) (hp : d.build make = .ok p) :
    p.Fresh S := by
  unfold Declaration.build at hp
  split at hp
  · split at hp
    · obtain ⟨q, hq, hpure⟩ := bind_eq_ok.1 hp
      cases hpure
      exact ((fresh_primitive _ _).withDefault hq).described _ _
    · cases hp
      exact (fresh_primitive _ _).described _ _
  · rename_i s _
    obtain ⟨q, hq, hpure⟩ := bind_eq_ok.1 hp
    cases hpure
    obtain ⟨m, hm, rfl⟩ := map_eq_ok.1 hq
    exact Fresh.described ⟨fit_derived _ _ (hmake s m hm), rfl⟩ _ _

/-- A fresh parameter holds nothing, not even its default. -/
theorem Fresh.hasValue_eq_false [Judged ν] (hS : ∀ m, S m → Judged.hasValue m = false)
    (h : p.Fresh S) : p.hasValue = false := by
  cases hprim : p.isPrimitive with
  | true =>
    rw [hasValue_of_isPrimitive hprim, h.value]
    rfl
  | false =>
    obtain ⟨m, hm, hSm⟩ := h.fit.node_some hprim
    rw [hasValue_of_node hprim hm]
    exact hS m hSm

end Parameter

/-! ## Collections -/

namespace Collection

/-- A fit collection without values. -/
structure Fresh (S : ν → Prop) (c : Collection ν) : Prop where
  fit : c.Fit S
  parameters : ∀ p ∈ c.parameters, p.Fresh S

variable {c : Collection ν}

theorem fresh_ofList {ps : List (Parameter ν)} (h : ∀ p ∈ ps, p.Fresh S) : (ofList ps).Fresh S :=
  ⟨fit_ofList fun p hp => (h p hp).fit, fun p hp => h p (Parameter.mem_putAll hp)⟩

/-- A collection that is built is fresh. -/
theorem fresh_of_buildAll {ds : List Declaration} (hmake : Makes S make)
    (hc : Declaration.buildAll make ds = .ok c) : c.Fresh S := by
  obtain ⟨ps, hps, hpure⟩ := bind_eq_ok.1 hc
  cases hpure
  refine fresh_ofList fun p hp => ?_
  obtain ⟨d, -, hd⟩ := exists_of_mem_mapM hps hp
  exact Parameter.fresh_of_build hmake hd

/-- A fresh collection holds nothing. -/
theorem Fresh.hasValue_eq_false [Judged ν] (hS : ∀ m, S m → Judged.hasValue m = false)
    (h : c.Fresh S) : c.hasValue = false := by
  apply List.any_eq_false.2
  intro p hp
  rw [(h.parameters p hp).hasValue_eq_false hS]
  exact Bool.false_ne_true

end Collection

/-! ## Components -/

section Components

variable [Judged ν]

/-- Alternatives that were just made agree, as none of them holds a value. -/
theorem OneOf.fresh_of_ofBranches {branches : List (Collection ν)} {o : OneOf ν}
    (hS : ∀ m, S m → Judged.hasValue m = false) (hbranches : ∀ b ∈ branches, b.Fresh S)
    (ho : OneOf.ofBranches branches = .ok o) : o.Fit S ∧ o.hasValue = false := by
  obtain ⟨-, rfl⟩ := ofBranches_eq_ok.1 ho
  have hsettle : (⟨branches, none, none⟩ : OneOf ν).settle = ⟨branches, none, none⟩ :=
    settle_of_live_eq_none rfl
  -- no branch holds a value, so none holds one that another lacks:
  have hnone : ∀ i k p, (⟨branches, none, none⟩ : OneOf ν).declared? i k = some p →
      p.hasValue = false := by
    intro i k p hp
    obtain ⟨b, hb, hbp⟩ := declared?_eq_some.1 hp
    have hb' := hbranches b (List.mem_of_getElem? hb)
    exact (hb'.parameters p (Parameter.mem_of_find? hbp)).hasValue_eq_false hS
  have hfit : (⟨branches, none, none⟩ : OneOf ν).Fit S := by
    refine ⟨fun b hb => (hbranches b hb).fit, liveFirst_of_live_eq_none rfl, ?_⟩
    rw [hsettle]
    intro i _ j _ k p hp hv
    rw [hnone i k p hp] at hv
    cases hv
  refine ⟨hfit, ?_⟩
  rw [← Bool.not_eq_true, hasValue_iff hfit]
  rintro ⟨k, p, hp, hv⟩
  rw [parameter?_eq_candidates hfit.liveFirst, hsettle] at hp
  obtain ⟨i, -, hip⟩ := Option.bind_eq_some_iff.1 hp
  rw [hnone i k p hip] at hv
  cases hv

/-- A conditional of fresh parts fits, and holds nothing until its case parameter is set. -/
theorem Conditional.fresh_of_ifThenElse {case : Parameter ν} {whenTrue whenFalse : Collection ν}
    {s : Conditional ν} (hS : ∀ m, S m → Judged.hasValue m = false) (hcase : case.Fresh S)
    (htrue : whenTrue.Fresh S) (hfalse : whenFalse.Fresh S)
    (hs : Conditional.ifThenElse case whenTrue whenFalse = .ok s) :
    s.Fit S ∧ s.hasValue = false := by
  unfold Conditional.ifThenElse Conditional.ofBranches at hs
  split at hs
  · rename_i htype
    obtain ⟨checked, hchecked, hpure⟩ := bind_eq_ok.1 hs
    cases hpure
    -- the groups are those that were given, under case values of the right type:
    have hgroups : ∀ g ∈ checked, g.2.Fresh S := by
      intro g hg
      obtain ⟨g', hg', hcheck⟩ := exists_of_mem_mapM hchecked hg
      obtain ⟨v, -, hpure⟩ := bind_eq_ok.1 hcheck
      cases hpure
      rcases List.mem_cons.1 hg' with rfl | hg'
      · exact ⟨⟨htrue.fit.distinct, htrue.fit.parameters⟩, htrue.parameters⟩
      · rw [List.mem_singleton.1 hg']
        exact ⟨⟨hfalse.fit.distinct, hfalse.fit.parameters⟩, hfalse.parameters⟩
    have hprim : case.isPrimitive = true :=
      Parameter.isPrimitive_iff.2 (htype.elim (fun h => ⟨_, h⟩) fun h => ⟨_, h⟩)
    refine ⟨⟨hcase.fit, hprim, fun g hg => (hgroups g hg).fit⟩, ?_⟩
    have hselected :
        (⟨case, checked⟩ : Conditional ν).selected?.any Collection.hasValue = false := by
      cases hgroup : (⟨case, checked⟩ : Conditional ν).selected? with
      | none => rfl
      | some group =>
        obtain ⟨i, x, -, hb⟩ := selected?_eq_some.1 hgroup
        exact (hgroups _ (List.mem_of_getElem? hb)).hasValue_eq_false hS
    unfold Conditional.hasValue
    rw [hselected, Bool.and_false, Bool.or_false]
    exact hcase.hasValue_eq_false hS
  · cases hs

/-- A component that is built fits, and holds nothing. -/
theorem Component.fresh_of_build {part : Part} {c : Component ν} (hmake : Makes S make)
    (hS : ∀ m, S m → Judged.hasValue m = false) (hc : part.build make = .ok c) :
    c.Fit S ∧ c.hasValue = false := by
  cases Part.built_of_build hc with
  | parameters hc' =>
    have hfresh := Collection.fresh_of_buildAll hmake hc'
    exact ⟨hfresh.fit, hfresh.hasValue_eq_false hS⟩
  | oneOf hbuilt ho =>
    refine OneOf.fresh_of_ofBranches hS (fun b hb => ?_) ho
    obtain ⟨ds, -, hds⟩ := exists_of_mem_mapM hbuilt hb
    exact Collection.fresh_of_buildAll hmake hds
  | conditional hcase hyes hno hs =>
    exact Conditional.fresh_of_ifThenElse hS (Parameter.fresh_of_build hmake hcase)
      (Collection.fresh_of_buildAll hmake hyes) (Collection.fresh_of_buildAll hmake hno) hs

end Components

/-! ## Specs and choices -/

section Specs

variable [Judged ν]

/-- A fit spec without values. -/
structure Spec.Fresh (S : ν → Prop) (s : Spec ν) : Prop where
  fit : s.Fit S
  hasValue : ∀ c ∈ s.components, c.hasValue = false

theorem Spec.fresh_ofName (name : String) : (Spec.ofName name : Spec ν).Fresh S :=
  ⟨fun _ hc => absurd hc List.not_mem_nil, fun _ hc => absurd hc List.not_mem_nil⟩

/-- A spec that is built is fresh. -/
theorem Spec.fresh_of_build {d : Definition} {s : Spec ν} (hmake : Makes S make)
    (hS : ∀ m, S m → Judged.hasValue m = false) (hs : d.build make = .ok s) : s.Fresh S := by
  have hfresh : ∀ c ∈ s.components, c.Fit S ∧ c.hasValue = false := by
    intro c hc
    obtain ⟨part, -, hpart⟩ := Definition.exists_part_of_build hs hc
    exact Component.fresh_of_build hmake hS hpart
  exact ⟨fun c hc => (hfresh c hc).1, fun c hc => (hfresh c hc).2⟩

/-- The list of arbitrary entries is fresh. -/
theorem Spec.fresh_genericList : (Spec.genericList : Spec ν).Fresh S := by
  have hcollection : Collection.Fresh S
      { (Collection.ofList [] : Collection ν) with unknown := .accept } :=
    ⟨⟨List.nodup_nil, fun _ hp => absurd hp List.not_mem_nil⟩,
      fun _ hp => absurd hp List.not_mem_nil⟩
  constructor
  · intro c hc
    rw [List.mem_singleton.1 hc]
    exact hcollection.fit
  · intro c hc
    rw [List.mem_singleton.1 hc]
    rfl

omit [Judged ν] in
theorem Collection.Fit.remove {c : Collection ν} (h : c.Fit S) (key : String) :
    (c.remove key).Fit S where
  distinct := h.distinct.sublist (List.filter_sublist.map _)
  parameters p hp := h.parameters p (List.mem_filter.1 hp).1

theorem Spec.Fresh.removeParameter {s : Spec ν} (h : s.Fresh S) (key : String) :
    (s.removeParameter key).Fresh S := by
  have hall : ∀ c ∈ (s.removeParameter key).components, c.Fit S ∧ c.hasValue = false := by
    intro c hc
    obtain ⟨d, hd, hdc⟩ := List.mem_filterMap.1 hc
    cases d with
    | oneOf o =>
      cases hdc
      exact ⟨h.fit _ hd, h.hasValue _ hd⟩
    | conditional d =>
      cases hdc
      exact ⟨h.fit _ hd, h.hasValue _ hd⟩
    | collection d =>
      simp only at hdc
      split at hdc
      · cases hdc
      · cases hdc
        refine ⟨Collection.Fit.remove (h.fit _ hd) key, List.any_eq_false.2 fun p hp => ?_⟩
        exact List.any_eq_false.1 (h.hasValue _ hd) p (List.mem_filter.1 hp).1
  exact ⟨fun c hc => (hall c hc).1, fun c hc => (hall c hc).2⟩

theorem Spec.Fresh.merge {s other : Spec ν} (h : s.Fresh S) (hother : other.Fresh S) :
    (s.merge other).Fresh S :=
  ⟨fun c hc => (List.mem_append.1 hc).elim (h.fit c) (hother.fit c),
    fun c hc => (List.mem_append.1 hc).elim (h.hasValue c) (hother.hasValue c)⟩

/-- A fresh spec holds nothing. -/
theorem Spec.Fresh.hasValue_eq_false {s : Spec ν} (h : s.Fresh S) : s.hasValue = false := by
  apply List.any_eq_false.2
  intro c hc
  rw [h.hasValue c hc]
  exact Bool.false_ne_true

/-- A choice starts with an empty selector, and with what is registered under its name. -/
theorem Choice.fresh_ofField (name field : String) (placement : Placement)
    {others : Option (Spec ν)} (h : ∀ s, others = some s → s.Fresh S) :
    (Choice.ofField name field placement others).body.Fresh S := by
  refine Choice.body_ofField name field placement (Spec.fresh_ofName name) ?_
    fun s hs _ hown => hown.merge ((h s hs).removeParameter _)
  have hcollection : Collection.Fresh S
      (Collection.ofList [Parameter.primitive (Choice.selectorOf field) (.scalar .string)]) :=
    Collection.fresh_ofList (List.forall_mem_singleton.2 (Parameter.fresh_primitive _ _))
  exact ⟨List.forall_mem_singleton.2 hcollection.fit, List.forall_mem_singleton.2 rfl⟩

end Specs

/-! ## Trees -/

namespace Node

/-- A sound tree without a value. -/
structure Fresh (n : Node) : Prop where
  sound : n.Sound
  hasValue : Judged.hasValue n = false

/-- A node made of a fresh spec is fresh. -/
theorem fresh_spec {s : Spec Node} (h : s.Fresh Fresh) : Fresh (.spec s) := by
  constructor
  · exact sound_of_fit (Spec.Fit.mono h.fit fun m hm => hm.sound)
  · rw [hasValue_eq]
    exact h.hasValue_eq_false

/-- A choice is fresh as long as nothing is selected. -/
theorem fresh_choice {c : Choice Node} (h : c.body.Fresh Fresh) (hselected : c.selected = none) :
    Fresh (.choice c) := by
  constructor
  · exact sound_of_fit (Spec.Fit.mono h.fit fun m hm => hm.sound)
  · rw [hasValue_eq]
    show ((!c.placement.hasTypeParameter && c.selected.isSome) || c.body.hasValue) = false
    rw [hselected, h.hasValue_eq_false, Option.isSome_none, Bool.and_false, Bool.or_false]

/-- An empty list is fresh. -/
theorem fresh_list (element : TypeRef) : Fresh (.list (.ofElement element)) := by
  constructor
  · exact sound_of_fit ⟨List.nodup_nil, fun _ hp => absurd hp List.not_mem_nil⟩
  · rw [hasValue_eq]
    rfl

end Node

/-- What is built below a name is fresh. The induction follows the builder down through the
references. -/
theorem Catalog.fresh_of_buildBelow {catalog : Catalog} {path : List String} {name : String}
    {n : Node} (h : catalog.buildBelow path name = .ok n) : n.Fresh := by
  fun_induction Catalog.buildBelow catalog path name generalizing n with
  | case1 =>
    cases h
    exact Node.fresh_spec Spec.fresh_genericList
  | case2 =>
    cases h
    exact Node.fresh_list _
  | case3 =>
    cases h
    exact Node.fresh_list _
  | case4 => cases h
  | case5 => cases h
  -- a registered definition, and what it refers to is built before it:
  | case6 path name d hfound hpath _ _ ih =>
    obtain ⟨s, hs, hrest⟩ := bind_eq_ok.1 h
    have hfresh : s.Fresh Node.Fresh :=
      Spec.fresh_of_build (fun name m hm => ih name hm) (fun m hm => hm.hasValue) hs
    split at hrest
    · cases hrest
      refine Node.fresh_choice (Choice.fresh_ofField _ _ _ fun s' hs' => ?_) rfl
      cases hs'
      exact hfresh
    · cases hrest
      exact Node.fresh_spec hfresh
  | case7 =>
    cases h
    exact Node.fresh_choice (Choice.fresh_ofField _ _ _ fun s hs => by cases hs) rfl
  | case8 => cases h

/-- A tree that was just built is sound and holds no value. -/
theorem Catalog.fresh_of_build {catalog : Catalog} {name : String} {n : Node}
    (h : catalog.build name = .ok n) : n.Fresh :=
  fresh_of_buildBelow h

end SpecTree
