import SpecTree.Proofs.Filling.Slots

/-!
# Where the values of a tree come from

Every value in a tree, shown or not, was written at its path: it is the value of one of the
settings there, coerced to the type of its slot. Main statements:

* `Catalog.onlyHolds_of_build`: a fresh tree holds no value at all;
* `Node.stepwise_onlyHolds`: edits add no values but those of their settings;
* `Node.OnlyHolds.value`: what that means for a value that is shown.
-/

namespace SpecTree

/-! ## Fresh slots -/

section Fresh

variable {ν : Type} {S : ν → Prop} {make : String → Except TreeError ν}

/-- Nothing was written to the slot yet, and the sub-spec in it is fresh. -/
def Parameter.IsFresh (S : ν → Prop) (_ : String) (p : Parameter ν) : Prop := p.Fresh S

theorem Collection.Fresh.everySlot {c : Collection ν} (h : c.Fresh S) :
    c.EverySlot (Parameter.IsFresh S) :=
  fun _ p hp => h.parameters p (Parameter.mem_of_find? hp)

/-- Alternatives that are built have only fresh slots. -/
theorem OneOf.everySlot_of_ofBranches {branches : List (Collection ν)} {o : OneOf ν}
    (hbranches : ∀ b ∈ branches, b.Fresh S) (ho : OneOf.ofBranches branches = .ok o) :
    o.EverySlot (Parameter.IsFresh S) := by
  obtain ⟨-, rfl⟩ := ofBranches_eq_ok.1 ho
  intro i k p hp
  obtain ⟨b, hb, hbp⟩ := declared?_eq_some.1 hp
  exact (hbranches b (List.mem_of_getElem? hb)).everySlot k p hbp

/-- A conditional that is built has only fresh slots. -/
theorem Conditional.everySlot_of_ifThenElse {case : Parameter ν} {whenTrue whenFalse : Collection ν}
    {s : Conditional ν} (hcase : case.Fresh S) (htrue : whenTrue.Fresh S) (hfalse : whenFalse.Fresh S)
    (hs : Conditional.ifThenElse case whenTrue whenFalse = .ok s) :
    s.EverySlot (Parameter.IsFresh S) := by
  unfold Conditional.ifThenElse Conditional.ofBranches at hs
  split at hs
  · obtain ⟨checked, hchecked, hpure⟩ := bind_eq_ok.1 hs
    cases hpure
    refine ⟨hcase, fun g hg => ?_⟩
    obtain ⟨g', hg', hcheck⟩ := exists_of_mem_mapM hchecked hg
    obtain ⟨v, -, hpure⟩ := bind_eq_ok.1 hcheck
    cases hpure
    rcases List.mem_cons.1 hg' with rfl | hg'
    · exact htrue.everySlot
    · rw [List.mem_singleton.1 hg']
      exact hfalse.everySlot
  · cases hs

/-- A component that is built has only fresh slots. -/
theorem Component.everySlot_of_build {part : Part} {c : Component ν} (hmake : Makes S make)
    (hc : part.build make = .ok c) : c.EverySlot (Parameter.IsFresh S) := by
  cases Part.built_of_build hc with
  | parameters hc' => exact (Collection.fresh_of_buildAll hmake hc').everySlot
  | oneOf hbuilt ho =>
    refine OneOf.everySlot_of_ofBranches (fun b hb => ?_) ho
    obtain ⟨ds, -, hds⟩ := exists_of_mem_mapM hbuilt hb
    exact Collection.fresh_of_buildAll hmake hds
  | conditional hcase hyes hno hs =>
    exact Conditional.everySlot_of_ifThenElse (Parameter.fresh_of_build hmake hcase)
      (Collection.fresh_of_buildAll hmake hyes) (Collection.fresh_of_buildAll hmake hno) hs

/-- A spec that is built has only fresh slots. -/
theorem Spec.everySlot_of_build {d : Definition} {s : Spec ν} (hmake : Makes S make)
    (hs : d.build make = .ok s) : s.EverySlot (Parameter.IsFresh S) := by
  intro c hc
  obtain ⟨part, -, hpart⟩ := Definition.exists_part_of_build hs hc
  exact Component.everySlot_of_build hmake hpart

theorem Choice.everySlot_ofField (name field : String) (placement : Placement)
    {others : Option (Spec ν)} (h : ∀ s, others = some s → s.EverySlot (Parameter.IsFresh S)) :
    (Choice.ofField name field placement others).body.EverySlot (Parameter.IsFresh S) := by
  have hempty : (Spec.ofName name : Spec ν).EverySlot (Parameter.IsFresh S) :=
    List.forall_mem_nil _
  refine Choice.body_ofField name field placement hempty
    (hempty.push (Collection.everySlot_ofList ?_))
    fun s hs _ hown => hown.merge ((h s hs).removeParameter _)
  exact List.forall_mem_singleton.2 (Parameter.fresh_primitive _ _)

end Fresh

/-! ## Allowed values -/

/-- The values that are allowed at a path, in a slot of a type. -/
abbrev Allowance := List String → TypeRef → Value → Prop

/-- What is allowed in the sub-spec under a key. -/
def Allowance.below (V : Allowance) (key : String) : Allowance := fun path => V (key :: path)

/-- The value of a slot is allowed, unless the slot is that for the type of a choice, and its
sub-spec is good. -/
structure Parameter.Allowed (V : Allowance) (T : String → Node → Prop) (typeKey? : Option String)
    (key : String) (p : Parameter Node) : Prop where
  value : typeKey? ≠ some key → ∀ w, p.value = some w → V [key] p.type w
  node : ∀ m, p.node = some m → T key m

/-- All values in a tree, shown or not, are allowed at their paths. -/
inductive Node.OnlyHolds : Allowance → Node → Prop
  | of (V : Allowance) (T : String → Node → Prop) (n : Node)
      (sub : ∀ key m, T key m → OnlyHolds (V.below key) m)
      (every : n.EverySlot (Parameter.Allowed V T n.typeKey?)) : OnlyHolds V n

namespace Node

variable {V : Allowance} {catalog : Catalog} {n n' m : Node} {key : String}

/-- A slot of a tree in which all values are allowed. -/
def SlotHolds (V : Allowance) (typeKey? : Option String) : String → Parameter Node → Prop :=
  Parameter.Allowed V (fun key m => m.OnlyHolds (V.below key)) typeKey?

/-- Each slot of such a tree holds what is allowed in it. -/
theorem OnlyHolds.every (h : n.OnlyHolds V) : n.EverySlot (SlotHolds V n.typeKey?) := by
  cases h with
  | of V T n sub every =>
    exact every.mono fun key p hp => ⟨hp.value, fun m hm => sub key m (hp.node m hm)⟩

theorem onlyHolds_of_every (h : n.EverySlot (SlotHolds V n.typeKey?)) : n.OnlyHolds V :=
  .of V _ n (fun _ _ hm => hm) h

/-- What is shown at the end of a path is allowed there. -/
theorem OnlyHolds.value {path : List String} {p : Parameter Node} {w : Value} (h : n.OnlyHolds V)
    (hm : n.descend? path = some m) (hp : m.parameter? key = some p) (hkey : m.typeKey? ≠ some key)
    (hw : p.value = some w) : V (path ++ [key]) p.type w := by
  induction path generalizing n V with
  | nil =>
    cases hm
    exact (h.every.parameter? hp).value hkey w hw
  | cons k path ih =>
    obtain ⟨c, hc, hcm⟩ := Option.bind_eq_some_iff.1 hm
    obtain ⟨q, hq, hqc⟩ := Option.bind_eq_some_iff.1 hc
    exact ih ((h.every.parameter? hq).node c hqc) hcm

/-! ## Fresh trees -/

/-- A fresh slot holds nothing that could be forbidden. -/
theorem slotHolds_of_fresh {S : Node → Prop} (hS : ∀ m, S m → ∀ V, m.OnlyHolds V) (V : Allowance)
    (typeKey? : Option String) (key : String) (p : Parameter Node) (h : p.Fresh S) :
    SlotHolds V typeKey? key p where
  value _ w hw := by
    rw [h.value] at hw
    cases hw
  node m hm := hS m (h.fit.sub (h.fit.isPrimitive_of_node hm) hm) _

/-- A tree of fresh slots holds nothing that could be forbidden. -/
theorem onlyHolds_of_fresh {S : Node → Prop} (hS : ∀ m, S m → ∀ V, m.OnlyHolds V)
    (h : n.EverySlot (Parameter.IsFresh S)) (V : Allowance) : n.OnlyHolds V :=
  onlyHolds_of_every (h.mono (slotHolds_of_fresh hS V _))

end Node

namespace Catalog

variable {catalog : Catalog} {n : Node}

/-- A tree that is built holds nothing that could be forbidden. The induction follows the builder.
-/
theorem onlyHolds_of_buildBelow {path : List String} {name : String}
    (h : catalog.buildBelow path name = .ok n) : ∀ V, n.OnlyHolds V := by
  have hnone : ∀ m : Node, False → ∀ V, m.OnlyHolds V := fun _ hm => hm.elim
  fun_induction Catalog.buildBelow catalog path name generalizing n with
  | case1 =>
    cases h
    refine Node.onlyHolds_of_fresh hnone (List.forall_mem_singleton.2 ?_)
    exact Collection.everySlot_ofList (List.forall_mem_nil _)
  | case2 =>
    cases h
    refine Node.onlyHolds_of_fresh hnone fun k p hp => ?_
    cases hp
  | case3 =>
    cases h
    refine Node.onlyHolds_of_fresh hnone fun k p hp => ?_
    cases hp
  | case4 => cases h
  | case5 => cases h
  -- a registered definition, and what it refers to is built before it:
  | case6 path name d hfound hpath _ _ ih =>
    obtain ⟨s, hs, hrest⟩ := bind_eq_ok.1 h
    have hmake : Makes (fun m => ∀ V, m.OnlyHolds V) (catalog.buildBelow (path ++ [name])) :=
      fun name m hm => ih name hm
    have hfresh := Spec.everySlot_of_build hmake hs
    split at hrest
    · cases hrest
      apply Node.onlyHolds_of_fresh fun _ hm => hm
      refine Choice.everySlot_ofField _ _ _ fun s' hs' => ?_
      cases hs'
      exact hfresh
    · cases hrest
      exact Node.onlyHolds_of_fresh (fun _ hm => hm) hfresh
  | case7 =>
    cases h
    apply Node.onlyHolds_of_fresh hnone
    exact Choice.everySlot_ofField _ _ _ fun s hs => by cases hs
  | case8 => cases h

/-- A fresh tree holds no value, and so whatever values are allowed, it holds only these. -/
theorem onlyHolds_of_build {name : String} (h : catalog.build name = .ok n) (V : Allowance) :
    n.OnlyHolds V :=
  onlyHolds_of_buildBelow h V

/-- Whatever a catalog builds goes into a slot that holds what is allowed. -/
theorem buildsSlots_slotHolds (catalog : Catalog) (V : Allowance) (typeKey? : Option String) :
    catalog.BuildsSlots (Node.SlotHolds V typeKey?) where
  primitive k t := ⟨fun _ w hw => (by cases hw), fun m hm => (by cases hm)⟩
  derived k name node hnode := by
    refine ⟨fun _ w hw => (by cases hw), fun m hm => ?_⟩
    cases hm
    exact onlyHolds_of_build hnode _
  spec name s hs := by
    have hholds := (onlyHolds_of_build hs V).every
    exact Spec.EverySlot.mono hholds fun k p hp => ⟨fun _ => hp.value nofun, hp.node⟩

end Catalog

/-! ## Edits -/

/-- The path of a key that is set. -/
def Setting.target (s : Setting) : List String := s.path ++ [s.key]

/-- What is written is allowed, in slots of any type that take it. -/
def Setting.IsAllowed (V : Allowance) (s : Setting) : Prop :=
  ∀ t w, s.value.coerce t = .ok w → V s.target (.primitive t) w

namespace Node

variable {V : Allowance} {catalog : Catalog} {n n' m : Node} {key : String} {value : Value}

/-- A slot takes over a value that is allowed at its key. -/
theorem takes_slotHolds (typeKey? : Option String)
    (h : typeKey? ≠ some key → ∀ t w, value.coerce t = .ok w → V [key] (.primitive t) w) :
    Parameter.Takes (SlotHolds V typeKey?) key value := by
  have hset : ∀ (p : Parameter Node) w, (∀ m, p.node = some m → m.OnlyHolds (V.below key)) →
      p.check value = .ok w → SlotHolds V typeKey? key { p with value := some w } := by
    intro p w hnode hw
    refine ⟨fun hkey u hu => ?_, hnode⟩
    cases hu
    obtain ⟨t, ht, hcoerce⟩ := Parameter.check_eq_ok.1 hw
    show V [key] p.type w
    rw [ht]
    exact h hkey t w hcoerce
  refine ⟨fun p w hp => hset p w hp.node, fun p hp => ?_⟩
  obtain ⟨w, hw, rfl⟩ := Parameter.set_eq_ok.1 hp
  exact hset _ w (fun m hm => by cases hm) hw

/-- A write of an allowed value keeps a tree allowed. -/
theorem OnlyHolds.set (h : n.OnlyHolds V)
    (hV : ∀ t w, value.coerce t = .ok w → V [key] (.primitive t) w)
    (hset : Node.set catalog key value n = .ok () n') : n'.OnlyHolds V := by
  apply onlyHolds_of_every
  rw [(akin_of_set hset).typeKey?]
  refine h.every.set (catalog.buildsSlots_slotHolds V _) (takes_slotHolds _ fun hkey => ?_) hset
  rw [written, if_neg hkey]
  exact hV

/-- An append keeps a tree allowed. -/
theorem OnlyHolds.append (h : n.OnlyHolds V) (happend : appendEmpty catalog key n = .ok () n') :
    n'.OnlyHolds V := by
  apply onlyHolds_of_every
  have hevery := h.every.append (catalog.buildsSlots_slotHolds V _) happend
  obtain ⟨l, l', rfl, rfl, -⟩ := appendEmpty_eq_ok happend
  exact hevery

/-- An edit of the sub-spec that is handed out, if there is one. -/
theorem OnlyHolds.within {α : Type} (h : n.OnlyHolds V) (key : String) (act : Edit Node α)
    (hact : ∀ m, n.handedOut? key = some m → m.OnlyHolds (V.below key) →
      (act.stateAfter m).OnlyHolds (V.below key)) :
    ((Node.within key act).stateAfter n).OnlyHolds V := by
  apply onlyHolds_of_every
  rw [(akin_within key act n).typeKey?]
  rcases h.every.reach key with ⟨n', ⟨e, he⟩, hn'⟩ | ⟨p, m, put, hp, hm, hreaches, hput⟩
  · rw [Edit.stateAfter_of_error (he act)]
    exact hn'
  · rw [Edit.stateAfter_of_through (hreaches act)]
    refine hput _ ⟨hp.value, fun m' hm' => ?_⟩
    cases hm'
    exact hact m (handedOut?_of_reaches hreaches) (hp.node m hm)

/-- No edit adds a value but what it sets. -/
theorem stepwise_onlyHolds (catalog : Catalog) : Stepwise catalog fun ss n n' =>
    ∀ V, (∀ s ∈ ss, s.IsAllowed V) → n.OnlyHolds V → n'.OnlyHolds V where
  refl n V _ h := h
  trans h h' V hV hn :=
    h' V (fun s hs => hV s (List.mem_append_right _ hs))
      (h V (fun s hs => hV s (List.mem_append_left _ hs)) hn)
  set n key value V hV h := by
    cases hset : Node.set catalog key value n with
    | error e n' =>
      rw [Edit.stateAfter_of_error hset, set_error hset]
      exact h
    | ok u n' =>
      rw [Edit.stateAfter_of_ok hset]
      exact h.set (hV _ List.mem_cons_self) hset
  append n name V _ h := by
    cases happend : appendEmpty catalog name n with
    | error e n' =>
      rw [Edit.stateAfter_of_error happend, appendEmpty_error happend]
      exact h
    | ok u n' =>
      rw [Edit.stateAfter_of_ok happend]
      exact h.append happend
  within n key α act settings hact V hV h := by
    refine h.within key act fun m hm hholds => hact m _ (fun s hs => ?_) hholds
    -- the setting is one of the sub-spec, seen from the node:
    have hbelow : s.below key ∈ n.settingsBelow key settings := by
      unfold settingsBelow
      rw [hm]
      exact List.mem_map_of_mem hs
    exact hV _ hbelow

end Node

end SpecTree
