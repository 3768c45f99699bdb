import SpecTree.Proofs.Filling.Slots
import SpecTree.Proofs.Sharing

/-!
# Typed trees

A tree holds more than it shows: branches that writes have closed, groups that are not chosen, and
whatever their sub-specs hold. All of that stays typed, from the time a registry gives the tree out
and whatever is done to it. Main statements:

* `Node.WellTyped`: what is held in the slots of a node, and under which names;
* `Node.Occurs.of_descend?`: a node that can be reached from the root is one of the tree;
* `Registry.wellTyped_of_occurs`: every node of a tree is well typed, after any operations.
-/

namespace SpecTree

variable {ν : Type}

/-! ## Parameters -/

/-- A slot for a value has no sub-spec, and its value and its default are of its type; a slot for a
sub-spec has one, and neither a value nor a default. With a default nothing more is needed. -/
structure Parameter.WellTyped (p : Parameter ν) : Prop where
  primitive : ∀ t, p.type = .primitive t →
    p.node = none ∧ (∀ v, p.value = some v → v.type = t) ∧ ∀ v, p.default = some v → v.type = t
  derived : ∀ s, p.type = .spec s → p.node.isSome ∧ p.value = none ∧ p.default = none
  optional : p.default.isSome → p.isOptional = true

namespace Parameter

variable {S : ν → Prop} {p : Parameter ν}

theorem Fit.type_of_held (h : p.Fit S) {t : Primitive} (ht : p.type = .primitive t) {v : Value}
    (hv : p.value = some v ∨ p.default = some v) : v.type = t := by
  have hsame := (h.typed v hv).symm.trans ht
  cases hsame
  rfl

/-- A slot for a sub-spec takes no value. -/
theorem Fit.not_held (h : p.Fit S) {s : String} (hs : p.type = .spec s) (v : Value) :
    ¬ (p.value = some v ∨ p.default = some v) := by
  intro hv
  have hsame := hs.symm.trans (h.typed v hv)
  cases hsame

theorem Fit.wellTyped (h : p.Fit S) : p.WellTyped where
  primitive t ht := by
    have hnode : p.node = none := h.node_none (isPrimitive_iff.2 ⟨t, ht⟩)
    exact ⟨hnode, fun _ hv => h.type_of_held ht (.inl hv), fun _ hv => h.type_of_held ht (.inr hv)⟩
  derived s hs := by
    obtain ⟨m, hm, -⟩ := h.node_some (isPrimitive_eq_false_iff.2 ⟨s, hs⟩)
    have hnone := h.not_held hs
    refine ⟨Option.isSome_iff_exists.2 ⟨m, hm⟩, ?_, ?_⟩
    · exact Option.eq_none_iff_forall_ne_some.2 fun v hv => hnone v (.inl hv)
    · exact Option.eq_none_iff_forall_ne_some.2 fun v hv => hnone v (.inr hv)
  optional := h.optional

/-- Where no name comes twice, a name leads to the one parameter that has it. -/
theorem find?_eq_some_iff {ps : List (Parameter ν)} (h : Distinct ps) {k : String} :
    find? ps k = some p ↔ p ∈ ps ∧ p.name = k := by
  constructor
  · exact fun hfound => ⟨mem_of_find? hfound, name_of_find? hfound⟩
  · rintro ⟨hmem, rfl⟩
    exact find?_of_mem h hmem

end Parameter

/-! ## What a node holds -/

namespace Component

/-- The collections of a component, open or not. -/
def collections : Component ν → List (Collection ν)
  | collection c => [c]
  | oneOf o => o.branches
  | conditional s => s.branches.map (·.2)

/-- The parameters of a component, shown or not. -/
def slots : Component ν → List (Parameter ν)
  | collection c => c.parameters
  | oneOf o => o.branches.flatMap (·.parameters)
  | conditional s => s.case :: s.branches.flatMap (·.2.parameters)

variable [Judged ν] {S : ν → Prop} {c : Component ν}

theorem Fit.collection (h : c.Fit S) {d : Collection ν} (hd : d ∈ c.collections) : d.Fit S := by
  cases c with
  | collection c =>
    cases List.mem_singleton.1 hd
    exact h
  | oneOf o => exact OneOf.Fit.branches h d hd
  | conditional s =>
    obtain ⟨g, hg, rfl⟩ := List.mem_map.1 hd
    exact Conditional.Fit.groups h g hg

theorem Fit.slot (h : c.Fit S) {p : Parameter ν} (hp : p ∈ c.slots) : p.Fit S := by
  cases c with
  | collection c => exact Collection.Fit.parameters h p hp
  | oneOf o =>
    obtain ⟨b, hb, hpb⟩ := List.mem_flatMap.1 hp
    exact (OneOf.Fit.branches h b hb).parameters p hpb
  | conditional s =>
    rcases List.mem_cons.1 hp with rfl | hp
    · exact Conditional.Fit.case h
    · obtain ⟨g, hg, hpg⟩ := List.mem_flatMap.1 hp
      exact (Conditional.Fit.groups h g hg).parameters p hpg

omit [Judged ν] in
/-- What is found under a key anywhere in a component is in a slot of it. -/
theorem everySlot_slots (c : Component ν) : c.EverySlot fun _ p => p ∈ c.slots := by
  cases c with
  | collection c => exact fun _ _ hp => Parameter.mem_of_find? hp
  | oneOf o =>
    intro i k p hp
    obtain ⟨b, hb, hpb⟩ := Option.bind_eq_some_iff.1 hp
    exact List.mem_flatMap.2 ⟨b, List.mem_of_getElem? hb, Parameter.mem_of_find? hpb⟩
  | conditional s =>
    refine ⟨List.mem_cons_self, fun g hg k p hp => List.mem_cons_of_mem _ ?_⟩
    exact List.mem_flatMap.2 ⟨g, hg, Parameter.mem_of_find? hp⟩

end Component

namespace Node

/-- The parameters of a node, shown or not. -/
def slots : Node → List (Parameter Node)
  | spec s => s.components.flatMap Component.slots
  | list l => l.entries
  | choice c => c.body.components.flatMap Component.slots

/-- The slots of a node are well typed, and a name leads to the one slot of a collection, or of a
list, that has it. -/
structure WellTyped (n : Node) : Prop where
  slots : ∀ p ∈ n.slots, p.WellTyped
  collections : ∀ d ∈ n.components, ∀ c ∈ d.collections, ∀ k p,
    c.parameter? k = some p ↔ p ∈ c.parameters ∧ p.name = k
  entries : ∀ l, n = .list l → ∀ k p, l.parameter? k = some p ↔ p ∈ l.entries ∧ p.name = k

/-- A node is part of a tree: it is the root, or part of a sub-spec in one of the root's slots. -/
inductive Occurs (m : Node) : Node → Prop
  | root : Occurs m m
  | inside {n sub : Node} {p : Parameter Node} (hp : p ∈ n.slots) (hsub : p.node = some sub)
    (h : Occurs m sub) : Occurs m n

variable {n m : Node}

theorem Sound.fit_of_mem_slots (h : n.Sound) {p : Parameter Node} (hp : p ∈ n.slots) :
    p.Fit Sound := by
  have hcomponents := fit_of_mem_components h
  cases n with
  | list l => exact EntryList.Fit.entries h.fit p hp
  | spec s =>
    obtain ⟨d, hd, hpd⟩ := List.mem_flatMap.1 hp
    exact (hcomponents d hd).slot hpd
  | choice c =>
    obtain ⟨d, hd, hpd⟩ := List.mem_flatMap.1 hp
    exact (hcomponents d hd).slot hpd

theorem Sound.wellTyped (h : n.Sound) : n.WellTyped where
  slots _ hp := (h.fit_of_mem_slots hp).wellTyped
  collections d hd _ hc _ _ :=
    Parameter.find?_eq_some_iff ((fit_of_mem_components h d hd).collection hc).distinct
  entries l hl _ _ := by
    subst hl
    exact Parameter.find?_eq_some_iff (EntryList.Fit.distinct h.fit)

/-! ## Parts of a tree -/

/-- A sound tree is sound in all its parts. -/
theorem Sound.of_occurs (h : n.Sound) (hm : m.Occurs n) : m.Sound := by
  induction hm with
  | root => exact h
  | inside hp hsub _ ih =>
    have hfit := h.fit_of_mem_slots hp
    exact ih (hfit.sub (hfit.isPrimitive_of_node hsub) hsub)

theorem everySlot_slots (n : Node) : n.EverySlot fun _ p => p ∈ n.slots := by
  cases n with
  | list l => exact fun _ _ hp => Parameter.mem_of_find? hp
  | spec s =>
    exact fun d hd => (Component.everySlot_slots d).mono fun _ _ hp =>
      List.mem_flatMap.2 ⟨d, hd, hp⟩
  | choice c =>
    exact fun d hd => (Component.everySlot_slots d).mono fun _ _ hp =>
      List.mem_flatMap.2 ⟨d, hd, hp⟩

/-- What is shown is part of what there is. -/
theorem mem_slots_of_parameter? {k : String} {p : Parameter Node} (hp : n.parameter? k = some p) :
    p ∈ n.slots :=
  EverySlot.parameter? (everySlot_slots n) hp

/-- A node at the end of a path of keys is part of the tree. -/
theorem Occurs.of_descend? {path : List String} (hm : n.descend? path = some m) : m.Occurs n := by
  induction path generalizing n with
  | nil =>
    cases hm
    exact .root
  | cons key path ih =>
    obtain ⟨sub, hsub, hrest⟩ := Option.bind_eq_some_iff.1 hm
    obtain ⟨p, hp, hpsub⟩ := Option.bind_eq_some_iff.1 hsub
    exact .inside (mem_slots_of_parameter? hp) hpsub (ih hrest)

end Node

/-! ## Trees of a registry -/

namespace Registry

/-- **Trees stay typed.** In every tree that a registry gives out, after any operations, whether
they succeed or fail, every node is well typed, in closed branches and groups that are not chosen
too. -/
theorem wellTyped_of_occurs {r : Registry} {n m : Node} (hn : r.Reachable n) (hm : m.Occurs n) :
    m.WellTyped :=
  (hn.sound.of_occurs hm).wellTyped

/-- Alternatives of which one has a sub-spec, and a default in it. -/
def exampleClosed : Registry :=
  ofLines ["``[outer-spec]``", "ONE OF", "* `\"a`\" ``[int]``", "OR",
    "* `\"sub`\" ``[inner-spec]``", "END", "", "``[inner-spec]``",
    "* `\"x`\" ``[int]`` **3**", "* `\"flags`\" ``[Array(bool)]``"]

/-- The branch with the sub-spec is closed by a write to the other one. -/
theorem wellTyped_of_occurs_exampleClosed :
    ∃ n m p, exampleClosed.Reachable n ∧ p ∈ n.slots ∧ n.parameter? p.name = none ∧
      p.node = some m ∧ (∃ q ∈ m.slots, q.default.isSome) ∧ m.WellTyped := by
  obtain ⟨n, hget, hrun⟩ := exists_of_get exampleClosed "outer-spec" (fun n =>
    let written := Operation.applyAll exampleClosed.catalog [.set "a" (.string "1")] n
    written.slots.any fun p => (written.parameter? p.name).isNone &&
      p.node.any fun m => m.slots.any fun q => q.default.isSome) (by decide +kernel)
  have hn := (Reachable.get hget).run [.set "a" (.string "1")]
  obtain ⟨p, hp, hrest⟩ := List.any_eq_true.1 hrun
  obtain ⟨hhidden, hnode⟩ := Bool.and_eq_true_iff.1 hrest
  obtain ⟨m, hm, hdefault⟩ := (Option.any_eq_true _ _).1 hnode
  obtain ⟨q, hq, hsome⟩ := List.any_eq_true.1 hdefault
  exact ⟨_, m, p, hn, hp, Option.isNone_iff_eq_none.1 hhidden, hm, ⟨q, hq, hsome⟩,
    wellTyped_of_occurs hn (.inside hp hm .root)⟩

end Registry

end SpecTree
