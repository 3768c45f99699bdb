import SpecTree.Proofs.Persistence

/-!
# Every node of a tree

A fact about single nodes (what a list takes, how a component looks) holds of every node of every
tree that a registry gives out, if it holds of what is built and no operation on a node ends it
(`Node.Lasting`). Main statements:

* `Node.fit_set`, `Node.fit_append`, `Node.fit_within`: what operations make of sub-specs;
* `Node.Lasting.built`: what was just built, and all of its nodes;
* `Node.Lasting.reachable`: what a registry gives out, after any operations.
-/

namespace SpecTree

/-- The tree is fit, and all its nodes, hidden ones too, have a property. -/
inductive Node.Everywhere (P : Node → Prop) : Node → Prop
  | of (S : Node → Prop) (n : Node) (sub : ∀ m, S m → Everywhere P m) (fit : n.Fit S) (here : P n) :
    Everywhere P n

namespace Node

variable {P : Node → Prop} {n : Node}

/-- What holds everywhere in a tree holds everywhere in its sub-specs. -/
theorem Everywhere.fit (h : Everywhere P n) : n.Fit (Everywhere P) := by
  cases h with
  | of S n sub fit here => exact fit.mono sub

theorem Everywhere.here (h : Everywhere P n) : P n := by
  cases h with
  | of S n sub fit here => exact here

theorem everywhere_of_fit (h : n.Fit (Everywhere P)) (here : P n) : Everywhere P n :=
  .of _ n (fun _ hm => hm) h here

/-- A tree in which something holds everywhere is sound. -/
theorem Everywhere.sound (h : Everywhere P n) : n.Sound := by
  induction h with
  | of S n sub fit here ih => exact .of S n ih fit

end Node

/-! ## What operations make of sub-specs -/

section Fit

variable {S : Node → Prop} {catalog : Catalog}

/-- A chosen type puts a sub-spec of the same kind into the body. -/
theorem Choice.fit_setType {type : String} {c c' : Choice Node} (hmake : Makes S catalog.build)
    (hS : ∀ m, S m → m.Fit S) (h : c.body.Fit S) (hset : setType catalog type c = .ok () c') :
    c'.body.Fit S := by
  obtain ⟨variant, node, body, hvariant, hwrite, rfl⟩ := setType_eq_ok hset
  have hnode : S node := hmake _ _ (variantFor_eq_ok.1 hvariant).2.2
  have hbody : body.Fit S := by
    rcases writeType_cases hwrite with ⟨-, hset⟩ | ⟨-, rfl⟩
    · exact (Spec.kept_set h hset).fit
    · exact h
  exact fit_chosen hbody hnode (hS node hnode)

/-- The edit keeps sub-specs good, and does not take their values. -/
def Edit.Preserves {α : Type} (S : Node → Prop) (act : Edit Node α) : Prop :=
  ∀ m, S m → S (act.stateAfter m) ∧
    (Judged.hasValue m = true → Judged.hasValue (act.stateAfter m) = true)

/-- What becomes of a part when the sub-spec is edited that it hands out. -/
theorem View.fit_stateAfter {σ α : Type} {V : View σ Node}
    {within : {α : Type} → Edit Node α → Edit σ α} {s : σ} {key : String} {act : Edit Node α}
    (hsub : ∀ p, V.parameter? s key = some p → p.Fit S)
    (hreach : (∃ s', Edit.Refuses within s s' ∧ V.Kept S (fun _ _ => True) s s') ∨
      ∃ p m put, V.HandsOut S key s p m put ∧ Edit.Reaches within s m put)
    (hact : act.Preserves S) : V.Fit ((within act).stateAfter s) := by
  rcases hreach with ⟨s', ⟨e, he⟩, hkept⟩ | ⟨p, m, put, hout, hreaches⟩
  · rw [Edit.stateAfter_of_error (he act)]
    exact hkept.fit
  · rw [Edit.stateAfter_of_through (hreaches act)]
    obtain ⟨hm, hvalue⟩ := hact m ((hsub p hout.shown).sub hout.isPrimitive hout.node)
    exact (hout.kept _ hm hvalue).fit

namespace Node

variable {n n' : Node} {key : String}

/-- A write leaves a node with sub-specs of one kind. -/
theorem fit_set {value : Value} (hmake : Makes S catalog.build) (hS : ∀ m, S m → m.Fit S)
    (h : n.Fit S) (hset : Node.set catalog key value n = .ok () n') : n'.Fit S := by
  cases written_of_set hset with
  | spec hpart => exact (Spec.kept_set h hpart).fit
  | list hpart => exact (EntryList.kept_set h hpart).fit
  | type _ hpart => exact Choice.fit_setType hmake hS h hpart
  | @body c _ _ hpart => exact (Spec.kept_set (s := c.body) h hpart).fit

/-- An append puts in an entry of the same kind. -/
theorem fit_append (hmake : Makes S catalog.build) (h : n.Fit S)
    (happend : appendEmpty catalog key n = .ok () n') : n'.Fit S := by
  obtain ⟨l, l', rfl, rfl, hpart⟩ := appendEmpty_eq_ok happend
  exact (EntryList.kept_append h hmake hpart).fit

/-- An edit of a sub-spec that keeps it good keeps the whole fit. -/
theorem fit_within {α : Type} (h : n.Fit S) (key : String) (act : Edit Node α)
    (hact : act.Preserves S) : ((within key act).stateAfter n).Fit S := by
  cases n with
  | spec s =>
    rw [Edit.stateAfter_of_through (within_spec key act s)]
    exact View.fit_stateAfter (V := Spec.view S) (fun _ hp => Spec.fit_of_parameter? h hp)
      (Spec.reach_cases h key) hact
  | list l =>
    rw [Edit.stateAfter_of_through (within_list key act l)]
    exact View.fit_stateAfter (V := EntryList.view S)
      (fun p hp => EntryList.Fit.entries h p (Parameter.mem_of_find? hp))
      (EntryList.reach_cases h key) hact
  | choice c =>
    rw [Edit.stateAfter_of_through (within_choice key act c)]
    exact View.fit_stateAfter (V := Spec.view S)
      (fun _ hp => Spec.fit_of_parameter? (s := c.body) h hp) (Spec.reach_cases h key) hact

end Node

end Fit

/-! ## Lasting facts -/

/-- Was the spec built from a definition of the catalog? -/
def Catalog.Describes (catalog : Catalog) (s : Spec Node) : Prop :=
  ∃ name d make, catalog.index.find? name = some d ∧ d.build make = .ok s

/-- A fact about single nodes that holds of what is built, and that no operation on a node ends.
What an edit of a sub-spec does there does not matter for the fact. -/
structure Node.Lasting (catalog : Catalog) (P : Node → Prop) : Prop where
  generic : P (.spec .genericList)
  list : ∀ element, (∀ s, element = .spec s → catalog.resolvable s = true) →
    P (.list (.ofElement element))
  spec : ∀ s, catalog.Describes s → P (.spec s)
  choice : ∀ name field placement others, (∀ s, others = some s → catalog.Describes s) →
    P (.choice (.ofField name field placement others))
  set : ∀ {n n' key value}, n.Sound → P n → Node.set catalog key value n = .ok () n' → P n'
  append : ∀ {n n' name}, P n → Node.appendEmpty catalog name n = .ok () n' → P n'
  within : ∀ {n key} {α : Type} (act : Edit Node α), n.Sound → P n →
    P ((Node.within key act).stateAfter n)

namespace Node

variable {catalog : Catalog} {P : Node → Prop} {n : Node}

/-! ### What is built -/

/-- What lasts holds everywhere in a tree that is built. The induction follows the builder. -/
theorem Lasting.builtBelow (hP : Lasting catalog P) {path : List String} {name : String}
    (h : catalog.buildBelow path name = .ok n) : Everywhere P n := by
  fun_induction Catalog.buildBelow catalog path name generalizing n with
  | case1 =>
    cases h
    exact everywhere_of_fit Spec.fresh_genericList.fit hP.generic
  | case2 =>
    cases h
    exact everywhere_of_fit ⟨List.nodup_nil, fun _ hp => absurd hp List.not_mem_nil⟩
      (hP.list _ fun _ hs => by cases hs)
  | case3 _ _ _ _ _ hresolvable =>
    cases h
    exact everywhere_of_fit ⟨List.nodup_nil, fun _ hp => absurd hp List.not_mem_nil⟩
      (hP.list _ fun _ hs => by cases hs; exact hresolvable)
  | case4 => cases h
  | case5 => cases h
  -- a registered definition, and what it refers to is built before it:
  | case6 path name d hfound hpath _ _ ih =>
    obtain ⟨s, hs, hrest⟩ := bind_eq_ok.1 h
    have hmake : Makes (fun m => Everywhere P m ∧ Judged.hasValue m = false)
        (catalog.buildBelow (path ++ [name])) :=
      fun name m hm => ⟨ih name hm, (Catalog.fresh_of_buildBelow hm).hasValue⟩
    have hfresh := Spec.fresh_of_build hmake (fun m hm => hm.2) hs
    have hdescribes : catalog.Describes s := ⟨name, d, _, hfound, hs⟩
    split at hrest
    · cases hrest
      refine everywhere_of_fit ?_ (hP.choice _ _ _ _ fun s' hs' => by cases hs'; exact hdescribes)
      show Spec.Fit _ (Choice.ofField _ _ _ (some s)).body
      have hsome : ∀ s', some s = some s' → s'.Fresh _ := fun s' hs' => by
        cases hs'
        exact hfresh
      have hbody := fun field placement => Choice.fresh_ofField name field placement hsome
      exact Spec.Fit.mono (hbody _ _).fit fun _ hm => hm.1
    · cases hrest
      exact everywhere_of_fit (Spec.Fit.mono hfresh.fit fun _ hm => hm.1) (hP.spec s hdescribes)
  | case7 =>
    cases h
    refine everywhere_of_fit ?_ (hP.choice _ _ _ _ fun s hs => by cases hs)
    show Spec.Fit _ (Choice.ofField _ _ _ none).body
    exact (Choice.fresh_ofField _ _ _ fun s hs => by cases hs).fit
  | case8 => cases h

theorem Lasting.built (hP : Lasting catalog P) : Makes (Everywhere P) catalog.build :=
  fun _ _ h => hP.builtBelow h

/-! ### Single operations -/

/-- What lasts holds everywhere after a write, failed or not. -/
theorem Lasting.everywhere_set (hP : Lasting catalog P) (h : Everywhere P n) (key : String)
    (value : Value) : Everywhere P ((Node.set catalog key value).stateAfter n) := by
  cases hset : Node.set catalog key value n with
  | error e n' =>
    rw [Edit.stateAfter_of_error hset, set_error hset]
    exact h
  | ok u n' =>
    rw [Edit.stateAfter_of_ok hset]
    exact everywhere_of_fit (fit_set hP.built (fun _ hm => hm.fit) h.fit hset)
      (hP.set h.sound h.here hset)

/-- What lasts holds everywhere after an append, failed or not. -/
theorem Lasting.everywhere_append (hP : Lasting catalog P) (h : Everywhere P n) (name : String) :
    Everywhere P ((appendEmpty catalog name).stateAfter n) := by
  cases happend : appendEmpty catalog name n with
  | error e n' =>
    rw [Edit.stateAfter_of_error happend, appendEmpty_error happend]
    exact h
  | ok u n' =>
    rw [Edit.stateAfter_of_ok happend]
    exact everywhere_of_fit (fit_append hP.built h.fit happend) (hP.append h.here happend)

/-- What lasts holds everywhere after an edit of a sub-spec that keeps it there. -/
theorem Lasting.everywhere_within {α : Type} (hP : Lasting catalog P) (h : Everywhere P n)
    (key : String) (act : Edit Node α) (hact : act.Preserves (Everywhere P)) :
    Everywhere P ((Node.within key act).stateAfter n) :=
  everywhere_of_fit (fit_within h.fit key act hact) (hP.within act h.sound h.here)

/-- If a sub-spec keeps its value in an edit, so does the node that it is a part of. -/
theorem Everywhere.hasValue_within {α : Type} (h : Everywhere P n) (key : String)
    (act : Edit Node α) (hact : act.Preserves (Everywhere P))
    (hvalue : Judged.hasValue n = true) :
    Judged.hasValue ((Node.within key act).stateAfter n) = true := by
  rcases reach_cases h.sound key with ⟨n', ⟨e, he⟩, hkept⟩ | ⟨p, m, put, hout, hreaches⟩
  · rw [Edit.stateAfter_of_error (he act)]
    exact hkept.hasValue hvalue
  · rw [Edit.stateAfter_of_through (hreaches act)]
    have hm : Everywhere P m := sub_of_handsOut h.fit hout
    obtain ⟨hm', hkeeps⟩ := hact m hm
    exact (hout.kept _ hm'.sound hkeeps).hasValue hvalue

/-! ### Runs -/

/-- No single edit ends a lasting fact, anywhere in the tree. -/
theorem Lasting.stepwise (hP : Lasting catalog P) :
    Stepwise catalog fun _ n n' => Everywhere P n →
      Everywhere P n' ∧ (Judged.hasValue n = true → Judged.hasValue n' = true) where
  refl _ h := ⟨h, id⟩
  trans h h' hn := by
    obtain ⟨hfirst, hvalue⟩ := h hn
    obtain ⟨hlast, hvalue'⟩ := h' hfirst
    exact ⟨hlast, hvalue' ∘ hvalue⟩
  set _ key value h := ⟨hP.everywhere_set h key value, (retains_set h.sound key value).hasValue⟩
  append _ name h := ⟨hP.everywhere_append h name, (retains_appendEmpty h.sound name).hasValue⟩
  within _ key _ act _ hact h :=
    ⟨hP.everywhere_within h key act hact, h.hasValue_within key act hact⟩

/-- A lasting fact holds of every node of a tree that a registry has given out, after any
operations. -/
theorem Lasting.reachable {r : Registry} (hP : Lasting r.catalog P) (h : r.Reachable n) :
    Everywhere P n := by
  induction h with
  | get h => exact hP.built _ _ (Registry.build_of_get h)
  | step _ o ih => exact (hP.stepwise.apply o _ ih).1

/-! ## Going down -/

/-- What holds everywhere in a tree holds everywhere in a child. -/
theorem Everywhere.child {m : Node} {key : String} (h : Everywhere P n)
    (hm : n.child? key = some m) : Everywhere P m := by
  obtain ⟨p, hp, hpm⟩ := Option.bind_eq_some_iff.1 hm
  have hfit := fit_of_parameter? h.fit hp
  exact hfit.sub (hfit.isPrimitive_of_node hpm) hpm

/-- What holds everywhere holds of the node at the end of a path. -/
theorem Everywhere.descend {m : Node} {path : List String} (h : Everywhere P n)
    (hm : n.descend? path = some m) : Everywhere P m := by
  induction path generalizing n with
  | nil =>
    cases hm
    exact h
  | cons key path ih =>
    obtain ⟨c, hc, hcm⟩ := Option.bind_eq_some_iff.1 hm
    exact ih (h.child hc) hcm

end Node

end SpecTree
