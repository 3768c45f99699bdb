import SpecTree.Proofs.Filling.Kind

/-!
# Every slot of a node

What is shown is only a part of what a node holds: branches that are closed and groups that are not
chosen keep their parameters. A property of all slots, whether they are shown or not, survives an
edit if the slots that the edit writes have it afterwards:

* `Node.EverySlot.set`, `Node.EverySlot.append`: of writes and new entries;
* `Node.EverySlot.reach`: a sub-spec that is handed out is one of a slot, and when it is put back no
  other slot becomes anything new.
-/

namespace SpecTree

variable {ν : Type} {Q Q' : String → Parameter ν → Prop} {key : String} {value : Value}

/-- A property of slots that a slot under a key still has when the value is written to it, and that
a new slot has which is made for the value. -/
structure Parameter.Takes (Q : String → Parameter ν → Prop) (key : String) (value : Value) :
    Prop where
  set : ∀ p w, Q key p → p.check value = .ok w → Q key { p with value := some w }
  added : ∀ p, (primitive key value.type).set value = .ok p → Q key p

/-! ## Collections -/

namespace Collection

variable {c c' : Collection ν}

/-- Every parameter has a property, together with its name. -/
def EverySlot (Q : String → Parameter ν → Prop) (c : Collection ν) : Prop :=
  ∀ k p, c.parameter? k = some p → Q k p

/-- A property of every parameter carries over to what follows from it. -/
theorem EverySlot.mono (h : c.EverySlot Q) (hQ : ∀ k p, Q k p → Q' k p) : c.EverySlot Q' :=
  fun k p hp => hQ k p (h k p hp)

/-- A parameter with the property may be put in, also in place of another one. -/
theorem EverySlot.insert (h : c.EverySlot Q) {p : Parameter ν} (hname : p.name = key)
    (hp : Q key p) : (c.insert p).EverySlot Q := by
  intro k q hq
  rw [parameter?_insert, hname] at hq
  split at hq
  · next hk =>
    cases hq
    exact hk ▸ hp
  · exact h k q hq

/-- A write keeps the property, if it is one that a written parameter takes over. -/
theorem EverySlot.set (h : c.EverySlot Q) (hQ : Parameter.Takes Q key value)
    (hset : c.set key value = .ok c') : c'.EverySlot Q := by
  cases hp : c.parameter? key with
  | some p =>
    obtain ⟨w, hw, rfl⟩ := (set_eq_ok hp).1 hset
    have hname : p.name = key := name_of_parameter? hp
    exact h.insert hname (hQ.set p w (h key p hp) hw)
  | none =>
    unfold Collection.set at hset
    rw [hp] at hset
    simp only at hset
    split at hset
    · cases hset
    · obtain ⟨p, hadded, rfl⟩ := map_eq_ok.1 hset
      have hname : p.name = key := by
        obtain ⟨w, -, rfl⟩ := Parameter.set_eq_ok.1 hadded
        rfl
      exact h.insert hname (hQ.added p hadded)

/-- Removing a parameter leaves the others with their property. -/
theorem EverySlot.remove (h : c.EverySlot Q) (key : String) : (c.remove key).EverySlot Q := by
  intro k p hp
  have hfound : (c.parameters.filter (·.name ≠ key)).find? (·.name = k) = some p := hp
  have hkept : p.name ≠ key := by
    simpa using (List.mem_filter.1 (List.mem_of_find?_eq_some hfound)).2
  have hname : p.name = k := by simpa using List.find?_some hfound
  rw [List.find?_filter] at hfound
  refine h k p (Eq.trans ?_ hfound)
  -- what has the name that is looked for was not taken out:
  show c.parameters.find? (·.name = k) = _
  congr 1
  funext q
  by_cases hq : q.name = k
  · simp [hq, ← hname, hkept]
  · simp [hq]

/-- What holds of each parameter of a list holds of the collection that is made of it. -/
theorem everySlot_ofList {ps : List (Parameter ν)} (h : ∀ p ∈ ps, Q p.name p) :
    (ofList ps).EverySlot Q := by
  intro k p hp
  have hmem : p ∈ ps := Parameter.mem_putAll (Parameter.mem_of_find? hp)
  exact Parameter.name_of_find? hp ▸ h p hmem

end Collection

/-! ## Alternatives -/

namespace OneOf

variable {o o' : OneOf ν}

/-- Every parameter of every branch has a property, open or not. -/
def EverySlot (Q : String → Parameter ν → Prop) (o : OneOf ν) : Prop :=
  ∀ i k p, o.declared? i k = some p → Q k p

theorem EverySlot.mono (h : o.EverySlot Q) (hQ : ∀ k p, Q k p → Q' k p) : o.EverySlot Q' :=
  fun i k p hp => hQ k p (h i k p hp)

/-- Also what stands in for the parameter of another branch has the property. -/
theorem EverySlot.shown? (h : o.EverySlot Q) {i : Nat} {k : String} {p : Parameter ν}
    (hp : o.shown? i k = some p) : Q k p := by
  cases hl : o.liveParameter? with
  | none =>
    unfold OneOf.shown? branchParameters at hp
    simp only [hl] at hp
    exact h i k p ((find?_own o i k).symm.trans hp)
  | some l =>
    obtain ⟨owner, q⟩ := l
    rw [shown?_of_liveParameter? hl] at hp
    split at hp
    · exact h i k p hp
    · obtain ⟨r, hr, hrp⟩ := Option.map_eq_some_iff.1 hp
      split at hrp
      · next hsame =>
        -- what is shown in place of the branch's own lives in its owner under the same name:
        obtain ⟨-, hown⟩ := liveParameter?_eq_some.1 hl
        rw [hsame.1, name_of_declared? hr] at hown
        exact hrp ▸ h owner k q hown
      · exact hrp ▸ h i k r hr

/-- A sub-spec may be handed out in a branch, if its parameter has the property. -/
theorem EverySlot.lend (h : o.EverySlot Q) {i : Nat} {p : Parameter ν} (hname : p.name = key)
    (hp : Q key p) : (o.lend key i p).EverySlot Q := by
  intro j k q hq
  rw [declared?_lend, hname] at hq
  split at hq
  · next hk =>
    cases hq
    exact hk.2.1 ▸ hp
  · exact h j k q hq

variable [Judged ν]

/-- Settling copies a parameter under its own name, and so keeps the property. -/
theorem EverySlot.settle (h : o.EverySlot Q) : o.settle.EverySlot Q := by
  intro i k q hq
  rcases settle_cases o with ⟨owner, p, hl, hv⟩ | ⟨heq, -⟩
  · rw [declared?_settle_of_hasValue hl hv] at hq
    split at hq
    · next hshare =>
      -- a copy of the sub-spec that was handed out:
      have hown := h owner p.name p (liveParameter?_eq_some.1 hl).2
      rw [hshare.2, Option.some.inj hq] at hown
      exact hown
    · exact h i k q hq
  · rw [heq] at hq
    exact h i k q hq

/-- A write goes to parameters of several branches, and keeps the property of each. -/
theorem EverySlot.set (h : o.EverySlot Q) (hQ : Parameter.Takes Q key value)
    (hset : OneOf.set key value o = .ok () o') : o'.EverySlot Q := by
  obtain ⟨next, hplan, rfl⟩ := set_eq_ok.1 hset
  have hcheck := check_of_plan_eq_ok ((plan_settle o key (some value)).trans hplan)
  intro i k q hdeclared
  have hq := (declared?_assignedIn hcheck i k).symm.trans hdeclared
  split at hq
  · next hwritten =>
    obtain ⟨hi, rfl⟩ := hwritten
    obtain ⟨p, w, hp, hw⟩ := hcheck i hi
    rw [hp, Option.bind_some, hw] at hq
    cases hq
    exact hQ.set p w (h.settle i key p hp) hw
  · exact h.settle i k q hq

/-- Narrowing leaves the parameters as they are. -/
theorem EverySlot.select (h : o.EverySlot Q) (hselect : OneOf.select key o = .ok () o') :
    o'.EverySlot Q := by
  obtain ⟨next, -, rfl⟩ := select_eq_ok.1 hselect
  exact h.settle

end OneOf

/-! ## Conditionals -/

namespace Conditional

variable {s s' : Conditional ν}

/-- The case parameter and every parameter of every group have a property, chosen or not. -/
structure EverySlot (Q : String → Parameter ν → Prop) (s : Conditional ν) : Prop where
  case : Q s.case.name s.case
  groups : ∀ g ∈ s.branches, g.2.EverySlot Q

theorem EverySlot.mono (h : s.EverySlot Q) (hQ : ∀ k p, Q k p → Q' k p) : s.EverySlot Q' :=
  ⟨hQ _ _ h.case, fun g hg => (h.groups g hg).mono hQ⟩

/-- One group may give way to another that has the property. -/
theorem EverySlot.setGroup (h : s.EverySlot Q) {group : Collection ν} (hgroup : group.EverySlot Q)
    (i : Nat) : (s.setGroup i group).EverySlot Q where
  case := h.case
  groups g hg := by
    obtain ⟨j, hj⟩ := List.mem_iff_getElem?.1 hg
    unfold Conditional.setGroup at hj
    rw [List.getElem?_modify] at hj
    obtain ⟨b, hb, hbg⟩ := Option.map_eq_some_iff.1 hj
    rw [← hbg]
    split
    · exact hgroup
    · exact h.groups b (List.mem_of_getElem? hb)

/-- The case parameter and what the selected group shows have the property. -/
theorem EverySlot.parameter? (h : s.EverySlot Q) {k : String} {p : Parameter ν}
    (hp : s.parameter? k = some p) : Q k p := by
  unfold Conditional.parameter? at hp
  split at hp
  · next hk =>
    cases hp
    exact hk ▸ h.case
  · obtain ⟨group, hgroup, hp⟩ := Option.bind_eq_some_iff.1 hp
    obtain ⟨i, x, -, hb⟩ := selected?_eq_some.1 hgroup
    exact h.groups _ (List.mem_of_getElem? hb) k p hp

/-- A write goes to the case parameter or to one of the groups. -/
theorem EverySlot.set (h : s.EverySlot Q) (hQ : Parameter.Takes Q key value)
    (hset : s.set key value = .ok s') : s'.EverySlot Q := by
  rcases set_cases hset with
    ⟨rfl, w, hw, rfl⟩ | ⟨i, x, group, group', -, -, hb, -, hgroup, rfl⟩
  · exact ⟨hQ.set s.case w h.case hw, h.groups⟩
  · exact h.setGroup ((h.groups _ (List.mem_of_getElem? hb)).set hQ hgroup) i

end Conditional

/-! ## Parts that hand out a sub-spec -/

/-- An edit of the sub-spec under a key is refused, and every slot of what is left has the
property; or it goes to the sub-spec in a slot, and every slot has the property when what becomes of
it is put back, provided that this slot has it. -/
def ReachesSlot {σ : Type} (every : σ → Prop) (Q : String → Parameter ν → Prop) (key : String)
    (within : {α : Type} → Edit ν α → Edit σ α) (s : σ) : Prop :=
  (∃ s', Edit.Refuses within s s' ∧ every s') ∨
    ∃ p m put, Q key p ∧ p.node = some m ∧ Edit.Reaches within s m put ∧
      ∀ m', Q key { p with node := some m' } → every (put m')

/-- A whole reaches the slots that its part reaches. -/
theorem ReachesSlot.through {σ τ : Type} {every : σ → Prop} {every' : τ → Prop} {put : σ → τ}
    {inner : {α : Type} → Edit ν α → Edit σ α} {within : {α : Type} → Edit ν α → Edit τ α}
    {s : σ} {t : τ} (h : ReachesSlot every Q key inner s)
    (hwithin : ∀ {α : Type} (act : Edit ν α), within act t = Edit.through put (inner act) s)
    (hput : ∀ s, every s → every' (put s)) : ReachesSlot every' Q key within t := by
  rcases h with ⟨s', hrefuses, hs'⟩ | ⟨p, m, put', hp, hm, hreaches, hput'⟩
  · exact .inl ⟨_, hrefuses.through hwithin, hput _ hs'⟩
  · exact .inr ⟨p, m, _, hp, hm, hreaches.through hwithin, fun m' hm' => hput _ (hput' m' hm')⟩

/-- A collection hands out the sub-spec of one of its slots. -/
theorem Collection.EverySlot.reach {c : Collection ν} (h : c.EverySlot Q) (key : String) :
    ReachesSlot (EverySlot Q) Q key (within key) c := by
  rcases within_cases c key with hrefuses | ⟨p, m, hp, -, hm, hreaches⟩
  · exact .inl ⟨c, hrefuses, h⟩
  · have hname : p.name = key := name_of_parameter? hp
    exact .inr ⟨p, m, _, h key p hp, hm, hreaches, fun m' => h.insert hname⟩

/-- Alternatives hand out the sub-spec of one of their slots, after they have settled. -/
theorem OneOf.EverySlot.reach [Judged ν] {o : OneOf ν} (h : o.EverySlot Q) (key : String) :
    ReachesSlot (EverySlot Q) Q key (within key) o := by
  rcases within_cases o key with
    hrefuses | ⟨i, p, -, hp, -, ⟨-, hrefuses⟩ | ⟨m, hm, hreaches⟩⟩
  · exact .inl ⟨_, hrefuses, h.settle⟩
  · exact .inl ⟨_, hrefuses, h.settle.lend (name_of_declared? hp) (h.settle i key p hp)⟩
  · have hname : p.name = key := name_of_declared? hp
    exact .inr ⟨p, m, _, h.settle i key p hp, hm, hreaches, fun m' => h.settle.lend hname⟩

/-- A conditional hands out a sub-spec of the selected group. -/
theorem Conditional.EverySlot.reach {s : Conditional ν} (h : s.EverySlot Q) (key : String) :
    ReachesSlot (EverySlot Q) Q key (within key) s := by
  rcases within_cases s key with
    hrefuses | ⟨i, x, group, p, m, -, -, hb, hp, -, hm, hreaches⟩
  · exact .inl ⟨s, hrefuses, h⟩
  · have hgroup : group.EverySlot Q := h.groups _ (List.mem_of_getElem? hb)
    have hname : p.name = key := Collection.name_of_parameter? hp
    refine .inr ⟨p, m, _, hgroup key p hp, hm, hreaches, fun m' hm' => h.setGroup ?_ i⟩
    exact hgroup.insert hname hm'

/-! ## Components -/

namespace Component

variable [Judged ν] {c c' : Component ν}

/-- Every parameter has a property, shown or not. -/
def EverySlot (Q : String → Parameter ν → Prop) : Component ν → Prop
  | collection c => c.EverySlot Q
  | oneOf o => o.EverySlot Q
  | conditional s => s.EverySlot Q

omit [Judged ν] in
theorem EverySlot.mono (h : c.EverySlot Q) (hQ : ∀ k p, Q k p → Q' k p) : c.EverySlot Q' := by
  cases c with
  | collection c => exact Collection.EverySlot.mono h hQ
  | oneOf o => exact OneOf.EverySlot.mono h hQ
  | conditional s => exact Conditional.EverySlot.mono h hQ

theorem EverySlot.parameter? (h : c.EverySlot Q) {k : String} {p : Parameter ν}
    (hp : c.parameter? k = some p) : Q k p := by
  cases c with
  | collection c => exact h k p hp
  | oneOf o =>
    obtain ⟨ps, hps, hp⟩ := List.exists_of_findSome?_eq_some hp
    obtain ⟨i, -, rfl⟩ := List.mem_map.1 hps
    exact OneOf.EverySlot.shown? h hp
  | conditional s => exact Conditional.EverySlot.parameter? h hp

/-- Whichever kind of component is written, the property is kept. -/
theorem EverySlot.set (h : c.EverySlot Q) (hQ : Parameter.Takes Q key value)
    (hset : Component.set key value c = .ok () c') : c'.EverySlot Q := by
  cases written_of_set hset with
  | collection hpart => exact Collection.EverySlot.set h hQ hpart
  | oneOf hpart => exact OneOf.EverySlot.set h hQ hpart
  | conditional hpart => exact Conditional.EverySlot.set h hQ hpart

theorem EverySlot.select (h : c.EverySlot Q) (hselect : select key c = .ok () c') :
    c'.EverySlot Q := by
  rcases select_cases hselect with rfl | ⟨o, o', rfl, rfl, hpart⟩
  · exact h
  · exact OneOf.EverySlot.select h hpart

/-- A component hands out a sub-spec of one of its slots. -/
theorem EverySlot.reach (h : c.EverySlot Q) (key : String) :
    ReachesSlot (EverySlot Q) Q key (within key) c := by
  cases c with
  | collection c =>
    exact (Collection.EverySlot.reach h key).through (fun act => within_collection key act c)
      fun _ h => h
  | oneOf o =>
    exact (OneOf.EverySlot.reach h key).through (fun act => within_oneOf key act o) fun _ h => h
  | conditional s =>
    exact (Conditional.EverySlot.reach h key).through (fun act => within_conditional key act s)
      fun _ h => h

end Component

/-! ## Specs -/

namespace Spec

variable [Judged ν] {s s' : Spec ν}

/-- Every parameter has a property, shown or not. -/
def EverySlot (Q : String → Parameter ν → Prop) (s : Spec ν) : Prop :=
  ∀ c ∈ s.components, c.EverySlot Q

omit [Judged ν] in
theorem EverySlot.mono (h : s.EverySlot Q) (hQ : ∀ k p, Q k p → Q' k p) : s.EverySlot Q' :=
  fun c hc => (h c hc).mono hQ

theorem EverySlot.parameter? (h : s.EverySlot Q) {k : String} {p : Parameter ν}
    (hp : s.parameter? k = some p) : Q k p := by
  obtain ⟨c, hc, hcp⟩ := List.exists_of_findSome?_eq_some hp
  exact (h c hc).parameter? hcp

omit [Judged ν] in
/-- A parameter that was not declared is added with the property, in whichever component it is put.
-/
theorem EverySlot.insertFixed (h : s.EverySlot Q) {p : Parameter ν} (hname : p.name = key)
    (hp : Q key p) : (s.insertFixed p).EverySlot Q := by
  -- the parameter goes to the first collection, or to a new one at the end:
  have hlist : ∀ cs : List (Component ν), (∀ c ∈ cs, c.EverySlot Q) →
      ∀ c ∈ insertFirst p cs, c.EverySlot Q := by
    intro cs hcs
    induction cs with
    | nil =>
      refine List.forall_mem_singleton.2 (Collection.everySlot_ofList ?_)
      exact List.forall_mem_singleton.2 (hname ▸ hp)
    | cons d cs ih =>
      obtain ⟨hd, hrest⟩ := List.forall_mem_cons.1 hcs
      cases d with
      | collection d => exact List.forall_mem_cons.2 ⟨Collection.EverySlot.insert hd hname hp, hrest⟩
      | oneOf o => exact List.forall_mem_cons.2 ⟨hd, ih hrest⟩
      | conditional d => exact List.forall_mem_cons.2 ⟨hd, ih hrest⟩
  exact hlist s.components h

/-- A write goes to every component that declares the key, or adds a parameter to the spec. -/
theorem EverySlot.set (h : s.EverySlot Q) (hQ : Parameter.Takes Q key value)
    (hset : Spec.set key value s = .ok () s') : s'.EverySlot Q := by
  rcases set_cases s key value with ⟨e, he⟩ | ⟨-, p, hp, hok⟩ | ⟨-, haccepted, hok⟩
  · rw [he] at hset
    cases hset
  · rw [hok] at hset
    cases hset
    have hname : p.name = key := by
      obtain ⟨w, -, rfl⟩ := Parameter.set_eq_ok.1 hp
      rfl
    exact h.insertFixed hname (hQ.added p hp)
  · rw [hok] at hset
    cases hset
    intro c hc
    obtain ⟨d, hd, rfl⟩ := List.mem_map.1 hc
    by_cases hcontains : d.contains key = true
    · rw [if_pos hcontains]
      obtain ⟨d', hok⟩ := Component.set_of_checkSet_eq_ok hcontains (haccepted d hd hcontains)
      rw [Edit.stateAfter_of_ok hok]
      exact (h d hd).set hQ hok
    · rw [if_neg hcontains]
      exact h d hd

/-- A sub-spec is handed out by the first component that declares it, the others are only narrowed.
-/
theorem EverySlot.reach (h : s.EverySlot Q) (key : String) :
    ReachesSlot (EverySlot Q) Q key (within key) s := by
  rcases within_cases s key with hrefuses | ⟨pre, c, post, happend, -, -, haccess, hwithin⟩
  · exact .inl ⟨s, hrefuses, h⟩
  · have hmem : ∀ d ∈ c :: post, d ∈ s.components := by
      intro d hd
      rw [happend]
      exact List.mem_append_right _ hd
    refine ((h c (hmem c List.mem_cons_self)).reach key).through hwithin fun c' hc' => ?_
    refine List.forall_mem_append.2 ⟨?_, List.forall_mem_cons.2 ⟨hc', ?_⟩⟩
    · intro d hd
      apply h
      rw [happend]
      exact List.mem_append_left _ hd
    · -- those behind the first are narrowed:
      intro d' hd'
      obtain ⟨d, hd, rfl⟩ := List.mem_map.1 hd'
      have hds := hmem d (List.mem_cons_of_mem _ hd)
      by_cases hcontains : d.contains key = true
      · rw [if_pos hcontains]
        obtain ⟨d', hselect⟩ := Component.select_of_checkAccess_eq_ok (haccess d hds hcontains)
        rw [Edit.stateAfter_of_ok hselect]
        exact (h d hds).select hselect
      · rw [if_neg hcontains]
        exact h d hds

omit [Judged ν] in
theorem EverySlot.merge {other : Spec ν} (h : s.EverySlot Q) (hother : other.EverySlot Q) :
    (s.merge other).EverySlot Q :=
  List.forall_mem_append.2 ⟨h, hother⟩

omit [Judged ν] in
theorem EverySlot.push (h : s.EverySlot Q) {c : Component ν} (hc : c.EverySlot Q) :
    (s.push c).EverySlot Q :=
  List.forall_mem_append.2 ⟨h, List.forall_mem_singleton.2 hc⟩

omit [Judged ν] in
/-- Removing a parameter leaves the others with their property. -/
theorem EverySlot.removeParameter (h : s.EverySlot Q) (key : String) :
    (s.removeParameter key).EverySlot Q := by
  intro c hc
  obtain ⟨d, hd, hdc⟩ := List.mem_filterMap.1 hc
  cases d with
  | oneOf o =>
    cases hdc
    exact h _ hd
  | conditional d =>
    cases hdc
    exact h _ hd
  | collection d =>
    simp only at hdc
    split at hdc
    · cases hdc
    · cases hdc
      exact Collection.EverySlot.remove (h _ hd) key

end Spec

/-! ## Lists -/

namespace EntryList

variable {l l' : EntryList ν}

/-- Every entry has a property, together with its name. -/
def EverySlot (Q : String → Parameter ν → Prop) (l : EntryList ν) : Prop :=
  ∀ k p, l.parameter? k = some p → Q k p

theorem EverySlot.mono (h : l.EverySlot Q) (hQ : ∀ k p, Q k p → Q' k p) : l.EverySlot Q' :=
  fun k p hp => hQ k p (h k p hp)

theorem EverySlot.put (h : l.EverySlot Q) {p : Parameter ν} (hname : p.name = key)
    (hp : Q key p) : EverySlot Q { l with entries := p.put l.entries } :=
  Collection.EverySlot.insert (c := l.toCollection) h hname hp

theorem EverySlot.set (h : l.EverySlot Q) (hQ : Parameter.Takes Q key value)
    (hset : l.set key value = .ok l') : l'.EverySlot Q := by
  obtain ⟨p, w, hp, hw, rfl⟩ := set_eq_ok.1 hset
  have hname : p.name = key := Parameter.name_of_find? hp
  exact h.put hname (hQ.set p w (h key p hp) hw)

/-- An appended entry has the property, if every new entry has. -/
theorem EverySlot.append {make : String → Except TreeError ν} (h : l.EverySlot Q)
    (hnew : ∀ p, l.newEntry make key = .ok p → Q key p)
    (happend : EntryList.append make key l = .ok () l') : l'.EverySlot Q := by
  obtain ⟨-, p, hentry, rfl⟩ := append_eq_ok.1 happend
  intro k q hq
  have hq : Parameter.find? (l.entries ++ [p]) k = some q := hq
  rw [Parameter.find?_append, Option.or_eq_some_iff] at hq
  rcases hq with hq | ⟨-, hq⟩
  · exact h k q hq
  · rw [Parameter.find?_cons, name_of_newEntry hentry] at hq
    split at hq
    · next hk =>
      cases hq
      rw [← hk]
      exact hnew p hentry
    · cases hq

/-- A list hands out one of its entries. -/
theorem EverySlot.reach (h : l.EverySlot Q) (key : String) :
    ReachesSlot (EverySlot Q) Q key (within key) l := by
  rcases within_cases l key with hrefuses | ⟨p, m, hp, -, hm, hreaches⟩
  · exact .inl ⟨l, hrefuses, h⟩
  · have hname : p.name = key := Parameter.name_of_find? hp
    exact .inr ⟨p, m, _, h key p hp, hm, hreaches, fun m' => h.put hname⟩

end EntryList

/-! ## Nodes -/

/-- A property of the slots that are made in the course of edits: empty ones, those that a fresh
sub-spec is put into, and those of a fresh spec. -/
structure Catalog.BuildsSlots (catalog : Catalog) (Q : String → Parameter Node → Prop) : Prop where
  primitive : ∀ k t, Q k (.primitive k t)
  derived : ∀ k name node, catalog.build name = .ok node → Q k (.derived k name node)
  spec : ∀ name s, catalog.build name = .ok (.spec s) → s.EverySlot Q

/-- A chosen type keeps the property: what is merged in is built with it, and the selector takes it
over. -/
theorem Choice.everySlot_setType {Q : String → Parameter Node → Prop} {catalog : Catalog}
    {c c' : Choice Node} {type : String} (h : c.body.EverySlot Q) (hbuilt : catalog.BuildsSlots Q)
    (hQ : Parameter.Takes Q c.selector (.string type))
    (hset : setType catalog type c = .ok () c') : c'.body.EverySlot Q := by
  obtain ⟨variant, node, body, hvariant, hwrite, rfl⟩ := setType_eq_ok hset
  obtain ⟨-, -, hnode⟩ := variantFor_eq_ok.1 hvariant
  have hbody : body.EverySlot Q := by
    rcases writeType_cases hwrite with ⟨-, hset⟩ | ⟨-, rfl⟩
    · exact h.set hQ hset
    · exact h
  rcases chosen_cases c type variant node body with ⟨-, -, heq⟩ | ⟨s, rfl, heq⟩ | ⟨k, heq⟩
  · rw [heq]
    exact hbody.insertFixed rfl (hbuilt.derived _ _ _ hnode)
  · rw [heq]
    exact hbody.merge (hbuilt.spec _ _ hnode)
  · rw [heq]
    refine hbody.push (Collection.everySlot_ofList ?_)
    exact List.forall_mem_singleton.2 (hbuilt.derived _ _ _ hnode)

namespace Node

variable {Q Q' : String → Parameter Node → Prop} {catalog : Catalog} {n n' : Node}

/-- Every parameter has a property, shown or not. -/
def EverySlot (Q : String → Parameter Node → Prop) : Node → Prop
  | spec s => s.EverySlot Q
  | list l => l.EverySlot Q
  | choice c => c.body.EverySlot Q

theorem EverySlot.mono (h : n.EverySlot Q) (hQ : ∀ k p, Q k p → Q' k p) : n.EverySlot Q' := by
  cases n with
  | spec s => exact Spec.EverySlot.mono h hQ
  | list l => exact EntryList.EverySlot.mono h hQ
  | choice c => exact Spec.EverySlot.mono (s := c.body) h hQ

theorem EverySlot.parameter? (h : n.EverySlot Q) {k : String} {p : Parameter Node}
    (hp : n.parameter? k = some p) : Q k p := by
  cases n with
  | spec s => exact Spec.EverySlot.parameter? h hp
  | list l => exact h k p hp
  | choice c => exact Spec.EverySlot.parameter? (s := c.body) h hp

/-- What is written to the slots when a key is set: the type of a choice as text. -/
def written (n : Node) (key : String) (value : Value) : Value :=
  if n.typeKey? = some key then .string value.toText else value

/-- A write keeps the property of every slot, also one that chooses a variant. -/
theorem EverySlot.set (h : n.EverySlot Q) (hbuilt : catalog.BuildsSlots Q)
    (hQ : Parameter.Takes Q key (n.written key value))
    (hset : Node.set catalog key value n = .ok () n') : n'.EverySlot Q := by
  cases written_of_set hset with
  | spec hpart => exact Spec.EverySlot.set h hQ hpart
  | list hpart => exact EntryList.EverySlot.set h hQ hpart
  | @type c c' hkey hpart =>
    have hwritten : (Node.choice c).written key value = .string value.toText :=
      if_pos (congrArg some hkey.symm)
    rw [hwritten, hkey] at hQ
    exact Choice.everySlot_setType h hbuilt hQ hpart
  | @body c _ hkey hpart =>
    have hwritten : (Node.choice c).written key value = value :=
      if_neg fun hsome => hkey (Option.some.inj hsome).symm
    rw [hwritten] at hQ
    exact Spec.EverySlot.set (s := c.body) h hQ hpart

/-- An append keeps the property of every slot. -/
theorem EverySlot.append (h : n.EverySlot Q) (hbuilt : catalog.BuildsSlots Q)
    (happend : appendEmpty catalog key n = .ok () n') : n'.EverySlot Q := by
  obtain ⟨l, l', rfl, rfl, hpart⟩ := appendEmpty_eq_ok happend
  refine EntryList.EverySlot.append h (fun p hp => ?_) hpart
  unfold EntryList.newEntry at hp
  split at hp
  · cases hp
    exact hbuilt.primitive _ _
  · obtain ⟨node, hnode, rfl⟩ := map_eq_ok.1 hp
    exact hbuilt.derived _ _ _ hnode

theorem EverySlot.reach (h : n.EverySlot Q) (key : String) :
    ReachesSlot (EverySlot Q) Q key (within key) n := by
  cases n with
  | spec s =>
    exact (Spec.EverySlot.reach h key).through (fun act => within_spec key act s) fun _ h => h
  | list l =>
    exact (EntryList.EverySlot.reach h key).through (fun act => within_list key act l) fun _ h => h
  | choice c =>
    exact (Spec.EverySlot.reach (s := c.body) h key).through (fun act => within_choice key act c)
      fun _ h => h

end Node

end SpecTree
