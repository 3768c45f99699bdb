import SpecTree.Proofs.Persistence
import SpecTree.Proofs.Status

/-!
# Sub-specs of keys that are declared more than once

A sub-spec that is handed out is that of the first component that declares its key, and all open
branches there show what becomes of it. The components behind the first are narrowed, but what is
to be seen in them is what was there before: `Registry.showsFirst_of_operation`. Where two
components declare a key, the second sub-spec is out of reach
(`Registry.unfilled_after_operation_exampleDiamond`).
-/

namespace SpecTree

variable {ν : Type}

/-- The first parameters of their names are some of the parameters. -/
theorem Parameter.mem_of_mem_distinct {ps : List (Parameter ν)} {p : Parameter ν}
    (h : p ∈ distinct ps) : p ∈ ps := by
  have hsub : ∀ q ∈ distinct ps, q ∈ ps := by
    refine List.foldlRecOn (motive := fun kept => ∀ q ∈ kept, q ∈ ps) ps _
      (List.forall_mem_nil _) fun kept hkept q hq => ?_
    split
    · exact hkept
    · exact List.forall_mem_append.2 ⟨hkept, List.forall_mem_singleton.2 hq⟩
  exact hsub p h

/-! ## What is to be seen of a key -/

namespace Component

/-- Every parameter that is declared under a key, open or not. -/
def declared (key : String) : Component ν → List (Parameter ν)
  | collection c => (c.parameter? key).toList
  | oneOf o => o.branches.filterMap (·.parameter? key)
  | conditional s =>
    (if s.case.name = key then [s.case] else []) ++ s.branches.filterMap (·.2.parameter? key)

variable [Judged ν]

/-- What is to be seen of a key: in a collection, in each of the open branches, or in the chosen
group and as the case parameter. -/
def seen (key : String) : Component ν → List (Parameter ν)
  | collection c => (c.parameter? key).toList
  | oneOf o => o.visibleParameters.filterMap (Parameter.find? · key)
  | conditional s =>
    (if s.case.name = key then [s.case] else []) ++ (s.selected?.bind (·.parameter? key)).toList

end Component

namespace OneOf

variable {o : OneOf ν} {key : String} {p p' q : Parameter ν} {i : Nat}

/-- Alternatives declare under a key what one of the branches does. -/
theorem mem_declared : q ∈ (Component.oneOf o).declared key ↔ ∃ i, o.declared? i key = some q := by
  unfold Component.declared
  rw [List.mem_filterMap]
  constructor
  · rintro ⟨b, hb, hq⟩
    obtain ⟨i, hi⟩ := List.mem_iff_getElem?.1 hb
    exact ⟨i, declared?_eq_some.2 ⟨b, hi, hq⟩⟩
  · rintro ⟨i, hi⟩
    obtain ⟨b, hb, hq⟩ := declared?_eq_some.1 hi
    exact ⟨b, List.mem_of_getElem? hb, hq⟩

/-- All branches that show something under the key of a sub-spec that was handed out show that, if
they declare the key with one type. -/
theorem eq_of_shown?_lend (hp : o.declared? i key = some p) (hname : p'.name = p.name)
    (htype : p'.type = p.type)
    (hsame : ∀ q ∈ (Component.oneOf o).declared key, q.type = p.type) {j : Nat}
    (hq : (o.lend key i p').shown? j key = some q) : q = p' := by
  have hkey : p'.name = key := hname.trans (name_of_declared? hp)
  rw [shown?_of_liveParameter? (liveParameter?_lend hp hname), declared?_lend] at hq
  split at hq
  · next hij =>
    rw [if_pos ⟨hij, hkey, hij ▸ lt_of_declared? hp⟩] at hq
    exact (Option.some.inj hq).symm
  · next hij =>
    rw [if_neg fun h => hij h.1] at hq
    obtain ⟨r, hr, rfl⟩ := Option.map_eq_some_iff.1 hq
    have hrtype : r.type = p.type := hsame r (mem_declared.2 ⟨j, hr⟩)
    rw [if_pos ⟨hkey.trans (name_of_declared? hr).symm, htype.trans hrtype.symm⟩]

variable [Judged ν]

/-- What is to be seen in alternatives is shown in a branch that is shown. -/
theorem mem_seen :
    q ∈ (Component.oneOf o).seen key ↔ ∃ i ∈ o.visible, o.shown? i key = some q := by
  show q ∈ (o.visible.map o.branchParameters).filterMap (Parameter.find? · key) ↔ _
  rw [List.filterMap_map, List.mem_filterMap]
  rfl

/-- Settling copies parameters of the same type. -/
theorem declared_settle_type {t : TypeRef}
    (h : ∀ q ∈ (Component.oneOf o).declared key, q.type = t) :
    ∀ q ∈ (Component.oneOf o.settle).declared key, q.type = t := by
  intro q hq
  obtain ⟨i, hi⟩ := mem_declared.1 hq
  have htype := type_declared?_settle o i key
  rw [hi] at htype
  obtain ⟨r, hr, hrq⟩ := Option.map_eq_some_iff.1 htype.symm
  exact hrq.symm.trans (h r (mem_declared.2 ⟨i, hr⟩))

/-- Narrowing shows nothing that was not there. -/
theorem seen_of_select {o' : OneOf ν} (hselect : OneOf.select key o = .ok () o')
    (hq : q ∈ (Component.oneOf o').seen key) :
    q ∈ (Component.oneOf o).seen key ∨ q ∈ (Component.oneOf o).declared key := by
  obtain ⟨next, hplan, rfl⟩ := select_eq_ok.1 hselect
  obtain ⟨rfl, -, -⟩ := plan_eq_ok.1 hplan
  obtain ⟨i, hi, hq⟩ := mem_seen.1 hq
  have hlive : ({ o.settle with active := some (o.writable key) } : OneOf ν).live = none :=
    live_settle o
  rw [visible_of_live_eq_none hlive] at hi
  rw [shown?_of_live_eq_none hlive] at hq
  have hq : o.settle.declared? i key = some q := hq
  rcases settle_cases o with ⟨owner, p, hl, hv⟩ | ⟨heq, -⟩
  · rw [declared?_settle_of_hasValue hl hv] at hq
    split at hq
    · next hshare =>
      -- the sub-spec that was handed out was shown in the branch already:
      obtain rfl := Option.some.inj hq
      obtain ⟨hshare, rfl⟩ := hshare
      have hown := (liveParameter?_eq_some.1 hl).2
      obtain ⟨-, r, hr, hrtype⟩ := (mem_sharing hown).1 hshare
      refine .inl (mem_seen.2 ⟨i, (List.mem_filter.1 hi).1, ?_⟩)
      rw [shown?_of_liveParameter? hl]
      split
      · next howner => exact howner ▸ hown
      · rw [hr, Option.map_some, if_pos ⟨(name_of_declared? hr).symm, hrtype.symm⟩]
    · exact .inr (mem_declared.2 ⟨i, hq⟩)
  · rw [heq] at hq
    exact .inr (mem_declared.2 ⟨i, hq⟩)

omit [Judged ν] in
/-- What stands in for a parameter of a branch has its name. -/
theorem names_branchParameters (o : OneOf ν) (i : Nat) :
    (o.branchParameters i).map (·.name)
      = ((o.branches[i]?.map (·.parameters)).getD []).map (·.name) := by
  unfold branchParameters
  split
  · split
    · rfl
    · rw [List.map_map]
      apply List.map_congr_left
      intro p _
      show (if _ then _ else p : Parameter ν).name = p.name
      split
      · next h => exact h.1
      · rfl
  · rfl

end OneOf

namespace Component

variable [Judged ν] {S : ν → Prop} {c c' : Component ν} {key : String} {p q : Parameter ν}

/-- What a component shows under a key is to be seen. -/
theorem mem_seen_of_parameter? (h : c.parameter? key = some p) : p ∈ c.seen key := by
  cases c with
  | collection c => exact Option.mem_toList.2 h
  | oneOf o =>
    obtain ⟨ps, hps, hp⟩ := List.exists_of_findSome?_eq_some h
    exact List.mem_filterMap.2 ⟨ps, hps, hp⟩
  | conditional s =>
    have h : (if key = s.case.name then some s.case else s.selected?.bind (·.parameter? key))
      = some p := h
    split at h
    · next hkey =>
      refine List.mem_append_left _ ?_
      rw [if_pos hkey.symm, ← Option.some.inj h]
      exact List.mem_singleton.2 rfl
    · exact List.mem_append_right _ (Option.mem_toList.2 h)

/-- What is to be seen is declared. -/
theorem contains_of_mem_seen (h : p ∈ c.seen key) : c.contains key = true := by
  cases c with
  | collection c => exact Collection.contains_iff.2 ⟨p, Option.mem_toList.1 h⟩
  | oneOf o =>
    obtain ⟨i, -, hi⟩ := OneOf.mem_seen.1 h
    have hsome := OneOf.isSome_shown? o i key
    rw [hi] at hsome
    obtain ⟨q, hq⟩ := Option.isSome_iff_exists.1 hsome.symm
    obtain ⟨b, hb, hbq⟩ := OneOf.declared?_eq_some.1 hq
    exact List.any_eq_true.2 ⟨b, List.mem_of_getElem? hb, Collection.contains_iff.2 ⟨q, hbq⟩⟩
  | conditional s =>
    show (decide (key = s.case.name) || s.branches.any (·.2.contains key)) = true
    rw [Bool.or_eq_true, decide_eq_true_iff]
    rcases List.mem_append.1 h with h | h
    · split at h
      · next hname => exact .inl hname.symm
      · cases h
    · obtain ⟨group, hgroup, hp⟩ := Option.bind_eq_some_iff.1 (Option.mem_toList.1 h)
      obtain ⟨i, x, -, hb⟩ := Conditional.selected?_eq_some.1 hgroup
      exact .inr (List.any_eq_true.2 ⟨(x, group), List.mem_of_getElem? hb,
        Collection.contains_iff.2 ⟨p, hp⟩⟩)

/-- What is reported as unfilled is seen, and it is not complete. -/
theorem mem_seen_of_mem_unfilled (h : c.Fit S) (hp : p ∈ c.unfilled) :
    p ∈ c.seen p.name ∧ p.isComplete = false := by
  have hcollection : ∀ {group : Collection ν}, group.Fit S → p ∈ group.unfilled →
      group.parameter? p.name = some p ∧ p.isComplete = false := by
    intro group hgroup hp
    obtain ⟨hp, hneeds⟩ := List.mem_filter.1 hp
    exact ⟨Parameter.find?_of_mem hgroup.distinct hp, by simpa using hneeds⟩
  cases c with
  | collection c =>
    obtain ⟨hp, hneeds⟩ := hcollection h hp
    exact ⟨Option.mem_toList.2 hp, hneeds⟩
  | oneOf o =>
    obtain ⟨hp, hneeds⟩ := List.mem_filter.1 (Parameter.mem_of_mem_distinct hp)
    obtain ⟨ps, hps, hp⟩ := List.mem_flatten.1 hp
    obtain ⟨i, -, rfl⟩ := List.mem_map.1 hps
    -- the parameters that a branch shows have distinct names, as its own have:
    have hdistinct : Parameter.Distinct (o.branchParameters i) := by
      unfold Parameter.Distinct
      rw [OneOf.names_branchParameters]
      cases hb : o.branches[i]? with
      | none => exact List.nodup_nil
      | some b => exact (OneOf.Fit.branches h b (List.mem_of_getElem? hb)).distinct
    exact ⟨List.mem_filterMap.2 ⟨_, hps, Parameter.find?_of_mem hdistinct hp⟩, by simpa using hneeds⟩
  | conditional s =>
    have hp : p ∈ s.withCase (!s.case.isComplete) Collection.unfilled := hp
    rcases List.mem_append.1 hp with hp | hp
    · split at hp
      · next hcase =>
        obtain rfl := List.mem_singleton.1 hp
        refine ⟨List.mem_append_left _ ?_, by simpa using hcase⟩
        rw [if_pos rfl]
        exact List.mem_singleton.2 rfl
      · cases hp
    · cases hselected : s.selected? with
      | none =>
        rw [hselected] at hp
        cases hp
      | some group =>
        rw [hselected] at hp
        obtain ⟨i, x, -, hb⟩ := Conditional.selected?_eq_some.1 hselected
        obtain ⟨hp, hneeds⟩ :=
          hcollection (Conditional.Fit.groups h (x, group) (List.mem_of_getElem? hb)) hp
        refine ⟨List.mem_append_right _ ?_, hneeds⟩
        rw [hselected]
        exact Option.mem_toList.2 hp

/-! ## Edits -/

/-- After an edit of a sub-spec everything that is seen under its key is the sub-spec that was
edited, if the key is declared with one type. -/
theorem node_of_seen_within {α : Type} {act : Edit ν α} {a : α} {t : TypeRef}
    (htype : ∀ q ∈ c.declared key, q.type = t) (hok : Component.within key act c = .ok a c') :
    ∃ m m', act m = .ok a m' ∧ ∀ q ∈ c'.seen key, q.isPrimitive = false ∧ q.node = some m' := by
  cases c with
  | collection c =>
    obtain ⟨c', hpart, rfl⟩ := Edit.through_eq_ok.1 ((within_collection key act c).symm.trans hok)
    rcases Collection.within_cases c key with ⟨e, he⟩ | ⟨p, m, hp, hprim, -, hreaches⟩
    · cases (he act).symm.trans hpart
    · obtain ⟨m', hact, rfl⟩ := Edit.through_eq_ok.1 ((hreaches act).symm.trans hpart)
      refine ⟨m, m', hact, fun q hq => ?_⟩
      have hq : (c.insert { p with node := some m' }).parameter? key = some q :=
        Option.mem_toList.1 hq
      rw [Collection.parameter?_insert, if_pos (Collection.name_of_parameter? hp)] at hq
      rw [← Option.some.inj hq]
      exact ⟨hprim, rfl⟩
  | oneOf o =>
    obtain ⟨o', hpart, rfl⟩ := Edit.through_eq_ok.1 ((within_oneOf key act o).symm.trans hok)
    rcases OneOf.within_cases o key with
      ⟨e, he⟩ | ⟨i, p, hi, hp, hprim, ⟨-, e, he⟩ | ⟨m, -, hreaches⟩⟩
    · cases (he act).symm.trans hpart
    · cases (he act).symm.trans hpart
    · obtain ⟨m', hact, rfl⟩ := Edit.through_eq_ok.1 ((hreaches act).symm.trans hpart)
      refine ⟨m, m', hact, fun q hq => ?_⟩
      obtain ⟨j, -, hq⟩ := OneOf.mem_seen.1 hq
      -- every branch that shows the key shows what was handed out:
      have hsettled := OneOf.declared_settle_type htype
      have hptype : p.type = t := hsettled p (OneOf.mem_declared.2 ⟨i, hp⟩)
      have heq : q = { p with node := some m' } := OneOf.eq_of_shown?_lend hp rfl rfl
        (fun r hr => (hsettled r hr).trans hptype.symm) hq
      rw [heq]
      exact ⟨hprim, rfl⟩
  | conditional s =>
    obtain ⟨s', hpart, rfl⟩ := Edit.through_eq_ok.1 ((within_conditional key act s).symm.trans hok)
    rcases Conditional.within_cases s key with
      ⟨e, he⟩ | ⟨i, x, group, p, m, hkey, hi, hb, hp, hprim, -, hreaches⟩
    · cases (he act).symm.trans hpart
    · obtain ⟨m', hact, rfl⟩ := Edit.through_eq_ok.1 ((hreaches act).symm.trans hpart)
      refine ⟨m, m', hact, fun q hq => ?_⟩
      rcases List.mem_append.1 hq with hq | hq
      · rw [if_neg fun h => hkey h.symm] at hq
        cases hq
      · rw [Conditional.selected?_setGroup hi hb, Option.bind_some, Collection.parameter?_insert,
          if_pos (Collection.name_of_parameter? hp)] at hq
        rw [← Option.some.inj (Option.mem_toList.1 hq)]
        exact ⟨hprim, rfl⟩

/-- Narrowing shows nothing that was not declared. -/
theorem seen_of_select (hselect : Component.select key c = .ok () c') (hq : q ∈ c'.seen key) :
    q ∈ c.seen key ∨ q ∈ c.declared key := by
  rcases select_cases hselect with rfl | ⟨o, o', rfl, rfl, hpart⟩
  · exact .inl hq
  · exact OneOf.seen_of_select hpart hq

/-- Of the components after a change, the first that declares the key shows a sub-spec, and nothing
else, wherever the key is seen. In those behind it nothing is seen that was not there before; and
they do not declare the key if only one component did. -/
def ShowsFirst (key : String) (m : ν) (cs cs' : List (Component ν)) : Prop :=
  ∃ before first after, cs' = before ++ first :: after ∧
    (∀ d ∈ before, d.contains key = false) ∧
    first.seen key ≠ [] ∧ (∀ q ∈ first.seen key, q.isPrimitive = false ∧ q.node = some m) ∧
    (∀ d ∈ after, ∀ q ∈ d.seen key, ∃ e ∈ cs, q ∈ e.seen key ∨ q ∈ e.declared key) ∧
    (cs.countP (·.contains key) = 1 → ∀ d ∈ after, d.contains key = false)

/-- If only one component declares a key, and the sub-spec that is shown there is complete, then
nothing of this name is unfilled. -/
theorem ShowsFirst.name_ne {m : ν} {cs cs' : List (Component ν)} (h : ShowsFirst key m cs cs')
    (hfit : ∀ d ∈ cs', d.Fit S) (hone : cs.countP (·.contains key) = 1)
    (hcomplete : Judged.isComplete m = true) (hp : p ∈ cs'.flatMap Component.unfilled) :
    p.name ≠ key := by
  obtain ⟨before, first, after, rfl, hbefore, -, hfirst, -, hafter⟩ := h
  rintro rfl
  obtain ⟨d, hd, hpd⟩ := List.mem_flatMap.1 hp
  obtain ⟨hseen, hneeds⟩ := mem_seen_of_mem_unfilled (hfit d hd) hpd
  have hcontains := contains_of_mem_seen hseen
  rcases List.mem_append.1 hd with hd | hd
  · rw [hbefore d hd] at hcontains
    cases hcontains
  rcases List.mem_cons.1 hd with rfl | hd
  · obtain ⟨hprim, hnode⟩ := hfirst p hseen
    obtain ⟨t, ht⟩ := Parameter.isPrimitive_eq_false_iff.1 hprim
    unfold Parameter.isComplete at hneeds
    simp only [ht, hnode, Option.any_some, hcomplete, Bool.or_true] at hneeds
    cases hneeds
  · rw [hafter hone d hd] at hcontains
    cases hcontains

end Component

/-- An edit of a sub-spec is shown by the first component that declares the key. -/
theorem Spec.showsFirst_within [Judged ν] {S : ν → Prop} {s s' : Spec ν} {key : String} {α : Type}
    {act : Edit ν α} {a : α} {t : TypeRef} (hfit : s.Fit S)
    (htype : ∀ c ∈ s.components, ∀ q ∈ c.declared key, q.type = t)
    (hok : Spec.within key act s = .ok a s') :
    ∃ m m', act m = .ok a m' ∧ Component.ShowsFirst key m' s.components s'.components := by
  rcases within_cases s key with
    ⟨e, he⟩ | ⟨pre, c, post, happend, hpre, hc, haccess, hwithin⟩
  · cases (he act).symm.trans hok
  have hmem : c ∈ s.components := happend ▸ List.mem_append_right _ List.mem_cons_self
  have hpost : ∀ d ∈ post, d ∈ s.components := fun d hd =>
    happend ▸ List.mem_append_right _ (List.mem_cons_of_mem _ hd)
  obtain ⟨c', hpart, rfl⟩ := Edit.through_eq_ok.1 ((hwithin act).symm.trans hok)
  obtain ⟨m, m', hact, hseen⟩ := Component.node_of_seen_within (htype c hmem) hpart
  refine ⟨m, m', hact, pre, c', _, rfl, hpre, ?_, hseen, ?_, ?_⟩
  · -- the first component shows the key, as it has handed it out:
    rcases Component.reach_cases (hfit c hmem) key with
      ⟨c'', ⟨e, he⟩, -⟩ | ⟨p, m₀, put, hout, hreaches⟩
    · cases (he act).symm.trans hpart
    · obtain ⟨m₁, -, rfl⟩ := Edit.through_eq_ok.1 ((hreaches act).symm.trans hpart)
      exact List.ne_nil_of_mem (Component.mem_seen_of_parameter? (hout.put_shown m₁))
  · -- the others were narrowed at most:
    intro d hd q hq
    obtain ⟨e, he, rfl⟩ := List.mem_map.1 hd
    refine ⟨e, hpost e he, ?_⟩
    split at hq
    · next hcontains =>
      obtain ⟨e', hselect⟩ :=
        Component.select_of_checkAccess_eq_ok (haccess e (hpost e he) hcontains)
      rw [Edit.stateAfter_of_ok hselect] at hq
      exact Component.seen_of_select hselect hq
    · exact .inl hq
  · -- and do not declare the key, if only one does:
    intro hone d hd
    rw [happend, List.countP_append, List.countP_cons, if_pos hc] at hone
    have hzero : post.countP (·.contains key) = 0 := by omega
    have hnone : ∀ e ∈ post, e.contains key = false := fun e he =>
      Bool.eq_false_iff.2 (List.countP_eq_zero.1 hzero e he)
    obtain ⟨e, he, rfl⟩ := List.mem_map.1 hd
    rw [if_neg (Bool.eq_false_iff.1 (hnone e he))]
    exact hnone e he

/-! ## Trees -/

namespace Node

/-- The components of a spec, or those of the body of a choice. -/
def components : Node → List (Component Node)
  | spec s => s.components
  | list _ => []
  | choice c => c.body.components

variable {n n' : Node} {key : String}

/-- The components of a sound node fit. -/
theorem fit_of_mem_components (h : n.Sound) : ∀ c ∈ n.components, c.Fit Sound := by
  cases n with
  | spec s => exact h.fit
  | list l => exact List.forall_mem_nil _
  | choice c => exact h.fit

/-- What a node lists as unfilled is so in one of its components. -/
theorem mem_flatMap_of_mem_unfilled (hkey : ∃ c ∈ n.components, c.contains key = true)
    {p : Parameter Node} (hp : p ∈ n.unfilled) : p ∈ n.components.flatMap Component.unfilled := by
  cases n with
  | spec s => exact Parameter.mem_of_mem_distinct hp
  | list l =>
    obtain ⟨c, hc, -⟩ := hkey
    cases hc
  | choice c => exact Parameter.mem_of_mem_distinct hp

/-- An edit of a sub-spec shows in the first component, and in the others only what was there. -/
theorem showsFirst_within {α : Type} {act : Edit Node α} {a : α} {t : TypeRef} (h : n.Sound)
    (htype : ∀ c ∈ n.components, ∀ q ∈ c.declared key, q.type = t)
    (hkey : ∃ c ∈ n.components, c.contains key = true) (hok : within key act n = .ok a n') :
    ∃ m m', act m = .ok a m' ∧ Component.ShowsFirst key m' n.components n'.components := by
  cases n with
  | spec s =>
    obtain ⟨s', hpart, rfl⟩ := Edit.through_eq_ok.1 ((within_spec key act s).symm.trans hok)
    exact Spec.showsFirst_within h.fit htype hpart
  | list l =>
    obtain ⟨c, hc, -⟩ := hkey
    cases hc
  | choice c =>
    obtain ⟨body, hpart, rfl⟩ := Edit.through_eq_ok.1 ((within_choice key act c).symm.trans hok)
    exact Spec.showsFirst_within h.fit htype hpart

end Node

namespace Registry

/-- **A sub-spec is changed in the first component that declares its key.** Wherever the key is
seen there, the changed sub-spec is; the components behind it show what was there before. If there
are none, nothing of this name is unfilled once the sub-spec is complete. -/
theorem showsFirst_of_operation {r : Registry} {n m : Node} {key : String} {t : TypeRef}
    (h : r.Reachable n) (htype : ∀ c ∈ n.components, ∀ q ∈ c.declared key, q.type = t)
    (hkey : ∃ c ∈ n.components, c.contains key = true) (hm : n.handedOut? key = some m)
    (operations : List Operation) :
    let n' := (Operation.within key operations).apply r.catalog n
    let m' := Operation.applyAll r.catalog operations m
    Component.ShowsFirst key m' n.components n'.components ∧
      (n.components.countP (·.contains key) = 1 → m'.isComplete = true →
        ∀ p ∈ n'.unfilled, p.name ≠ key) := by
  rcases Node.reach_cases h.sound key with ⟨n', hrefuses, -⟩ | ⟨p, m₀, put, hout, hreaches⟩
  · rw [Node.handedOut?_of_refuses hrefuses] at hm
    cases hm
  rw [Node.handedOut?_of_reaches hreaches] at hm
  obtain rfl := Option.some.inj hm
  have hafter : (Operation.within key operations).apply r.catalog n
      = put (Operation.applyAll r.catalog operations m₀) := by
    unfold Operation.apply
    exact Edit.stateAfter_of_through (hreaches _)
  -- the same edit, with the sub-spec for an answer:
  have hok : Node.within key
        (modifyGet fun m => (m, Operation.applyAll r.catalog operations m)) n
      = .ok m₀ (put (Operation.applyAll r.catalog operations m₀)) := hreaches _
  obtain ⟨m, m', hact, hshows⟩ := Node.showsFirst_within h.sound htype hkey hok
  cases hact
  have hsound := (h.step (.within key operations)).sound
  rw [hafter] at hsound ⊢
  refine ⟨hshows, fun hone hcomplete p hp => ?_⟩
  rw [← Node.isComplete_eq] at hcomplete
  have hkey' : ∃ c ∈ (put (Operation.applyAll r.catalog operations m₀)).components,
      c.contains key = true := by
    obtain ⟨before, first, after, heq, -, hne, -⟩ := hshows
    obtain ⟨q, hq⟩ := List.exists_mem_of_ne_nil _ hne
    exact ⟨first, heq ▸ List.mem_append_right _ List.mem_cons_self,
      Component.contains_of_mem_seen hq⟩
  exact hshows.name_ne (Node.fit_of_mem_components hsound) hone hcomplete
    (Node.mem_flatMap_of_mem_unfilled hkey' hp)

/-- A spec that includes another twice, once by way of a third. -/
def exampleDiamond : Registry :=
  ofLines ["``[a-spec]``", "* ``[b-spec]``", "* ``[c-spec]``", "", "``[b-spec]``",
    "* ``[c-spec]``", "", "``[c-spec]``", "* `\"inner`\" ``[inner-spec]``", "",
    "``[inner-spec]``", "* `\"x`\" ``[int]``"]

theorem showsFirst_of_operation_exampleDiamond :
    ∃ n m, exampleDiamond.Reachable n ∧ n.handedOut? "inner" = some m ∧
      n.components.countP (·.contains "inner") = 2 ∧
      Component.ShowsFirst "inner"
        (Operation.applyAll exampleDiamond.catalog [.set "x" (.int 1)] m) n.components
        ((Operation.within "inner" [.set "x" (.int 1)]).apply exampleDiamond.catalog n).components := by
  obtain ⟨n, hget, htest⟩ := exists_of_get exampleDiamond "a-spec" (fun n =>
    (n.handedOut? "inner").isSome ∧ n.components.countP (·.contains "inner") = 2 ∧
      (∃ c ∈ n.components, c.contains "inner" = true) ∧
      ∀ c ∈ n.components, ∀ q ∈ c.declared "inner", q.type = .spec "inner-spec") (by decide +kernel)
  obtain ⟨hhanded, hcount, hkey, htype⟩ := of_decide_eq_true htest
  obtain ⟨m, hm⟩ := Option.isSome_iff_exists.1 hhanded
  have hreachable : exampleDiamond.Reachable n := .get hget
  exact ⟨n, m, hreachable, hm, hcount,
    (showsFirst_of_operation hreachable htype hkey hm [.set "x" (.int 1)]).1⟩

/-- The sub-spec is complete where it is shown, and yet it is reported as unfilled. -/
theorem unfilled_after_operation_exampleDiamond :
    ∃ n, exampleDiamond.get "a-spec" = .ok n ∧
      (∀ c ∈ n.components, ∀ q ∈ c.declared "inner", q.type = .spec "inner-spec") ∧
      let n' := (Operation.within "inner" [.set "x" (.int 1)]).apply exampleDiamond.catalog n
      (n'.child? "inner").any Node.isComplete = true ∧ n'.isComplete = false ∧
        n'.unfilled.map (·.name) = ["inner"] := by
  obtain ⟨n, hget, htest⟩ := exists_of_get exampleDiamond "a-spec" (fun n =>
    let n' := (Operation.within "inner" [.set "x" (.int 1)]).apply exampleDiamond.catalog n
    (∀ c ∈ n.components, ∀ q ∈ c.declared "inner", q.type = .spec "inner-spec") ∧
      (n'.child? "inner").any Node.isComplete = true ∧ n'.isComplete = false ∧
        n'.unfilled.map (·.name) = ["inner"]) (by decide +kernel)
  exact ⟨n, hget, of_decide_eq_true htest⟩

end Registry

end SpecTree
