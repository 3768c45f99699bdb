import SpecTree.Proofs.Component
import SpecTree.Proofs.Sound.OneOf
import SpecTree.Proofs.Sound.View

/-!
# What writes to components keep

The laws of the three kinds of components, and then of components of any kind:

* `Component.kept_set`: a write keeps what is shown, unless it is to a case parameter with groups
  that declare it;
* `Component.kept_select`: narrowing keeps what is shown;
* `Component.reach_cases`: a sub-spec is refused, or handed out.
-/

namespace SpecTree

variable {ν : Type} [Judged ν] {S : ν → Prop} {key : String} {value : Value}

/-! ## Slots -/

/-- What shows a value holds one. -/
theorem Parameter.Shows.hasValue {p : Parameter ν} (h : p.Shows value) : p.hasValue = true := by
  obtain ⟨t, w, ht, -, hw⟩ := h
  rw [hasValue_of_isPrimitive (isPrimitive_iff.2 ⟨t, ht⟩), hw]
  rfl

/-- A slot still holds a value when its sub-spec gives way to one that does. -/
theorem Parameter.hasValue_setNode {p : Parameter ν} {m m' : ν} (hprim : p.isPrimitive = false)
    (hm : p.node = some m) (hmono : Judged.hasValue m = true → Judged.hasValue m' = true)
    (hv : p.hasValue = true) : ({ p with node := some m' } : Parameter ν).hasValue = true := by
  rw [hasValue_of_node hprim hm] at hv
  have hprim' : ({ p with node := some m' } : Parameter ν).isPrimitive = false := hprim
  rw [hasValue_of_node hprim' rfl]
  exact hmono hv

/-! ## Collections -/

namespace Collection

variable {c c' : Collection ν} {p : Parameter ν} {m : ν}

/-- A collection hands out the sub-spec of a slot, and takes it back with whatever was done to it.
-/
theorem handsOut (h : c.Fit S) (hp : c.parameter? key = some p) (hprim : p.isPrimitive = false)
    (hm : p.node = some m) :
    (view S).HandsOut S key c p m fun m => c.insert { p with node := some m } := by
  have hname : p.name = key := name_of_parameter? hp
  -- a sub-spec takes its own place, and nothing else is touched:
  have hkeeps : ∀ {m'} {Q : Parameter ν → Prop} {k},
      (key = k → Q p → Q { p with node := some m' }) →
      Parameter.Keeps Q (c.parameter? k) ((c.insert { p with node := some m' }).parameter? k) := by
    intro m' Q k hQ
    by_cases hk : key = k
    · refine keeps_insert hp ?_ k (hQ hk)
      exact hname
    · rw [parameter?_insert, if_neg]
      · exact .refl Q _
      · exact fun h => hk (hname.symm.trans h)
  refine ⟨hp, hprim, hm, fun m' => ?_, fun m' hS hmono => ⟨?_, ?_, fun Q _ k hQ => hkeeps hQ⟩⟩
  · show (c.insert _).parameter? key = _
    rw [parameter?_insert, if_pos]
    exact hname
  · exact h.insert ((h.parameter? hp).setNode hprim hS)
  · intro hv
    obtain ⟨k, hshown⟩ := (hasValue_iff h).1 hv
    have hfit : (c.insert { p with node := some m' }).Fit S :=
      h.insert ((h.parameter? hp).setNode hprim hS)
    exact (hasValue_iff hfit).2
      ⟨k, (hkeeps fun _ => Parameter.hasValue_setNode hprim hm hmono).shown hshown⟩

/-- A write to a declared key keeps what a collection shows. -/
theorem kept_set (h : c.Fit S) (hkey : c.contains key = true) (hset : c.set key value = .ok c') :
    (view S).Kept S (fun _ _ => True) c c' where
  fit := h.set hset
  hasValue := by
    intro hv
    obtain ⟨k, hshown⟩ := (hasValue_iff h).1 hv
    exact (hasValue_iff (h.set hset)).2
      ⟨k, (keeps_set h Parameter.persistent_hasValue hkey hset k).shown hshown⟩
  keeps _ hQ k _ := keeps_set h hQ hkey hset k

end Collection

/-! ## Alternatives -/

namespace OneOf

variable {o o' : OneOf ν}

/-- Alternatives hold a value if they did, as they go on showing it. -/
theorem hasValue_of_keeps (h : o.Fit S) (h' : o'.Fit S)
    (hkeeps : ∀ k, Parameter.Keeps (fun p : Parameter ν => p.hasValue = true) (o.parameter? k)
      (o'.parameter? k)) (hv : o.hasValue = true) : o'.hasValue = true := by
  obtain ⟨k, hshown⟩ := (hasValue_iff h).1 hv
  exact (hasValue_iff h').2 ⟨k, (hkeeps k).shown hshown⟩

/-- Settling keeps what is shown. -/
theorem kept_settle (h : o.Fit S) : (view S).Kept S (fun _ _ => True) o o.settle where
  fit := h.settle
  hasValue := hasValue_of_keeps h h.settle fun k => keeps_settle h _ k
  keeps Q _ k _ := keeps_settle h Q k

/-- A write keeps what is shown, in the branches that it leaves open. -/
theorem kept_set (h : o.Fit S) (hset : OneOf.set key value o = .ok () o') :
    (view S).Kept S (fun _ _ => True) o o' where
  fit := h.set hset
  hasValue := hasValue_of_keeps h (h.set hset) fun k =>
    keeps_set h Parameter.persistent_hasValue hset k
  keeps _ hQ k _ := keeps_set h hQ hset k

/-- Narrowing keeps what is shown, in the branches that it leaves open. -/
theorem kept_select (h : o.Fit S) (hselect : OneOf.select key o = .ok () o') :
    (view S).Kept S (fun _ _ => True) o o' where
  fit := h.select hselect
  hasValue := hasValue_of_keeps h (h.select hselect) fun k =>
    keeps_select h Parameter.persistent_hasValue hselect k
  keeps _ hQ k _ := keeps_select h hQ hselect k

/-- The sub-spec of the first branch that could be written is handed out. -/
theorem handsOut {i : Nat} {p : Parameter ν} {m : ν} (h : o.Fit S)
    (hi : (o.writable key).head? = some i) (hp : o.settle.declared? i key = some p)
    (hprim : p.isPrimitive = false) (hm : p.node = some m) :
    (view S).HandsOut S key o p m fun m => o.settle.lend key i { p with node := some m } := by
  rw [← writable_settle, writable_of_live_eq_none (live_settle o)] at hi
  have hpfit : p.Fit S := fit_of_declared? h.settle.branches hp
  refine ⟨?_, hprim, hm, fun m' => ?_, fun m' hS hmono => ?_⟩
  · show o.parameter? key = some p
    rw [parameter?_eq_candidates h.liveFirst, hi, Option.bind_some, hp]
  · refine parameter?_lend hi hp ?_ ?_ <;> rfl
  · have hfit : Parameter.Fit S { p with node := some m' } := hpfit.setNode hprim hS
    have hv := Parameter.hasValue_setNode hprim hm hmono
    have hlend : (o.settle.lend key i { p with node := some m' }).Fit S := by
      refine Fit.lend h.settle (live_settle o) hi hp ?_ ?_ hfit hv <;> rfl
    have hkeeps : ∀ {Q : Parameter ν → Prop} (_ : Parameter.Persistent S Q) (k : String),
        (key = k → Q p → Q { p with node := some m' }) → Parameter.Keeps Q (o.parameter? k)
          ((o.settle.lend key i { p with node := some m' }).parameter? k) := by
      intro Q hQ k hkeep
      rw [← parameter?_settle h.liveFirst]
      refine keeps_lend h.settle hQ (live_settle o) hi hp hprim ?_ ?_ hfit hv k hkeep <;> rfl
    exact ⟨hlend,
      hasValue_of_keeps h hlend fun k => hkeeps Parameter.persistent_hasValue k fun _ => hv,
      fun Q hQ k hkeep => hkeeps hQ k hkeep⟩

end OneOf

/-! ## Conditionals -/

namespace Conditional

variable {s s' : Conditional ν} {group group' : Collection ν}

omit [Judged ν] in
/-- A group may give way to another one that fits. -/
theorem Fit.setGroup (h : s.Fit S) (hgroup : group'.Fit S) (i : Nat) :
    (s.setGroup i group').Fit S where
  case := h.case
  isPrimitive := h.isPrimitive
  groups g hg := by
    obtain ⟨j, hj⟩ := List.mem_iff_getElem?.1 hg
    unfold Conditional.setGroup at hj
    rw [List.getElem?_modify] at hj
    obtain ⟨b, hb, hbg⟩ := Option.map_eq_some_iff.1 hj
    rw [← hbg]
    split
    · exact hgroup
    · exact h.groups b (List.mem_of_getElem? hb)

/-- What a change of the chosen group keeps, the conditional keeps. -/
theorem kept_setGroup {allowed : (Parameter ν → Prop) → String → Prop} {i : Nat} {x : Value}
    (h : s.Fit S) (hi : s.selectedIndex? = some i) (hb : s.branches[i]? = some (x, group))
    (hgroup : (Collection.view S).Kept S allowed group group') :
    (view S).Kept S allowed s (s.setGroup i group') := by
  have hbefore : s.selected? = some group := selected?_eq_some.2 ⟨i, x, hi, hb⟩
  have hafter : (s.setGroup i group').selected? = some group' := selected?_setGroup hi hb group'
  refine ⟨h.setGroup hgroup.fit i, ?_, ?_⟩
  · -- the value may be that of the case, or one in the group:
    show s.hasValue = true → (s.setGroup i group').hasValue = true
    unfold hasValue
    rw [hbefore, hafter]
    show (s.case.hasValue || (s.case.isComplete && group.hasValue)) = true →
      (s.case.hasValue || (s.case.isComplete && group'.hasValue)) = true
    rw [Bool.or_eq_true, Bool.or_eq_true, Bool.and_eq_true, Bool.and_eq_true]
    exact Or.imp id (And.imp id hgroup.hasValue)
  · intro Q hQ k hallowed
    show Parameter.Keeps Q (s.parameter? k) ((s.setGroup i group').parameter? k)
    unfold parameter?
    rw [hbefore, hafter]
    show Parameter.Keeps Q (if k = s.case.name then some s.case else group.parameter? k)
      (if k = s.case.name then some s.case else group'.parameter? k)
    split
    · exact .refl Q _
    · exact hgroup.keeps Q hQ k hallowed

omit [Judged ν] in
/-- What is shown is declared. -/
theorem contains_of_parameter? {k : String} {p : Parameter ν} (hp : s.parameter? k = some p) :
    s.contains k = true := by
  unfold parameter? at hp
  show (decide (k = s.case.name) || s.branches.any (·.2.contains k)) = true
  split at hp
  · next hk => rw [decide_eq_true hk, Bool.true_or]
  · obtain ⟨group, hgroup, hpg⟩ := Option.bind_eq_some_iff.1 hp
    obtain ⟨i, x, -, hb⟩ := selected?_eq_some.1 hgroup
    rw [Bool.or_eq_true]
    exact Or.inr (List.any_eq_true.2
      ⟨(x, group), List.mem_of_getElem? hb, Collection.contains_iff.2 ⟨p, hpg⟩⟩)

omit [Judged ν] in
/-- What is not declared is not shown. -/
theorem parameter?_eq_none {k : String} (h : s.contains k = false) : s.parameter? k = none := by
  cases hp : s.parameter? k with
  | none => rfl
  | some p =>
    rw [contains_of_parameter? hp] at h
    cases h

/-- A write keeps what is shown, unless it is to the case parameter of groups that declare it. -/
theorem kept_set (h : s.Fit S) (hset : s.set key value = .ok s') :
    (view S).Kept S (fun _ k => key = s.case.name → s.contains k = false) s s' := by
  rcases set_cases hset with
    ⟨hkey, w, hw, rfl⟩ | ⟨i, x, group, group', -, hi, hb, hcontains, hgroup, rfl⟩
  · refine ⟨⟨h.case.set hw, Parameter.isPrimitive_of_check hw, h.groups⟩, fun _ => ?_, ?_⟩
    · show (({ s.case with value := some w } : Parameter ν).hasValue || _) = true
      rw [Parameter.hasValue_of_check hw, Bool.true_or]
    · -- what is not declared is shown neither before nor after:
      intro Q _ k hk
      have hnone : s.parameter? k = none := parameter?_eq_none (hk hkey)
      have hnone' : parameter? { s with case := { s.case with value := some w } } k = none :=
        parameter?_eq_none (hk hkey)
      show Parameter.Keeps Q (s.parameter? k)
        (parameter? { s with case := { s.case with value := some w } } k)
      rw [hnone, hnone']
      exact .refl Q none
  · have hfit : group.Fit S := h.groups _ (List.mem_of_getElem? hb)
    have hkept := kept_setGroup h hi hb (Collection.kept_set hfit hcontains hgroup)
    exact ⟨hkept.fit, hkept.hasValue, fun Q hQ k _ => hkept.keeps Q hQ k trivial⟩

/-- The sub-spec of a slot in the selected group is handed out. -/
theorem handsOut {i : Nat} {x : Value} {p : Parameter ν} {m : ν} (h : s.Fit S)
    (hkey : key ≠ s.case.name) (hi : s.selectedIndex? = some i)
    (hb : s.branches[i]? = some (x, group)) (hp : group.parameter? key = some p)
    (hprim : p.isPrimitive = false) (hm : p.node = some m) :
    (view S).HandsOut S key s p m
      fun m => s.setGroup i (group.insert { p with node := some m }) := by
  have hfit : group.Fit S := h.groups _ (List.mem_of_getElem? hb)
  have hinner := Collection.handsOut hfit hp hprim hm
  refine ⟨?_, hprim, hm, fun m' => ?_, fun m' hS hmono => ?_⟩
  · show s.parameter? key = some p
    unfold parameter?
    rw [if_neg hkey, selected?_eq_some.2 ⟨i, x, hi, hb⟩]
    exact hp
  · show (s.setGroup i _).parameter? key = _
    unfold parameter?
    rw [selected?_setGroup hi hb]
    exact (if_neg hkey).trans (hinner.put_shown m')
  · exact kept_setGroup h hi hb (hinner.kept m' hS hmono)

/-- A value that is shown counts. -/
theorem hasValue_of_shown (h : s.Fit S) {k : String}
    (hshown : ∃ p ∈ s.parameter? k, p.hasValue = true) : s.hasValue = true := by
  obtain ⟨p, hp, hv⟩ := hshown
  unfold parameter? at hp
  unfold hasValue
  split at hp
  · cases Option.mem_def.1 hp
    rw [hv, Bool.true_or]
  · obtain ⟨group, hgroup, hpg⟩ := Option.bind_eq_some_iff.1 hp
    obtain ⟨i, x, hi, hb⟩ := selected?_eq_some.1 hgroup
    -- a group is chosen by a value, or by a default, with which the case is optional
    have hcomplete : s.case.isComplete = true := by
      obtain ⟨v, hcase, -⟩ := Option.bind_eq_some_iff.1 hi
      obtain ⟨t, ht⟩ := Parameter.isPrimitive_iff.1 h.isPrimitive
      unfold Parameter.isComplete
      rw [ht]
      unfold Parameter.get? at hcase
      cases hvalue : s.case.value with
      | some w => exact Bool.or_true _
      | none =>
        rw [hvalue] at hcase
        have hdefault : s.case.default = some v := hcase
        rw [h.case.optional (by rw [hdefault]; rfl)]
        rfl
    have hfit : group.Fit S := h.groups _ (List.mem_of_getElem? hb)
    have hgv := (Collection.hasValue_iff hfit).2 ⟨k, p, hpg, hv⟩
    rw [hgroup, hcomplete, Bool.true_and]
    show (s.case.hasValue || group.hasValue) = true
    rw [hgv, Bool.or_true]

end Conditional

/-! ## Components of any kind -/

namespace Component

variable {c c' : Component ν}

/-- Is the key that of the case parameter of groups that declare another one? -/
def hides (key k : String) : Component ν → Bool
  | .conditional s => s.case.name = key && s.contains k
  | _ => false

/-- What is kept of a collection is kept of the component. -/
theorem embeds_collection : View.Embeds (Collection.view S) (view S) .collection :=
  ⟨fun _ _ => rfl, fun _ _ h => h, fun _ h => h⟩

theorem embeds_oneOf : View.Embeds (OneOf.view S) (view S) .oneOf :=
  ⟨fun _ _ => rfl, fun _ _ h => h, fun _ h => h⟩

theorem embeds_conditional : View.Embeds (Conditional.view S) (view S) .conditional :=
  ⟨fun _ _ => rfl, fun _ _ h => h, fun _ h => h⟩

/-- A write keeps what is shown, unless it is to a case parameter that may hide it. -/
theorem kept_set (h : c.Fit S) (hkey : c.contains key = true)
    (hset : Component.set key value c = .ok () c') :
    (view S).Kept S (fun _ k => c.hides key k = false) c c' := by
  cases written_of_set hset with
  | collection hpart =>
    have hkept := Collection.kept_set h hkey hpart
    exact (hkept.imp fun _ _ _ => trivial).embed embeds_collection
  | oneOf hpart => exact ((OneOf.kept_set h hpart).imp fun _ _ _ => trivial).embed embeds_oneOf
  | @conditional d d' hpart =>
    have hkept := Conditional.kept_set h hpart
    refine (hkept.imp fun _ k hhides hcase => ?_).embed embeds_conditional
    have hhides : (decide (d.case.name = key) && d.contains k) = false := hhides
    rwa [decide_eq_true hcase.symm, Bool.true_and] at hhides

/-- Narrowing keeps what is shown. -/
theorem kept_select (h : c.Fit S) (hselect : select key c = .ok () c') :
    (view S).Kept S (fun _ _ => True) c c' := by
  rcases select_cases hselect with rfl | ⟨o, o', rfl, rfl, hpart⟩
  · exact .refl h
  · exact (OneOf.kept_select h hpart).embed embeds_oneOf

/-- A sub-spec of a component is one of the collection in it. -/
theorem within_collection {α : Type} (key : String) (act : Edit ν α) (c : Collection ν) :
    within key act (.collection c) = Edit.through .collection (Collection.within key act) c :=
  inCollection_eq _ _

theorem within_oneOf {α : Type} (key : String) (act : Edit ν α) (o : OneOf ν) :
    within key act (.oneOf o) = Edit.through .oneOf (OneOf.within key act) o :=
  inOneOf_eq _ _

theorem within_conditional {α : Type} (key : String) (act : Edit ν α) (s : Conditional ν) :
    within key act (.conditional s) = Edit.through .conditional (Conditional.within key act) s :=
  inConditional_eq _ _

/-- A sub-spec is refused, and then nothing is lost, or it is handed out. -/
theorem reach_cases (h : c.Fit S) (key : String) :
    (∃ c', Edit.Refuses (within key) c c' ∧ (view S).Kept S (fun _ _ => True) c c') ∨
      ∃ p m put, (view S).HandsOut S key c p m put ∧ Edit.Reaches (within key) c m put := by
  cases c with
  | collection c =>
    rcases Collection.within_cases c key with hrefuses | ⟨p, m, hp, hprim, hm, hreaches⟩
    · exact Or.inl ⟨_, hrefuses.through fun act => within_collection key act c, .refl h⟩
    · exact Or.inr ⟨p, m, _, (Collection.handsOut h hp hprim hm).embed embeds_collection,
        hreaches.through fun act => within_collection key act c⟩
  | oneOf o =>
    rcases OneOf.within_cases o key with
      hrefuses | ⟨i, p, hi, hp, hprim, ⟨hnone, -⟩ | ⟨m, hm, hreaches⟩⟩
    · exact Or.inl ⟨_, hrefuses.through fun act => within_oneOf key act o,
        (OneOf.kept_settle h).embed embeds_oneOf⟩
    · -- a slot for a sub-spec is never empty
      have hp' : p.Fit S := OneOf.fit_of_declared? (OneOf.branches_settle h.branches) hp
      obtain ⟨m, hm, -⟩ := hp'.node_some hprim
      rw [hnone] at hm
      cases hm
    · exact Or.inr ⟨p, m, _, (OneOf.handsOut h hi hp hprim hm).embed embeds_oneOf,
        hreaches.through fun act => within_oneOf key act o⟩
  | conditional s =>
    rcases Conditional.within_cases s key with
      hrefuses | ⟨i, x, group, p, m, hkey, hi, hb, hp, hprim, hm, hreaches⟩
    · exact Or.inl ⟨_, hrefuses.through fun act => within_conditional key act s, .refl h⟩
    · exact Or.inr ⟨p, m, _,
        (Conditional.handsOut h hkey hi hb hp hprim hm).embed embeds_conditional,
        hreaches.through fun act => within_conditional key act s⟩

/-- A value that is shown counts. -/
theorem hasValue_of_shown (h : c.Fit S) {k : String}
    (hshown : ∃ p ∈ c.parameter? k, p.hasValue = true) : c.hasValue = true := by
  cases c with
  | collection c => exact (Collection.hasValue_iff h).2 ⟨k, hshown⟩
  | oneOf o => exact (OneOf.hasValue_iff h).2 ⟨k, hshown⟩
  | conditional s => exact Conditional.hasValue_of_shown h hshown

/-- What is shown is fit. -/
theorem fit_of_parameter? (h : c.Fit S) {k : String} {p : Parameter ν}
    (hp : c.parameter? k = some p) : p.Fit S := by
  cases c with
  | collection c => exact Collection.Fit.parameter? h hp
  | oneOf o =>
    have hfit : o.Fit S := h
    have hshown : o.parameter? k = some p := hp
    rw [OneOf.parameter?_eq_candidates hfit.liveFirst] at hshown
    obtain ⟨i, -, hip⟩ := Option.bind_eq_some_iff.1 hshown
    exact OneOf.fit_of_declared? (OneOf.branches_settle hfit.branches) hip
  | conditional s =>
    have hfit : s.Fit S := h
    have hshown : (if k = s.case.name then some s.case else s.selected?.bind (·.parameter? k))
      = some p := hp
    split at hshown
    · cases hshown
      exact hfit.case
    · obtain ⟨group, hgroup, hpg⟩ := Option.bind_eq_some_iff.1 hshown
      obtain ⟨i, x, -, hb⟩ := Conditional.selected?_eq_some.1 hgroup
      exact Collection.Fit.parameter? (hfit.groups _ (List.mem_of_getElem? hb)) hpg

/-- What is shown is declared. -/
theorem contains_of_parameter? {k : String} {p : Parameter ν} (hp : c.parameter? k = some p) :
    c.contains k = true := by
  cases c with
  | collection c => exact Collection.contains_iff.2 ⟨p, hp⟩
  | oneOf o =>
    have hne : ¬ o.parameter? k = none := by
      intro hnone
      rw [show o.parameter? k = some p from hp] at hnone
      cases hnone
    rw [OneOf.parameter?_eq_none_iff] at hne
    obtain ⟨i, hi⟩ := List.exists_mem_of_ne_nil _ hne
    obtain ⟨q, hq⟩ := Option.isSome_iff_exists.1 (List.mem_filter.1 hi).2
    obtain ⟨b, hb, hbq⟩ := OneOf.declared?_eq_some.1 hq
    exact List.any_eq_true.2
      ⟨b, List.mem_of_getElem? hb, Collection.contains_iff.2 ⟨q, hbq⟩⟩
  | conditional s => exact Conditional.contains_of_parameter? hp

/-- What is not declared is not shown. -/
theorem parameter?_eq_none {k : String} (h : c.contains k = false) : c.parameter? k = none := by
  cases hp : c.parameter? k with
  | none => rfl
  | some p =>
    rw [contains_of_parameter? hp] at h
    cases h

end Component

end SpecTree
