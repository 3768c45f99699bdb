import SpecTree.Proofs.OneOf.Indistinct
import SpecTree.Proofs.Sound.Component
import SpecTree.Proofs.Spec

/-!
# Keys that are declared

No edit of a sub-spec declares a key, and no write does, unless it is to an unknown key of a spec
that takes those. Main statements: `Spec.contains_of_set`, `Spec.contains_of_within`.
-/

namespace SpecTree

variable {ν α : Type} [Judged ν] {key k : String} {value : Value}

/-! ## Alternatives -/

/-- A write makes no branch declare another key. -/
theorem OneOf.contains_of_set {o o' : OneOf ν} (h : OneOf.set key value o = .ok () o')
    (hk : o'.contains k = true) : o.contains k = true := by
  obtain ⟨next, hplan, rfl⟩ := set_eq_ok.1 h
  obtain ⟨i, p, hp⟩ := contains_iff_declared?.1 hk
  -- in a branch that was written the key is declared as before:
  have hsettled : ∃ q, o.settle.declared? i k = some q := by
    have hwritten : (o.settle.assignedIn key value next).declared? i k = some p := hp
    rw [declared?_assignedIn (check_of_plan_eq_ok ((plan_settle o key _).trans hplan))] at hwritten
    split at hwritten
    · next hik =>
      obtain ⟨q, hq, -⟩ := Option.bind_eq_some_iff.1 hwritten
      exact ⟨q, hik.2 ▸ hq⟩
    · exact ⟨p, hwritten⟩
  rw [← contains_settle]
  exact contains_iff_declared?.2 ⟨i, hsettled⟩

/-- An edit of a sub-spec leaves the declared keys alone. -/
theorem OneOf.contains_within (key : String) (act : Edit ν α) (o : OneOf ν) :
    ((OneOf.within key act).stateAfter o).contains = o.contains := by
  -- the branches are settled, and then the sub-spec is lent to those that share it:
  have hlend : ∀ {i : Nat} {p p' : Parameter ν}, o.settle.declared? i key = some p →
      p'.name = p.name → p'.type = p.type → (o.settle.lend key i p').contains = o.contains := by
    intro i p p' hp hname htype
    funext k
    rw [← contains_settle o k, Bool.eq_iff_iff, contains_iff_declared?, contains_iff_declared?]
    simp only [← Option.isSome_iff_exists, isSome_declared?_lend hp hname htype]
  rcases within_cases o key with
    ⟨e, he⟩ | ⟨i, p, -, hp, -, ⟨-, e, he⟩ | ⟨m, -, hreaches⟩⟩
  · rw [Edit.stateAfter_of_error (he act)]
    exact funext (contains_settle o)
  · rw [Edit.stateAfter_of_error (he act)]
    exact hlend hp rfl rfl
  · rw [Edit.stateAfter_of_through (hreaches act)]
    exact hlend hp rfl rfl

theorem OneOf.contains_of_select {o o' : OneOf ν} (h : OneOf.select key o = .ok () o') :
    o'.contains = o.contains := by
  obtain ⟨next, -, rfl⟩ := select_eq_ok.1 h
  exact funext (contains_settle o)

/-! ## Components -/

namespace Component

/-- A write to a declared key adds no other one to the component. -/
theorem contains_of_set {c c' : Component ν} (hkey : c.contains key = true)
    (h : Component.set key value c = .ok () c') (hk : c'.contains k = true) :
    c.contains k = true := by
  cases written_of_set h with
  | collection hset => exact (congrFun (Collection.contains_of_set hkey hset) k).symm.trans hk
  | oneOf hset => exact OneOf.contains_of_set hset hk
  | conditional hset => exact (congrFun (Conditional.contains_of_set hset).2 k).symm.trans hk

/-- An edit of a sub-spec leaves the declared keys of a component alone. -/
theorem contains_within (key : String) (act : Edit ν α) (c : Component ν) :
    ((Component.within key act).stateAfter c).contains = c.contains := by
  cases c with
  | collection c =>
    rw [Edit.stateAfter_of_through (within_collection key act c)]
    rcases Collection.within_cases c key with ⟨e, he⟩ | ⟨p, m, hp, -, -, hreaches⟩
    · rw [Edit.stateAfter_of_error (he act)]
    · rw [Edit.stateAfter_of_through (hreaches act)]
      refine Collection.contains_insert (p := { p with node := some (act.stateAfter m) }) ?_
      exact Collection.contains_iff.2 ⟨p, (Collection.name_of_parameter? hp).symm ▸ hp⟩
  | oneOf o =>
    rw [Edit.stateAfter_of_through (within_oneOf key act o)]
    exact OneOf.contains_within key act o
  | conditional s =>
    rw [Edit.stateAfter_of_through (within_conditional key act s)]
    rcases Conditional.within_cases s key with
      ⟨e, he⟩ | ⟨i, x, group, p, m, -, -, hb, hp, -, -, hreaches⟩
    · rw [Edit.stateAfter_of_error (he act)]
    · rw [Edit.stateAfter_of_through (hreaches act)]
      refine Conditional.contains_setGroup hb
        (Collection.contains_insert (p := { p with node := some (act.stateAfter m) }) ?_)
      exact Collection.contains_iff.2 ⟨p, (Collection.name_of_parameter? hp).symm ▸ hp⟩

/-- Narrowing leaves the declared keys alone. -/
theorem contains_of_select {c c' : Component ν} (h : Component.select key c = .ok () c') :
    c'.contains = c.contains := by
  rcases select_cases h with rfl | ⟨o, o', rfl, rfl, hselect⟩
  · rfl
  · exact OneOf.contains_of_select hselect

end Component

/-! ## Specs -/

namespace Spec

variable {s s' : Spec ν}

omit [Judged ν] in
theorem contains_eq_false_iff :
    s.contains k = false ↔ ∀ c ∈ s.components, c.contains k = false := by
  simp only [contains, List.any_eq_false, Bool.not_eq_true]

/-- A write does not change what a spec does with unknown keys. -/
theorem unknown_of_set (hset : Spec.set key value s = .ok () s') : s'.unknown = s.unknown := by
  rcases set_cases s key value with ⟨e, he⟩ | ⟨-, p, -, hadded⟩ | ⟨-, -, hedited⟩
  · rw [he] at hset
    cases hset
  · rw [hadded] at hset
    cases hset
    rfl
  · rw [hedited] at hset
    cases hset
    rfl

theorem unknown_within (key : String) (act : Edit ν α) (s : Spec ν) :
    ((Spec.within key act).stateAfter s).unknown = s.unknown := by
  rcases within_cases s key with ⟨e, he⟩ | ⟨pre, c, post, -, -, -, -, hwithin⟩
  · rw [Edit.stateAfter_of_error (he act)]
  · rw [Edit.stateAfter_of_through (hwithin act)]

/-- **A write declares nothing.** -/
theorem contains_of_set (hunknown : s.unknown = .error) (hset : Spec.set key value s = .ok () s')
    (hk : s'.contains k = true) : s.contains k = true := by
  rcases set_cases s key value with ⟨e, he⟩ | ⟨hnone, p, -, -⟩ | ⟨-, haccepted, hedited⟩
  · rw [he] at hset
    cases hset
  · -- the spec does not take unknown keys
    rw [set_of_not_contains hnone, Edit.replace_eq_ok, if_pos hunknown] at hset
    cases hset
  · rw [hedited] at hset
    cases hset
    obtain ⟨d, hd, hdk⟩ := List.any_eq_true.1 hk
    obtain ⟨c, hc, rfl⟩ := List.mem_map.1 hd
    refine List.any_eq_true.2 ⟨c, hc, ?_⟩
    split at hdk
    · next hcontains =>
      obtain ⟨c', hc'⟩ := Component.set_of_checkSet_eq_ok hcontains (haccepted c hc hcontains)
      rw [Edit.stateAfter_of_ok hc'] at hdk
      exact Component.contains_of_set hcontains hc' hdk
    · exact hdk

/-- **An edit of a sub-spec declares nothing.** -/
theorem contains_of_within (key : String) (act : Edit ν α)
    (hk : ((Spec.within key act).stateAfter s).contains k = true) : s.contains k = true := by
  by_contra hnot
  rw [Bool.not_eq_true, contains_eq_false_iff] at hnot
  have hafter : ∀ c ∈ ((Spec.within key act).stateAfter s).components, c.contains k = false :=
    forall_within (fun c _ hc => (congrFun (Component.contains_within key act c) k).trans hc)
      (fun c c' hc hselect => (congrFun (Component.contains_of_select hselect) k).trans hc) hnot
  rw [contains_eq_false_iff.2 hafter] at hk
  cases hk

end Spec

end SpecTree
