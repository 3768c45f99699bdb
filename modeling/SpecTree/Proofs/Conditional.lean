import SpecTree.Proofs.Parameter
import SpecTree.Result
import SpecTree.Tree.Conditional

/-!
# Writing to conditionals

Where a write to a conditional goes, and what it leaves behind:

* `plan_eq_ok_none`, `plan_eq_ok_some`: a write goes to the case parameter or to the chosen group;
* `set_cases`: what it makes of them;
* `within_cases`: a sub-spec is edited in the chosen group.
-/

namespace SpecTree

namespace Conditional

variable {ν : Type} {s : Conditional ν} {key : String}

/-! ## The chosen group -/

theorem selected?_eq_some {group : Collection ν} :
    s.selected? = some group ↔
      ∃ i x, s.selectedIndex? = some i ∧ s.branches[i]? = some (x, group) := by
  unfold selected?
  rw [Option.bind_eq_some_iff]
  constructor
  · rintro ⟨i, hi, hg⟩
    obtain ⟨⟨x, g⟩, hb, rfl⟩ := Option.map_eq_some_iff.1 hg
    exact ⟨i, x, hi, hb⟩
  · rintro ⟨i, x, hi, hb⟩
    exact ⟨i, hi, by rw [hb]; rfl⟩

theorem map_fst_setGroup (s : Conditional ν) (i : Nat) (group : Collection ν) :
    (s.setGroup i group).branches.map (·.1) = s.branches.map (·.1) := by
  apply List.ext_getElem?
  intro j
  rw [List.getElem?_map, List.getElem?_map, setGroup, List.getElem?_modify]
  cases s.branches[j]? with
  | none => rfl
  | some b => by_cases hij : i = j <;> simp [hij]

/-- What is the same of a group and of the one put in its place is the same throughout. -/
theorem map_setGroup {α : Type} {f : Value × Collection ν → α} {i : Nat} {x : Value}
    {group group' : Collection ν} (hb : s.branches[i]? = some (x, group))
    (h : f (x, group') = f (x, group)) :
    (s.setGroup i group').branches.map f = s.branches.map f := by
  apply List.ext_getElem?
  intro j
  rw [List.getElem?_map, List.getElem?_map]
  by_cases hij : i = j
  · subst hij
    rw [setGroup, List.getElem?_modify_eq, hb]
    exact congrArg some h
  · rw [setGroup, List.getElem?_modify_ne _ _ hij]

/-- A group that declares what it declared before. -/
theorem contains_setGroup {i : Nat} {x : Value} {group group' : Collection ν}
    (hb : s.branches[i]? = some (x, group)) (h : group'.contains = group.contains) :
    (s.setGroup i group').contains = s.contains := by
  have hmap : (s.setGroup i group').branches.map (·.2.contains)
      = s.branches.map (·.2.contains) := map_setGroup hb h
  funext k
  have hany := congrArg (List.any · (· k)) hmap
  simp only [List.any_map] at hany
  exact congrArg (decide (k = s.case.name) || ·) hany

/-- A change of a group changes no choice. -/
theorem selectedIndex?_setGroup (s : Conditional ν) (i : Nat) (group : Collection ν) :
    (s.setGroup i group).selectedIndex? = s.selectedIndex? := by
  -- the index depends on the case values of the groups alone:
  have hfind : ∀ (bs : List (Value × Collection ν)) (current : Value),
      bs.findIdx? (·.1 == current) = (bs.map (·.1)).findIdx? (· == current) :=
    fun bs current => by
      rw [List.findIdx?_map]
      rfl
  unfold selectedIndex?
  simp only [hfind, map_fst_setGroup]
  rfl

theorem getElem?_setGroup {i : Nat} {x : Value} {group : Collection ν}
    (h : s.branches[i]? = some (x, group)) (group' : Collection ν) :
    (s.setGroup i group').branches[i]? = some (x, group') := by
  rw [setGroup, List.getElem?_modify_eq, h]
  rfl

theorem selected?_setGroup {i : Nat} {x : Value} {group : Collection ν}
    (hi : s.selectedIndex? = some i) (h : s.branches[i]? = some (x, group))
    (group' : Collection ν) : (s.setGroup i group').selected? = some group' :=
  selected?_eq_some.2 ⟨i, x, (selectedIndex?_setGroup s i group').trans hi,
    getElem?_setGroup h group'⟩

/-- Putting a group back unchanged changes nothing. -/
theorem setGroup_of_getElem? {i : Nat} {x : Value} {group : Collection ν}
    (h : s.branches[i]? = some (x, group)) : s.setGroup i group = s := by
  unfold setGroup
  rw [modify_of_getElem? h rfl]

/-! ## Plans -/

/-- A plan for the case parameter. A value must choose a group. -/
theorem plan_eq_ok_none {value : Option Value} :
    s.plan key value = .ok none ↔
      key = s.case.name ∧
        ∀ v, value = some v → ∃ w, s.case.check v = .ok w ∧ s.branches.any (·.1 == w) := by
  unfold plan
  by_cases hk : key = s.case.name
  · rw [if_pos hk]
    cases value with
    | none => simp [hk]
    | some v =>
      show (s.case.check v >>= fun w => if s.branches.any (·.1 == w) then pure none
        else .error (.invalidCase key w.toText)) = .ok none ↔ _
      rw [bind_eq_ok]
      constructor
      · rintro ⟨w, hw, hnone⟩
        split at hnone
        · rename_i hany
          exact ⟨hk, fun v' hv => by cases hv; exact ⟨w, hw, hany⟩⟩
        · cases hnone
      · rintro ⟨-, h⟩
        obtain ⟨w, hw, hany⟩ := h v rfl
        exact ⟨w, hw, by rw [if_pos hany]; rfl⟩
  · -- any other key is looked for in a group:
    rw [if_neg hk]
    constructor
    · intro h
      split at h
      · split at h
        · split at h
          · cases h
          · obtain ⟨u, -, hnone⟩ := map_eq_ok.1 h
            cases hnone
        · cases h
      · cases h
    · exact fun h => absurd h.1 hk

/-- A plan for a parameter of the chosen group. A value must be accepted there. -/
theorem plan_eq_ok_some {value : Option Value} {i : Nat} :
    s.plan key value = .ok (some i) ↔
      key ≠ s.case.name ∧ s.selectedIndex? = some i ∧
        ∃ x group, s.branches[i]? = some (x, group) ∧ group.contains key ∧
          ∀ v, value = some v → group.checkSet key v = .ok () := by
  unfold plan
  by_cases hk : key = s.case.name
  · -- a plan for the case parameter names no group:
    rw [if_pos hk]
    constructor
    · intro h
      split at h
      · cases h
      · obtain ⟨w, -, hsome⟩ := bind_eq_ok.1 h
        split at hsome <;> cases hsome
    · exact fun h => absurd hk h.1
  · rw [if_neg hk]
    constructor
    · intro h
      split at h
      · rename_i j group hj hgroup
        obtain ⟨j', x, hj', hb⟩ := selected?_eq_some.1 hgroup
        rw [hj] at hj'
        cases hj'
        split at h
        · rename_i hcontains
          split at h
          · cases h
            exact ⟨hk, hj, x, group, hb, hcontains, fun v hv => by cases hv⟩
          · rename_i v
            obtain ⟨u, hc, hsome⟩ := map_eq_ok.1 h
            cases hsome
            exact ⟨hk, hj, x, group, hb, hcontains, fun v' hv => by cases hv; exact hc⟩
        · cases h
      · cases h
    · rintro ⟨-, hi, x, group, hb, hcontains, hcheck⟩
      have hgroup : s.selected? = some group := selected?_eq_some.2 ⟨i, x, hi, hb⟩
      simp only [hi, hgroup, hcontains, if_true]
      cases value with
      | none => rfl
      | some v => simp only [hcheck v rfl, Except.map]

/-! ## Writes -/

/-- The case parameter takes a value that chooses a group. -/
theorem set_of_plan_eq_ok_none {v : Value} (h : s.plan key (some v) = .ok none) :
    ∃ w, s.case.check v = .ok w ∧
      s.set key v = .ok { s with case := { s.case with value := some w } } := by
  obtain ⟨-, hcheck⟩ := plan_eq_ok_none.1 h
  obtain ⟨w, hw, -⟩ := hcheck v rfl
  refine ⟨w, hw, ?_⟩
  unfold set
  rw [h]
  show (s.case.set v >>= fun case => pure { s with case }) = _
  rw [Parameter.set_eq_ok.2 ⟨w, hw, rfl⟩]
  rfl

/-- A parameter of the chosen group takes the value. -/
theorem set_of_plan_eq_ok_some {v : Value} {i : Nat} (h : s.plan key (some v) = .ok (some i)) :
    ∃ x group group', s.selectedIndex? = some i ∧ s.branches[i]? = some (x, group) ∧
      group.contains key ∧ group.set key v = .ok group' ∧
      s.set key v = .ok (s.setGroup i group') := by
  obtain ⟨-, hi, x, group, hb, hcontains, hcheck⟩ := plan_eq_ok_some.1 h
  obtain ⟨p, hp⟩ := Collection.contains_iff.1 hcontains
  obtain ⟨w, hw⟩ := (Collection.checkSet_eq_ok hp).1 (hcheck v rfl)
  have hset := (Collection.set_eq_ok hp).2 ⟨w, hw, rfl⟩
  refine ⟨x, group, _, hi, hb, hcontains, hset, ?_⟩
  unfold set
  rw [h, ok_bind]
  simp only [hb]
  show (group.set key v >>= fun group => pure (s.setGroup i group)) = _
  rw [hset]
  rfl

theorem set_of_plan_eq_error {v : Value} {e : TreeError} (h : s.plan key (some v) = .error e) :
    s.set key v = .error e := by
  unfold set
  rw [h]
  rfl

/-- A write goes to the case parameter, or to the chosen group. -/
theorem set_cases {v : Value} {s' : Conditional ν} (h : s.set key v = .ok s') :
    (key = s.case.name ∧ ∃ w, s.case.check v = .ok w ∧
      s' = { s with case := { s.case with value := some w } }) ∨
    ∃ i x group group', key ≠ s.case.name ∧ s.selectedIndex? = some i ∧
      s.branches[i]? = some (x, group) ∧ group.contains key ∧ group.set key v = .ok group' ∧
      s' = s.setGroup i group' := by
  cases hplan : s.plan key (some v) with
  | error e =>
    rw [set_of_plan_eq_error hplan] at h
    cases h
  | ok place =>
    cases place with
    | none =>
      obtain ⟨w, hw, hok⟩ := set_of_plan_eq_ok_none hplan
      rw [hok] at h
      cases h
      exact .inl ⟨(plan_eq_ok_none.1 hplan).1, w, hw, rfl⟩
    | some i =>
      obtain ⟨x, group, group', hi, hb, hkey, hgroup, hok⟩ := set_of_plan_eq_ok_some hplan
      rw [hok] at h
      cases h
      exact .inr ⟨i, x, group, group', (plan_eq_ok_some.1 hplan).1, hi, hb, hkey, hgroup, rfl⟩

/-- A write declares nothing. -/
theorem contains_of_set {v : Value} {s' : Conditional ν} (h : s.set key v = .ok s') :
    s'.case.name = s.case.name ∧ s'.contains = s.contains := by
  rcases set_cases h with ⟨-, w, -, rfl⟩ | ⟨i, x, group, group', -, -, hb, hkey, hgroup, rfl⟩
  · exact ⟨rfl, rfl⟩
  · exact ⟨rfl, contains_setGroup hb (Collection.contains_of_set hkey hgroup)⟩

theorem place_eq_ok {i : Nat} {group : Collection ν} :
    s.place key = .ok (i, group) ↔
      key ≠ s.case.name ∧ s.selectedIndex? = some i ∧
        ∃ x, s.branches[i]? = some (x, group) ∧ group.contains key := by
  unfold place
  rw [bind_eq_ok]
  constructor
  · rintro ⟨_ | j, hplan, h⟩
    · cases h
    · obtain ⟨hk, hj, x, g, hb, hcontains, -⟩ := plan_eq_ok_some.1 hplan
      simp only [hb] at h
      cases h
      exact ⟨hk, hj, x, hb, hcontains⟩
  · rintro ⟨hk, hi, x, hb, hcontains⟩
    have hplan : s.plan key none = .ok (some i) :=
      plan_eq_ok_some.2 ⟨hk, hi, x, group, hb, hcontains, fun v hv => by cases hv⟩
    refine ⟨some i, hplan, ?_⟩
    simp only [hb]

theorem within_of_place {α : Type} {i : Nat} {group : Collection ν}
    (h : s.place key = .ok (i, group)) (act : Edit ν α) :
    within key act s = Edit.through (s.setGroup i) (Collection.within key act) group := by
  unfold within Edit.zoom Edit.through
  simp only [h]
  cases Collection.within key act group <;> rfl

/-- Either no sub-spec is found under the key in the chosen group, and nothing changes, or it is
edited. -/
theorem within_cases (s : Conditional ν) (key : String) :
    Edit.Refuses (within key) s s ∨
      ∃ i x group p m, key ≠ s.case.name ∧ s.selectedIndex? = some i ∧
        s.branches[i]? = some (x, group) ∧ group.parameter? key = some p ∧
        p.isPrimitive = false ∧ p.node = some m ∧
        Edit.Reaches (within key) s m
          fun m => s.setGroup i (group.insert { p with node := some m }) := by
  cases hplace : s.place key with
  | error e => exact Or.inl ⟨e, fun _ => Edit.zoom_of_view_error hplace⟩
  | ok found =>
    obtain ⟨i, group⟩ := found
    obtain ⟨hk, hi, x, hb, -⟩ := place_eq_ok.1 hplace
    rcases Collection.within_cases group key with hrefuses | ⟨p, m, hp, hprim, hn, hreaches⟩
    · have hsame := hrefuses.through (within_of_place hplace)
      rw [setGroup_of_getElem? hb] at hsame
      exact Or.inl hsame
    · exact Or.inr ⟨i, x, group, p, m, hk, hi, hb, hp, hprim, hn,
        hreaches.through (within_of_place hplace)⟩

end Conditional

end SpecTree
