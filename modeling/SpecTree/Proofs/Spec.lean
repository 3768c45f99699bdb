import SpecTree.Proofs.Component
import SpecTree.Tree.Spec

/-!
# Writing to specs

A key is written in all components that declare it, or in none. As equations:

* `set_cases`: a write is refused and changes nothing, or adds a key, or sets the key in every
  component that declares it;
* `within_cases`: an edit of a sub-spec is refused and changes nothing, or goes to the first
  component that declares the key, and narrows those behind it.

Both walk over the components once to ask and once to write; `each_targets` says that the
second walk does not fail. A fact about single components that is kept by what is done to one is
kept by what is done to all of them (`forall_set`, `forall_within`).
-/

namespace SpecTree

namespace Spec

variable {ν α : Type} {s : Spec ν} {key : String}

/-! ## Places of a key -/

theorem mem_targets {i : Nat} :
    i ∈ s.targets key ↔ ∃ c, s.components[i]? = some c ∧ c.contains key := by
  unfold targets
  rw [List.mem_filter, List.mem_range]
  constructor
  · rintro ⟨hi, hany⟩
    rw [List.getElem?_eq_getElem hi] at hany ⊢
    exact ⟨_, rfl, hany⟩
  · rintro ⟨c, hc, hcontains⟩
    refine ⟨(List.getElem?_eq_some_iff.1 hc).1, ?_⟩
    rw [hc]
    exact hcontains

theorem nodup_targets (s : Spec ν) (key : String) : (s.targets key).Nodup :=
  List.nodup_range.filter _

theorem targets_eq_nil_iff : s.targets key = [] ↔ s.contains key = false := by
  rw [List.eq_nil_iff_forall_not_mem, contains, List.any_eq_false]
  constructor
  · intro h c hc hcontains
    obtain ⟨i, hi⟩ := List.mem_iff_getElem?.1 hc
    exact h i (mem_targets.2 ⟨c, hi, hcontains⟩)
  · intro h i hi
    obtain ⟨c, hc, hcontains⟩ := mem_targets.1 hi
    exact h c (List.mem_of_getElem? hc) hcontains

/-- A test of the places of a key is a test of the components that declare it. -/
theorem checkTargets_eq_ok {test : Component ν → Except TreeError Unit} :
    checkTargets test (s.targets key) s = .ok () ↔
      ∀ c ∈ s.components, c.contains key → test c = .ok () := by
  unfold checkTargets
  rw [forM_eq_ok]
  constructor
  · intro h c hc hcontains
    obtain ⟨i, hi⟩ := List.mem_iff_getElem?.1 hc
    have htest := h i (mem_targets.2 ⟨c, hi, hcontains⟩)
    rwa [hi] at htest
  · intro h i hi
    obtain ⟨c, hc, hcontains⟩ := mem_targets.1 hi
    rw [hc]
    exact h c (List.mem_of_getElem? hc) hcontains

/-! ## Components edited one after the other -/

theorem inComponent_of_getElem? {i : Nat} {c : Component ν} (h : s.components[i]? = some c)
    (act : Edit (Component ν) α) :
    inComponent key i act s
      = Edit.through (fun c => { s with components := s.components.set i c }) act c := by
  apply Edit.zoom_of_view
  rw [h]

/-- If every edit succeeds, each place is changed once. -/
theorem each_inComponent {act : Edit (Component ν) Unit} {is : List Nat} (hnodup : is.Nodup)
    (h : ∀ i ∈ is, ∃ c c', s.components[i]? = some c ∧ act c = .ok () c') :
    Edit.each (fun i => inComponent key i act) is s
      = .ok () { s with
          components := is.foldl (fun cs i => cs.modify i act.stateAfter) s.components } := by
  induction is generalizing s with
  | nil => rfl
  | cons i is ih =>
    obtain ⟨hi, his⟩ := List.nodup_cons.1 hnodup
    obtain ⟨c, c', hc, hact⟩ := h i List.mem_cons_self
    have hone : inComponent key i act s
        = .ok () { s with components := s.components.modify i act.stateAfter } := by
      rw [inComponent_of_getElem? hc, ← set_eq_modify hc, Edit.stateAfter_of_ok hact]
      exact Edit.through_eq_ok.2 ⟨c', hact, rfl⟩
    refine Edit.bind_eq_ok.2 ⟨(), _, hone, ?_⟩
    rw [ih his]
    · rfl
    · intro j hj
      have hij : i ≠ j := fun he => hi (he ▸ hj)
      obtain ⟨d, d', hd, hact'⟩ := h j (List.mem_cons_of_mem _ hj)
      exact ⟨d, d', (List.getElem?_modify_ne _ _ hij).trans hd, hact'⟩

/-- The spec with every component changed that declares a key. -/
def edited (s : Spec ν) (key : String) (f : Component ν → Component ν) : Spec ν :=
  { s with components := s.components.map fun c => if c.contains key then f c else c }

/-- An edit that succeeds in every component that declares a key succeeds in all of them
together. -/
theorem each_targets {act : Edit (Component ν) Unit}
    (h : ∀ c ∈ s.components, c.contains key → ∃ c', act c = .ok () c') :
    Edit.each (fun i => inComponent key i act) (s.targets key) s
      = .ok () (s.edited key act.stateAfter) := by
  rw [each_inComponent (nodup_targets s key)]
  · -- every place of the key is changed, and no other:
    congr 1
    unfold edited
    congr 1
    apply List.ext_getElem?
    intro i
    rw [getElem?_foldl_modify (Or.inl (nodup_targets s key)), List.getElem?_map]
    cases hc : s.components[i]? with
    | none => simp
    | some c =>
      by_cases hcontains : c.contains key
      · rw [if_pos (mem_targets.2 ⟨c, hc, hcontains⟩), Option.map_some, Option.map_some,
          if_pos hcontains]
      · rw [if_neg, Option.map_some, if_neg hcontains]
        intro hmem
        obtain ⟨d, hd, hdc⟩ := mem_targets.1 hmem
        rw [hc] at hd
        cases hd
        exact hcontains hdc
  · intro i hi
    obtain ⟨c, hc, hcontains⟩ := mem_targets.1 hi
    obtain ⟨c', hact⟩ := h c (List.mem_of_getElem? hc) hcontains
    exact ⟨c, c', hc, hact⟩

/-! ## The first component that declares a key -/

variable {pre post : List (Component ν)} {c : Component ν}

/-- The first component that declares a key. -/
theorem exists_first (h : s.contains key = true) :
    ∃ pre c post, s.components = pre ++ c :: post ∧ (∀ d ∈ pre, d.contains key = false) ∧
      c.contains key = true := by
  obtain ⟨d, hd, hcontains⟩ := List.any_eq_true.1 h
  cases hfind : s.components.find? (·.contains key) with
  | none => exact absurd hcontains (List.find?_eq_none.1 hfind d hd)
  | some c =>
    obtain ⟨hc, pre, post, happend, hpre⟩ := List.find?_eq_some_iff_append.1 hfind
    exact ⟨pre, c, post, happend, fun d hd => by simpa using hpre d hd, hc⟩

/-- The places of a key begin with that of the first component that declares it. -/
theorem targets_of_first (h : s.components = pre ++ c :: post)
    (hpre : ∀ d ∈ pre, d.contains key = false) (hc : c.contains key = true) :
    ∃ rest, s.targets key = pre.length :: rest := by
  have hlen : s.components.length = pre.length + (post.length + 1) := by
    rw [h, List.length_append, List.length_cons]
  -- no place in front of the component declares the key:
  have hnone : (List.range pre.length).filter
      (fun i => s.components[i]?.any (·.contains key)) = [] := by
    apply List.filter_eq_nil_iff.2
    intro i hi
    have hlt := List.mem_range.1 hi
    rw [h, List.getElem?_append_left hlt, List.getElem?_eq_getElem hlt, Option.any_some,
      hpre _ (List.getElem_mem hlt)]
    exact Bool.false_ne_true
  unfold targets
  rw [hlen, List.range_add, List.filter_append, hnone, List.nil_append, List.range_succ_eq_map,
    List.map_cons, List.filter_cons_of_pos]
  · exact ⟨_, rfl⟩
  · rw [h, Nat.add_zero, List.getElem?_append_right (Nat.le_refl _), Nat.sub_self]
    exact hc

/-- Narrowing behind the first component that declares a key. -/
theorem foldl_modify_rest (h : s.components = pre ++ c :: post)
    (hpre : ∀ d ∈ pre, d.contains key = false) {rest : List Nat}
    (hrest : s.targets key = pre.length :: rest) (f : Component ν → Component ν) :
    rest.foldl (fun cs i => cs.modify i f) s.components
      = pre ++ c :: post.map fun d => if d.contains key then f d else d := by
  have hnodup : (pre.length :: rest).Nodup := hrest ▸ nodup_targets s key
  obtain ⟨hnot, hnodup⟩ := List.nodup_cons.1 hnodup
  have hmem : ∀ i, i ∈ rest ↔ i ≠ pre.length ∧ ∃ d, s.components[i]? = some d ∧ d.contains key := by
    intro i
    rw [← mem_targets, hrest, List.mem_cons]
    constructor
    · exact fun hi => ⟨fun he => hnot (he ▸ hi), Or.inr hi⟩
    · exact fun hi => hi.2.resolve_left hi.1
  apply List.ext_getElem?
  intro i
  rw [getElem?_foldl_modify (Or.inl hnodup)]
  rcases Nat.lt_trichotomy i pre.length with hi | hi | hi
  · -- in front of the first component the key is not declared
    have hd : s.components[i]? = some pre[i] := by
      rw [h, List.getElem?_append_left hi, List.getElem?_eq_getElem hi]
    rw [if_neg, hd, List.getElem?_append_left hi, List.getElem?_eq_getElem hi]
    intro hmem'
    obtain ⟨-, d, hd', hcontains⟩ := (hmem i).1 hmem'
    rw [hd] at hd'
    cases hd'
    rw [hpre _ (List.getElem_mem hi)] at hcontains
    cases hcontains
  · -- the first component itself is not narrowed
    subst hi
    rw [if_neg hnot, h, List.getElem?_append_right (Nat.le_refl _),
      List.getElem?_append_right (Nat.le_refl _), Nat.sub_self]
    rfl
  · -- behind it, those are narrowed that declare the key
    obtain ⟨j, rfl⟩ := Nat.exists_eq_add_of_lt hi
    have hshift : pre.length + j + 1 - pre.length = j + 1 := by omega
    have hd : s.components[pre.length + j + 1]? = post[j]? := by
      rw [h, List.getElem?_append_right (Nat.le_of_lt hi), hshift, List.getElem?_cons_succ]
    rw [List.getElem?_append_right (Nat.le_of_lt hi), hshift, List.getElem?_cons_succ,
      List.getElem?_map, hd]
    cases hpost : post[j]? with
    | none => simp
    | some d =>
      by_cases hcontains : d.contains key
      · rw [if_pos ((hmem _).2 ⟨by omega, d, hd.trans hpost, hcontains⟩), Option.map_some,
          Option.map_some, if_pos hcontains]
      · rw [if_neg, Option.map_some, if_neg hcontains]
        intro hmem'
        obtain ⟨-, d', hd', hcontains'⟩ := (hmem _).1 hmem'
        rw [hd, hpost] at hd'
        cases hd'
        exact hcontains hcontains'

/-! ## Setting a key -/

variable [Judged ν]

/-- Setting a key that is declared: all components are asked first, and then written. -/
theorem set_of_contains (h : s.contains key = true) (value : Value) :
    set key value s
      = (Edit.inspect (checkTargets (Component.checkSet key value) (s.targets key)) >>= fun _ =>
          Edit.each (fun i => inComponent key i (Component.set key value)) (s.targets key)) s := by
  have hne : s.targets key ≠ [] := fun hnil => by
    rw [targets_eq_nil_iff, h] at hnil
    cases hnil
  unfold set
  simp only [Edit.forIn_eq_each, bind_pure_unit]
  show (if s.targets key = [] then _ else _ : Edit (Spec ν) Unit) s = _
  rw [if_neg hne]

theorem set_of_not_contains (h : s.contains key = false) (value : Value) :
    set key value s
      = Edit.replace (fun s =>
          if s.unknown = .error then .error (.unknownKey key s.name)
          else ((Parameter.primitive key value.type).set value).map s.insertFixed) s := by
  unfold set
  show (if s.targets key = [] then _ else _ : Edit (Spec ν) Unit) s = _
  rw [if_pos (targets_eq_nil_iff.2 h)]

/-- A write is refused and changes nothing, or adds a key that was not declared, or sets the key
in every component that declares it. -/
theorem set_cases (s : Spec ν) (key : String) (value : Value) :
    (∃ e, set key value s = .error e s) ∨
      (s.contains key = false ∧ ∃ p, (Parameter.primitive key value.type).set value = .ok p ∧
        set key value s = .ok () (s.insertFixed p)) ∨
      (s.contains key = true ∧
        (∀ c ∈ s.components, c.contains key → c.checkSet key value = .ok ()) ∧
        set key value s = .ok () (s.edited key (Component.set key value).stateAfter)) := by
  cases hkey : s.contains key with
  | false =>
    rw [set_of_not_contains hkey]
    by_cases hunknown : s.unknown = .error
    · refine Or.inl ⟨.unknownKey key s.name, ?_⟩
      simp only [Edit.replace, if_pos hunknown]
    · cases hp : (Parameter.primitive key value.type : Parameter ν).set value with
      | error e =>
        refine Or.inl ⟨e, ?_⟩
        simp only [Edit.replace, if_neg hunknown, Except.map]
      | ok p =>
        refine Or.inr (Or.inl ⟨rfl, p, rfl, Edit.replace_eq_ok.2 ?_⟩)
        simp only [if_neg hunknown, Except.map]
  | true =>
    rw [set_of_contains hkey]
    cases hcheck : checkTargets (Component.checkSet key value) (s.targets key) s with
    | error e => exact Or.inl ⟨e, Edit.inspect_bind_of_error hcheck _⟩
    | ok u =>
      rw [Edit.inspect_bind_of_ok hcheck]
      -- all components that declare the key were asked before the first was written:
      have haccepted := checkTargets_eq_ok.1 hcheck
      refine Or.inr (Or.inr ⟨rfl, haccepted, each_targets ?_⟩)
      intro c hc hcontains
      exact Component.set_of_checkSet_eq_ok hcontains (haccepted c hc hcontains)

/-! ## Editing a sub-spec -/

theorem within_of_not_contains (h : s.contains key = false) (act : Edit ν α) :
    within key act s = .error (.unknownKey key s.name) s := by
  unfold within
  rw [Edit.get_bind, targets_eq_nil_iff.2 h]
  rfl

theorem within_of_checkAccess_error (h : s.contains key = true) {e : TreeError}
    (hcheck : checkTargets (Component.checkAccess key) (s.targets key) s = .error e)
    (act : Edit ν α) : within key act s = .error e s := by
  unfold within
  rw [Edit.get_bind]
  cases htargets : s.targets key with
  | nil =>
    rw [targets_eq_nil_iff, h] at htargets
    cases htargets
  | cons first rest =>
    rw [htargets] at hcheck
    exact Edit.inspect_bind_of_error hcheck _

/-- A sub-spec is edited in the first component that declares its key, after those behind it
were narrowed. -/
theorem within_of_first (h : s.components = pre ++ c :: post)
    (hpre : ∀ d ∈ pre, d.contains key = false) (hc : c.contains key = true)
    (haccess : ∀ d ∈ s.components, d.contains key → d.checkAccess key = .ok ())
    (act : Edit ν α) :
    within key act s
      = Edit.through
          (fun c' => { s with
            components := pre ++ c' :: post.map fun d =>
              if d.contains key then (Component.select key).stateAfter d else d })
          (Component.within key act) c := by
  obtain ⟨rest, hrest⟩ := targets_of_first h hpre hc
  -- none of the components behind it refuses to be narrowed, as all were asked:
  have hselect : Edit.each (fun i => inComponent key i (Component.select key)) rest s
      = .ok () { s with
          components := pre ++ c :: post.map fun d =>
            if d.contains key then (Component.select key).stateAfter d else d } := by
    rw [← foldl_modify_rest h hpre hrest]
    apply each_inComponent
    · have hnodup := nodup_targets s key
      rw [hrest] at hnodup
      exact (List.nodup_cons.1 hnodup).2
    · intro i hi
      have hmem : i ∈ s.targets key := by rw [hrest]; exact List.mem_cons_of_mem _ hi
      obtain ⟨d, hd, hcontains⟩ := mem_targets.1 hmem
      obtain ⟨d', hd'⟩ := Component.select_of_checkAccess_eq_ok
        (haccess d (List.mem_of_getElem? hd) hcontains)
      exact ⟨d, d', hd, hd'⟩
  have hcheck := checkTargets_eq_ok.2 haccess
  rw [hrest] at hcheck
  -- ask, narrow, edit:
  unfold within
  simp only [Edit.forIn_eq_each]
  rw [Edit.get_bind, hrest]
  refine (Edit.inspect_bind_of_ok hcheck _).trans ?_
  show EStateM.bind _ _ s = _
  simp only [EStateM.bind, hselect]
  have hfirst : (pre ++ c :: post.map fun d =>
      if d.contains key then (Component.select key).stateAfter d else d)[pre.length]? = some c := by
    rw [List.getElem?_append_right (Nat.le_refl _), Nat.sub_self]
    rfl
  rw [inComponent_of_getElem? hfirst]
  simp only [List.set_append_right _ _ (Nat.le_refl _), Nat.sub_self, List.set_cons_zero]

/-- An edit of a sub-spec is refused and changes nothing, or goes to the first component that
declares the key, and narrows those behind it. -/
theorem within_cases (s : Spec ν) (key : String) :
    Edit.Refuses (within key) s s ∨
      ∃ pre c post, s.components = pre ++ c :: post ∧ (∀ d ∈ pre, d.contains key = false) ∧
        c.contains key = true ∧
        (∀ d ∈ s.components, d.contains key → d.checkAccess key = .ok ()) ∧
        ∀ {α : Type} (act : Edit ν α), within key act s
          = Edit.through
              (fun c' => { s with
                components := pre ++ c' :: post.map fun d =>
                  if d.contains key then (Component.select key).stateAfter d else d })
              (Component.within key act) c := by
  cases hkey : s.contains key with
  | false => exact Or.inl ⟨_, fun act => within_of_not_contains hkey act⟩
  | true =>
    obtain ⟨pre, c, post, happend, hpre, hc⟩ := exists_first hkey
    cases hcheck : checkTargets (Component.checkAccess key) (s.targets key) s with
    | error e => exact Or.inl ⟨e, fun act => within_of_checkAccess_error hkey hcheck act⟩
    | ok u =>
      have haccess := checkTargets_eq_ok.1 hcheck
      exact Or.inr ⟨pre, c, post, happend, hpre, hc, haccess,
        fun act => within_of_first happend hpre hc haccess act⟩

/-! ## Facts about all components

Where a fact about single components is kept by what is done to one of them, it is kept by what is
done to a spec. -/

section Forall

variable {Q : Component ν → Prop} {s' : Spec ν} {value : Value}

omit [Judged ν] in
theorem forall_insertFixed {p : Parameter ν}
    (hinsert : ∀ c : Collection ν, Q (.collection c) → Q (.collection (c.insert p)))
    (hnew : Q (.collection (Collection.ofList [p]))) (h : ∀ c ∈ s.components, Q c) :
    ∀ c ∈ (s.insertFixed p).components, Q c := by
  have hlist : ∀ cs : List (Component ν), (∀ c ∈ cs, Q c) → ∀ c ∈ insertFirst p cs, Q c := by
    intro cs hcs
    induction cs with
    | nil => exact List.forall_mem_singleton.2 hnew
    | cons d cs ih =>
      obtain ⟨hd, hrest⟩ := List.forall_mem_cons.1 hcs
      cases d with
      | collection d => exact List.forall_mem_cons.2 ⟨hinsert d hd, hrest⟩
      | oneOf o => exact List.forall_mem_cons.2 ⟨hd, ih hrest⟩
      | conditional d => exact List.forall_mem_cons.2 ⟨hd, ih hrest⟩
  exact hlist s.components h

omit [Judged ν] in
/-- Collections that are left empty are dropped. -/
theorem forall_removeParameter
    (hremove : ∀ c : Collection ν, (c.remove key).isEmpty = false → Q (.collection (c.remove key)))
    (h : ∀ c ∈ s.components, Q c) : ∀ c ∈ (s.removeParameter key).components, Q c := by
  intro c hc
  obtain ⟨d, hd, hdc⟩ := List.mem_filterMap.1 hc
  cases d with
  | oneOf o =>
    cases hdc
    exact h _ hd
  | conditional d =>
    cases hdc
    exact h _ hd
  | collection d =>
    simp only at hdc
    split at hdc
    · cases hdc
    · next hleft =>
      cases hdc
      exact hremove d (Bool.eq_false_iff.2 hleft)

theorem forall_set (hfixed : ∀ p, ∀ c ∈ (s.insertFixed p).components, Q c)
    (hset : ∀ c c', Q c → Component.set key value c = .ok () c' → Q c')
    (h : ∀ c ∈ s.components, Q c) (hok : set key value s = .ok () s') :
    ∀ c ∈ s'.components, Q c := by
  rcases set_cases s key value with ⟨e, he⟩ | ⟨-, p, -, hadded⟩ | ⟨-, haccepted, hedited⟩
  · rw [he] at hok
    cases hok
  · rw [hadded] at hok
    cases hok
    exact hfixed p
  · rw [hedited] at hok
    cases hok
    intro c hc
    obtain ⟨d, hd, rfl⟩ := List.mem_map.1 hc
    split
    · next hcontains =>
      obtain ⟨d', hd'⟩ := Component.set_of_checkSet_eq_ok hcontains (haccepted d hd hcontains)
      rw [Edit.stateAfter_of_ok hd']
      exact hset d d' (h d hd) hd'
    · exact h d hd

theorem forall_within {act : Edit ν α}
    (hwithin : ∀ c ∈ s.components, Q c → Q ((Component.within key act).stateAfter c))
    (hselect : ∀ c c', Q c → Component.select key c = .ok () c' → Q c')
    (h : ∀ c ∈ s.components, Q c) : ∀ c ∈ ((within key act).stateAfter s).components, Q c := by
  rcases within_cases s key with ⟨e, he⟩ | ⟨pre, c, post, happend, -, -, haccess, hreaches⟩
  · rw [Edit.stateAfter_of_error (he act)]
    exact h
  · rw [Edit.stateAfter_of_through (hreaches act)]
    rw [happend] at h hwithin haccess
    obtain ⟨hpre, hrest⟩ := List.forall_mem_append.1 h
    obtain ⟨hc, hpost⟩ := List.forall_mem_cons.1 hrest
    have hmem : ∀ d ∈ c :: post, d ∈ pre ++ c :: post := fun d => List.mem_append_right _
    refine List.forall_mem_append.2 ⟨hpre, List.forall_mem_cons.2 ⟨?_, ?_⟩⟩
    · exact hwithin c (hmem c List.mem_cons_self) hc
    · intro d' hd'
      obtain ⟨d, hd, rfl⟩ := List.mem_map.1 hd'
      split
      · next hcontains =>
        obtain ⟨d', hd'⟩ := Component.select_of_checkAccess_eq_ok
          (haccess d (hmem d (List.mem_cons_of_mem _ hd)) hcontains)
        rw [Edit.stateAfter_of_ok hd']
        exact hselect d d' (hpost d hd) hd'
      · exact hpost d hd

end Forall

end Spec

end SpecTree
