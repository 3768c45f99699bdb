import SpecTree.Proofs.Listing
import SpecTree.Proofs.Sound.Node

/-!
# The first parameter of a spec

A spec that begins with a collection keeps the first parameter of it, whatever is written to other
keys, put in or merged, and what is first there comes first among the parameters that hold a value.
Main statements: `Spec.headedBy_of_set`, `Spec.headedBy_within`, what becomes of the first
parameter.
-/

namespace SpecTree

variable {ν : Type} {p q : Parameter ν} {key : String} {value : Value}

/-! ## Collections -/

theorem Parameter.head?_put {ps : List (Parameter ν)} (h : ps.head? = some p) :
    (put q ps).head? = some (if p.name = q.name then q else p) := by
  cases ps with
  | nil => cases h
  | cons r ps =>
    cases h
    unfold put
    split <;> rfl

/-- What is shown under the first name is the first parameter. -/
theorem Collection.parameter?_of_head? {c : Collection ν} (h : c.parameters.head? = some p) :
    c.parameter? p.name = some p := by
  obtain ⟨ps, hps⟩ := List.head?_eq_some_iff.1 h
  rw [Collection.parameter?, hps, Parameter.find?_cons, if_pos rfl]

/-- The first parameter of a collection is changed only by a write to its key. -/
theorem Collection.head?_of_set {c c' : Collection ν} (h : c.parameters.head? = some p)
    (hset : c.set key value = .ok c') :
    (key ≠ p.name ∧ c'.parameters.head? = some p) ∨
      (key = p.name ∧ ∃ w, p.check value = .ok w ∧
        c'.parameters.head? = some { p with value := some w }) := by
  by_cases hkey : key = p.name
  · subst hkey
    obtain ⟨w, hw, rfl⟩ := (set_eq_ok (parameter?_of_head? h)).1 hset
    have hhead := Parameter.head?_put (q := { p with value := some w }) h
    rw [if_pos rfl] at hhead
    exact .inr ⟨rfl, w, hw, hhead⟩
  · -- another parameter is written or added, and the first stays in its place:
    obtain ⟨r, hr, rfl⟩ : ∃ r : Parameter ν, r.name = key ∧ c' = c.insert r := by
      unfold Collection.set at hset
      split at hset
      · next r hr =>
        obtain ⟨r', hr', rfl⟩ := map_eq_ok.1 hset
        obtain ⟨w, -, rfl⟩ := Parameter.set_eq_ok.1 hr'
        have hname : r.name = key := Collection.name_of_parameter? hr
        exact ⟨{ r with value := some w }, hname, rfl⟩
      · split at hset
        · cases hset
        · obtain ⟨r', hr', rfl⟩ := map_eq_ok.1 hset
          obtain ⟨w, -, rfl⟩ := Parameter.set_eq_ok.1 hr'
          exact ⟨_, rfl, rfl⟩
    have hhead := Parameter.head?_put (q := r) h
    rw [if_neg fun hname => hkey (hr.symm.trans hname.symm)] at hhead
    exact .inl ⟨hkey, hhead⟩

/-! ## Specs -/

namespace Spec

/-- Does the spec begin with the parameter? -/
def HeadedBy (s : Spec ν) (p : Parameter ν) : Prop :=
  ∃ c components, s.components = .collection c :: components ∧ c.parameters.head? = some p

variable {s s' : Spec ν}

theorem HeadedBy.contains (h : s.HeadedBy p) : s.contains p.name = true := by
  obtain ⟨c, components, hs, hp⟩ := h
  refine List.any_eq_true.2 ⟨.collection c, ?_, ?_⟩
  · rw [hs]
    exact List.mem_cons_self
  · exact Collection.contains_iff.2 ⟨p, Collection.parameter?_of_head? hp⟩

theorem HeadedBy.push (h : s.HeadedBy p) (d : Component ν) : (s.push d).HeadedBy p := by
  obtain ⟨c, components, hs, hp⟩ := h
  exact ⟨c, components ++ [d], congrArg (· ++ [d]) hs, hp⟩

theorem HeadedBy.merge (h : s.HeadedBy p) (other : Spec ν) : (s.merge other).HeadedBy p := by
  obtain ⟨c, components, hs, hp⟩ := h
  exact ⟨c, components ++ other.components, congrArg (· ++ other.components) hs, hp⟩

/-- What is put in comes behind the first parameter, or takes the place of one of its name. -/
theorem HeadedBy.insertFixed (h : s.HeadedBy p) (hname : q.name ≠ p.name) :
    (s.insertFixed q).HeadedBy p := by
  obtain ⟨c, components, hs, hp⟩ := h
  refine ⟨c.insert q, components, ?_, ?_⟩
  · show insertFirst q s.components = _
    rw [hs]
    rfl
  · show (Parameter.put q c.parameters).head? = some p
    rw [Parameter.head?_put hp, if_neg hname.symm]

variable [Judged ν]

/-- The first parameter is listed first among those with a value, if it has one. -/
theorem HeadedBy.head?_valued (h : s.HeadedBy p) (hvalue : p.hasValue = true) :
    s.valued.head? = some p := by
  obtain ⟨c, components, hs, hp⟩ := h
  obtain ⟨ps, hps⟩ := List.head?_eq_some_iff.1 hp
  rw [valued_eq, listed, Parameter.head?_distinct, hs, List.flatMap_cons, Component.listed, hps,
    List.filter_cons_of_pos hvalue]
  rfl

/-- **The first parameter is changed only by a write to its key.** -/
theorem headedBy_of_set (h : s.HeadedBy p) (hset : Spec.set key value s = .ok () s') :
    (key ≠ p.name ∧ s'.HeadedBy p) ∨
      (key = p.name ∧ ∃ w, p.check value = .ok w ∧ s'.HeadedBy { p with value := some w }) := by
  rcases set_cases s key value with ⟨e, he⟩ | ⟨hnone, q, hq, hadded⟩ | ⟨-, haccepted, hedited⟩
  · rw [he] at hset
    cases hset
  · -- a key that was not declared is not the first one
    rw [hadded] at hset
    cases hset
    have hkey : key ≠ p.name := by
      rintro rfl
      rw [h.contains] at hnone
      cases hnone
    obtain ⟨w, -, rfl⟩ := Parameter.set_eq_ok.1 hq
    exact .inl ⟨hkey, h.insertFixed hkey⟩
  · rw [hedited] at hset
    cases hset
    obtain ⟨c, components, hs, hp⟩ := h
    have hmem : Component.collection c ∈ s.components := by
      rw [hs]
      exact List.mem_cons_self
    -- the first component may or may not declare the key:
    cases hcontains : c.contains key with
    | false =>
      have hkey : key ≠ p.name := by
        rintro rfl
        rw [Collection.contains_iff.2 ⟨p, Collection.parameter?_of_head? hp⟩] at hcontains
        cases hcontains
      refine .inl ⟨hkey, c, components.map fun d =>
        if d.contains key then (Component.set key value).stateAfter d else d, ?_, hp⟩
      have hfirst : ¬(Component.collection c).contains key = true := fun h => by
        rw [show (Component.collection c).contains key = c.contains key from rfl, hcontains] at h
        cases h
      show s.components.map _ = _
      rw [hs, List.map_cons, if_neg hfirst]
    | true =>
      have hfirst : (Component.collection c).contains key = true := hcontains
      obtain ⟨c', hc'⟩ := Component.set_of_checkSet_eq_ok hfirst (haccepted _ hmem hfirst)
      have hafter := Edit.stateAfter_of_ok hc'
      cases Component.written_of_set hc' with
      | @collection _ d hd =>
        have hcomponents : ∀ t : Spec ν, t = s.edited key (Component.set key value).stateAfter →
            ∃ rest, t.components = .collection d :: rest := by
          rintro t rfl
          refine ⟨components.map fun d =>
            if d.contains key then (Component.set key value).stateAfter d else d, ?_⟩
          show s.components.map _ = _
          rw [hs, List.map_cons, if_pos hfirst, hafter]
        obtain ⟨rest, hrest⟩ := hcomponents _ rfl
        rcases Collection.head?_of_set hp hd with ⟨hkey, hhead⟩ | ⟨hkey, w, hw, hhead⟩
        · exact .inl ⟨hkey, d, rest, hrest, hhead⟩
        · exact .inr ⟨hkey, w, hw, d, rest, hrest, hhead⟩

/-- **The first parameter, if it is for a value, is not changed by edits of sub-specs.** -/
theorem headedBy_within {α : Type} (act : Edit ν α) (h : s.HeadedBy p)
    (hprimitive : p.isPrimitive = true) : ((Spec.within key act).stateAfter s).HeadedBy p := by
  rcases within_cases s key with ⟨e, he⟩ | ⟨pre, c, post, hsplit, -, -, -, hwithin⟩
  · rw [Edit.stateAfter_of_error (he act)]
    exact h
  · rw [Edit.stateAfter_of_through (hwithin act)]
    obtain ⟨d, components, hs, hp⟩ := h
    rw [hs] at hsplit
    -- the component that hands out is behind the first one, or is the first one:
    cases pre with
    | cons first pre =>
      obtain ⟨rfl, -⟩ := List.cons.inj hsplit
      exact ⟨d, _, rfl, hp⟩
    | nil =>
      obtain ⟨rfl, -⟩ := List.cons.inj hsplit
      refine ⟨(Collection.within key act).stateAfter d, post.map fun d =>
        if d.contains key then (Component.select key).stateAfter d else d, ?_, ?_⟩
      · rw [Edit.stateAfter_of_through (Component.within_collection key act d)]
        rfl
      · rcases Collection.within_cases d key with ⟨e, he⟩ | ⟨r, m, hr, hderived, -, hreaches⟩
        · rw [Edit.stateAfter_of_error (he act)]
          exact hp
        · rw [Edit.stateAfter_of_through (hreaches act)]
          -- the parameter in front is primitive, so it is not the one with the sub-spec:
          have hname : r.name ≠ p.name := by
            intro hname
            rw [← Collection.name_of_parameter? hr, hname, Collection.parameter?_of_head? hp] at hr
            cases hr
            rw [hprimitive] at hderived
            cases hderived
          have hhead := Parameter.head?_put (q := { r with node := some (act.stateAfter m) }) hp
          rwa [if_neg hname.symm] at hhead

end Spec

end SpecTree
