import SpecTree.Proofs.Sound.Fit

/-!
# What writes to slots and collections keep

A write keeps parts fit, and it keeps what is shown: `Keeps` compares what is shown under a key
before and after. It is stated for properties that hold only of slots with something in them and
that do not depend on which value a slot for values has (`Persistent`).
-/

namespace SpecTree

variable {ν : Type} {S : ν → Prop}

/-! ## Fit slots -/

namespace Parameter

variable {Q : Parameter ν → Prop} {p q : Parameter ν} {v w : Value}

/-- What is shown afterwards was shown before, and still has the property. -/
structure Keeps (Q : Parameter ν → Prop) (before after : Option (Parameter ν)) : Prop where
  hidden : before = none → after = none
  shown : (∃ p ∈ before, Q p) → ∃ p ∈ after, Q p

theorem Keeps.refl (Q : Parameter ν → Prop) (a : Option (Parameter ν)) : Keeps Q a a :=
  ⟨id, id⟩

/-- Only a primitive type takes a value. -/
theorem isPrimitive_of_check (h : p.check v = .ok w) : p.isPrimitive = true := by
  obtain ⟨t, ht, -⟩ := check_eq_ok.1 h
  exact isPrimitive_iff.2 ⟨t, ht⟩

/-- A slot fits with a value that it has taken. -/
theorem Fit.set (h : p.Fit S) (hw : p.check v = .ok w) : Fit S { p with value := some w } where
  node_none := h.node_none
  node_some := h.node_some
  typed := by
    intro u hu
    rcases hu with hu | hu
    · obtain ⟨t, ht, hcoerce⟩ := check_eq_ok.1 hw
      cases hu
      rw [Value.type_of_coerce hcoerce]
      exact ht
    · exact h.typed u (Or.inr hu)
  optional := h.optional

/-- A slot for a sub-spec fits with any sub-spec that does. -/
theorem Fit.setNode (h : p.Fit S) (hprim : p.isPrimitive = false) {m : ν} (hm : S m) :
    Fit S { p with node := some m } where
  node_none h' := by
    have hfalse : p.isPrimitive = true := h'
    rw [hprim] at hfalse
    cases hfalse
  node_some _ := ⟨m, rfl, hm⟩
  typed := h.typed
  optional := h.optional

/-- The sub-spec in a slot that fits does so too. -/
theorem Fit.sub (h : p.Fit S) (hprim : p.isPrimitive = false) {m : ν} (hm : p.node = some m) :
    S m := by
  obtain ⟨m', hm', hS⟩ := h.node_some hprim
  rw [hm] at hm'
  cases hm'
  exact hS

/-- Only a slot for a sub-spec holds one. -/
theorem Fit.isPrimitive_of_node (h : p.Fit S) {m : ν} (hm : p.node = some m) :
    p.isPrimitive = false := by
  cases hprim : p.isPrimitive with
  | false => rfl
  | true =>
    rw [h.node_none hprim] at hm
    cases hm

/-- An empty slot for a value. -/
theorem fit_primitive (name : String) (t : Primitive) : Fit S (primitive name t) where
  node_none _ := rfl
  node_some h := by cases h
  typed := by
    rintro v (hv | hv) <;> cases hv
  optional h := by cases h

/-- A slot with a sub-spec in it. -/
theorem fit_derived (name spec : String) {m : ν} (hm : S m) : Fit S (derived name spec m) where
  node_none h := by cases h
  node_some _ := ⟨m, rfl, hm⟩
  typed := by
    rintro v (hv | hv) <;> cases hv
  optional h := by cases h

/-! ## Properties that writes keep -/

section Persistent

variable [Judged ν]

/-- A slot for values holds one exactly if there is one in it. -/
theorem hasValue_of_isPrimitive (h : p.isPrimitive = true) : p.hasValue = p.value.isSome := by
  obtain ⟨t, ht⟩ := isPrimitive_iff.1 h
  unfold hasValue
  rw [ht]

/-- A slot for a sub-spec holds a value exactly if the sub-spec does. -/
theorem hasValue_of_node (h : p.isPrimitive = false) {m : ν} (hm : p.node = some m) :
    p.hasValue = Judged.hasValue m := by
  obtain ⟨s, hs⟩ := isPrimitive_eq_false_iff.1 h
  unfold hasValue
  rw [hs, hm]
  rfl

/-- A slot that has taken a value holds one. -/
theorem hasValue_of_check (h : p.check v = .ok w) :
    ({ p with value := some w } : Parameter ν).hasValue = true := by
  have hprim : ({ p with value := some w } : Parameter ν).isPrimitive = true :=
    isPrimitive_of_check h
  rw [hasValue_of_isPrimitive hprim]
  rfl

/-- A property of slots that hold something, and for slots for values no more than that. -/
structure Persistent (S : ν → Prop) (Q : Parameter ν → Prop) : Prop where
  valued : ∀ p, p.Fit S → Q p → p.hasValue = true
  primitive : ∀ p q, p.Fit S → Q p → p.isPrimitive = true → q.isPrimitive = true →
    q.hasValue = true → Q q

/-- To hold a value is a property that writes keep. -/
theorem persistent_hasValue : Persistent S fun p : Parameter ν => p.hasValue = true :=
  ⟨fun _ _ h => h, fun _ _ _ _ _ _ h => h⟩

theorem Persistent.set (hQ : Persistent S Q) (hp : p.Fit S) (h : p.check v = .ok w) (hQp : Q p) :
    Q { p with value := some w } :=
  hQ.primitive p _ hp hQp (isPrimitive_of_check h) (isPrimitive_of_check h) (hasValue_of_check h)

end Persistent

end Parameter

/-! ## Collections -/

namespace Collection

variable {c c' : Collection ν} {key : String} {p q : Parameter ν} {v : Value}
  {Q : Parameter ν → Prop}

theorem fit_ofList {ps : List (Parameter ν)} (h : ∀ p ∈ ps, p.Fit S) : (ofList ps).Fit S :=
  ⟨Parameter.distinct_putAll ps, fun p hp => h p (Parameter.mem_putAll hp)⟩

/-- A slot that fits may be put in. -/
theorem Fit.insert (h : c.Fit S) (hq : q.Fit S) : (c.insert q).Fit S where
  distinct := Parameter.distinct_put h.distinct
  parameters r hr := by
    rcases Parameter.mem_put hr with rfl | hr
    · exact hq
    · exact h.parameters r hr

theorem Fit.parameter? (h : c.Fit S) (hp : c.parameter? key = some p) : p.Fit S :=
  h.parameters p (Parameter.mem_of_find? hp)

/-- A parameter that takes the place of another keeps what the other had. -/
theorem keeps_insert (hp : c.parameter? key = some p) (hname : q.name = key) (k : String)
    (hQ : Q p → Q q) : Parameter.Keeps Q (c.parameter? k) ((c.insert q).parameter? k) := by
  rw [parameter?_insert]
  by_cases hk : q.name = k
  · rw [if_pos hk, ← hk, hname, hp]
    constructor
    · intro h
      cases h
    · rintro ⟨r, hr, hQr⟩
      cases Option.mem_def.1 hr
      exact ⟨q, rfl, hQ hQr⟩
  · rw [if_neg hk]
    exact .refl Q _

/-- A write leaves a collection fit. -/
theorem Fit.set (h : c.Fit S) (hset : c.set key v = .ok c') : c'.Fit S := by
  cases hp : c.parameter? key with
  | some p =>
    obtain ⟨w, hw, rfl⟩ := (set_eq_ok hp).1 hset
    exact h.insert ((h.parameter? hp).set hw)
  | none =>
    unfold Collection.set at hset
    rw [hp] at hset
    simp only at hset
    split at hset
    · cases hset
    · obtain ⟨p, hadded, rfl⟩ := map_eq_ok.1 hset
      obtain ⟨w, hw, rfl⟩ := Parameter.set_eq_ok.1 hadded
      exact h.insert ((Parameter.fit_primitive key v.type).set hw)

variable [Judged ν]

/-- A write keeps every property of that kind, under all keys. -/
theorem keeps_set (h : c.Fit S) (hQ : Parameter.Persistent S Q) (hkey : c.contains key = true)
    (hset : c.set key v = .ok c') (k : String) :
    Parameter.Keeps Q (c.parameter? k) (c'.parameter? k) := by
  obtain ⟨p, hp⟩ := contains_iff.1 hkey
  obtain ⟨w, hw, rfl⟩ := (set_eq_ok hp).1 hset
  have hname : p.name = key := name_of_parameter? hp
  refine keeps_insert hp ?_ k ?_
  · exact hname
  · exact hQ.set (h.parameter? hp) hw

/-- A collection holds a value if and only if it shows one. -/
theorem hasValue_iff (h : c.Fit S) :
    c.hasValue = true ↔ ∃ k, ∃ p ∈ c.parameter? k, p.hasValue = true := by
  unfold hasValue
  rw [List.any_eq_true]
  constructor
  · rintro ⟨p, hp, hv⟩
    exact ⟨p.name, p, Parameter.find?_of_mem h.distinct hp, hv⟩
  · rintro ⟨k, p, hp, hv⟩
    exact ⟨p, Parameter.mem_of_find? hp, hv⟩

end Collection

end SpecTree
