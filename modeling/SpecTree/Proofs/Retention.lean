import SpecTree.Proofs.Operation
import SpecTree.Proofs.Sound.Node

/-!
# What a tree retains

A value at the end of a path is retained by a change of the tree if every sub-spec on the path is
still shown and the value too. `Node.Retains` says so of all paths but those that are lost, and it
composes: along changes made one after the other (`trans`), and from a sub-spec that was handed out
to the tree (`put`). `Setting.Loses` says which path a setting may lose.
-/

namespace SpecTree

/-- A slot for a value, with a value in it. -/
def Parameter.IsSet {ν : Type} (p : Parameter ν) : Prop :=
  p.isPrimitive = true ∧ p.value.isSome = true

/-- A write of a key may lose a path that leads on from the node, if it writes a case parameter
there or puts a variant in place of the next parameter on the path. -/
def Setting.Loses (catalog : Catalog) (s : Setting) (target : List String) : Prop :=
  ∃ k rest, target = s.path ++ k :: rest ∧
    (∃ n, Node.set catalog s.key s.value s.node = .ok () n) ∧
    (s.node.writesCase s.key = true ∨ s.node.coveredKey? catalog s.key s.value = some k)

/-- A write loses a target only by its case or by the variant that it puts in. -/
theorem Setting.not_loses {catalog : Catalog} {s : Setting} {target : List String}
    (hcase : s.node.writesCase s.key = false)
    (hcovered : ∀ k ∈ s.node.coveredKey? catalog s.key s.value, k ∉ target) :
    ¬ s.Loses catalog target := by
  rintro ⟨k, rest, rfl, -, hwrites | hkey⟩
  · rw [hcase] at hwrites
    cases hwrites
  · exact hcovered k hkey (List.mem_append_right _ List.mem_cons_self)

namespace Node

variable {catalog : Catalog} {n n' n'' m m' : Node} {key k : String} {path : List String}

/-- At the end of a path there is a value under a key. -/
def Holds (n : Node) (path : List String) (key : String) : Prop :=
  ∃ m p, n.descend? path = some m ∧ m.parameter? key = some p ∧ p.IsSet

instance (n : Node) (path : List String) (key : String) : Decidable (n.Holds path key) :=
  decidable_of_iff
    (((n.descend? path).bind (·.parameter? key)).any
      (fun p => p.isPrimitive && p.value.isSome) = true) (by
      simp only [Holds, Parameter.IsSet, Option.any_eq_true, Option.bind_eq_some_iff,
        Bool.and_eq_true]
      constructor
      · rintro ⟨p, ⟨m, hm, hp⟩, hset⟩
        exact ⟨m, p, hm, hp, hset⟩
      · rintro ⟨m, p, hm, hp, hset⟩
        exact ⟨p, ⟨m, hm, hp⟩, hset⟩)

/-- A key at the node itself holds something if what is shown under it is set. -/
theorem holds_nil : n.Holds [] key ↔ ∃ p ∈ n.parameter? key, p.IsSet := by
  constructor
  · rintro ⟨m, p, hm, hp, hset⟩
    cases hm
    exact ⟨p, hp, hset⟩
  · rintro ⟨p, hp, hset⟩
    exact ⟨n, p, rfl, hp, hset⟩

/-- A key below holds something if the sub-spec that is shown on the way to it does. -/
theorem holds_cons :
    n.Holds (k :: path) key ↔ ∃ p ∈ n.parameter? k, ∃ m, p.node = some m ∧ m.Holds path key := by
  unfold Holds
  constructor
  · rintro ⟨m, p, hm, hp, hset⟩
    obtain ⟨c, hc, hcm⟩ := Option.bind_eq_some_iff.1 hm
    obtain ⟨q, hq, hqc⟩ := Option.bind_eq_some_iff.1 hc
    exact ⟨q, hq, c, hqc, m, p, hcm, hp, hset⟩
  · rintro ⟨q, hq, c, hqc, m, p, hcm, hp, hset⟩
    refine ⟨m, p, ?_, hp, hset⟩
    show (n.child? k).bind (descend? · path) = some m
    rw [show n.child? k = some c from Option.bind_eq_some_iff.2 ⟨q, hq, hqc⟩]
    exact hcm

/-- A tree that holds something under a key holds a value. -/
theorem hasValue_of_holds (h : n.Sound) (hholds : n.Holds path key) : Judged.hasValue n = true := by
  induction path generalizing n with
  | nil =>
    obtain ⟨p, hp, hprim, hvalue⟩ := holds_nil.1 hholds
    refine hasValue_of_shown h ⟨p, hp, ?_⟩
    rw [Parameter.hasValue_of_isPrimitive hprim]
    exact hvalue
  | cons k path ih =>
    obtain ⟨p, hp, m, hm, hmholds⟩ := holds_cons.1 hholds
    have hfit := fit_of_parameter? h.fit hp
    have hprim : p.isPrimitive = false := hfit.isPrimitive_of_node hm
    refine hasValue_of_shown h ⟨p, hp, ?_⟩
    rw [Parameter.hasValue_of_node hprim hm]
    exact ih (hfit.sub hprim hm) hmholds

/-! ## Values and sub-specs with values are persistent -/

/-- To be set is a property that writes keep. -/
theorem persistent_isSet : Parameter.Persistent Sound Parameter.IsSet where
  valued p _ h := by
    rw [Parameter.hasValue_of_isPrimitive h.1]
    exact h.2
  primitive p q _ _ _ hq hv := by
    rw [Parameter.hasValue_of_isPrimitive hq] at hv
    exact ⟨hq, hv⟩

/-- To hold something below is a property that writes keep. -/
theorem persistent_holds (path : List String) (key : String) :
    Parameter.Persistent Sound fun p => ∃ m, p.node = some m ∧ Holds m path key where
  valued p hfit h := by
    obtain ⟨m, hm, hholds⟩ := h
    have hprim : p.isPrimitive = false := hfit.isPrimitive_of_node hm
    rw [Parameter.hasValue_of_node hprim hm]
    exact hasValue_of_holds (hfit.sub hprim hm) hholds
  primitive p q hfit h hprim := by
    obtain ⟨m, hm, -⟩ := h
    rw [hfit.node_none hprim] at hm
    cases hm

/-! ## What a change retains -/

/-- After a change the tree is sound, it holds a value if it did, and every value is still there at
the end of its path, unless the path is lost. -/
structure Retains (lost : List String → Prop) (n n' : Node) : Prop where
  sound : n'.Sound
  hasValue : Judged.hasValue n = true → Judged.hasValue n' = true
  holds : ∀ path key, ¬ lost (path ++ [key]) → n.Holds path key → n'.Holds path key

variable {lost lost' : List String → Prop}

theorem Retains.refl (h : n.Sound) (lost : List String → Prop) : Retains lost n n :=
  ⟨h, id, fun _ _ _ => id⟩

/-- What two changes lose one after the other is lost by one of them. -/
theorem Retains.trans (h : Retains lost n n') (h' : Retains lost' n' n'') :
    Retains (fun target => lost target ∨ lost' target) n n'' where
  sound := h'.sound
  hasValue := h'.hasValue ∘ h.hasValue
  holds path key hlost hholds :=
    h'.holds path key (fun hl => hlost (Or.inr hl))
      (h.holds path key (fun hl => hlost (Or.inl hl)) hholds)

theorem Retains.imp (h : Retains lost n n') (himp : ∀ target, lost target → lost' target) :
    Retains lost' n n' :=
  ⟨h.sound, h.hasValue, fun path key hlost => h.holds path key fun hl => hlost (himp _ hl)⟩

/-- What is kept of what the node shows is retained with all that is below it. -/
theorem Retains.of_kept {allowed : String → Prop}
    (h : view.Kept Sound (fun _ k => allowed k) n n')
    (hlost : ∀ k rest, ¬ lost (k :: rest) → n.parameter? k ≠ none → allowed k) :
    Retains lost n n' where
  sound := h.fit
  hasValue := h.hasValue
  holds path key hnot hholds := by
    cases path with
    | nil =>
      obtain ⟨p, hp, hset⟩ := holds_nil.1 hholds
      have hallowed := hlost key [] hnot (Option.ne_none_iff_exists'.2 ⟨p, hp⟩)
      exact holds_nil.2 ((h.keeps _ persistent_isSet key hallowed).shown ⟨p, hp, hset⟩)
    | cons k path =>
      obtain ⟨p, hp, hbelow⟩ := holds_cons.1 hholds
      have hallowed := hlost k (path ++ [key]) hnot (Option.ne_none_iff_exists'.2 ⟨p, hp⟩)
      exact holds_cons.2
        ((h.keeps _ (persistent_holds path key) k hallowed).shown ⟨p, hp, hbelow⟩)

/-- What a sub-spec retains that was handed out, the tree retains. -/
theorem Retains.put {p : Parameter Node} {put : Node → Node}
    (h : view.HandsOut Sound key n p m put) (hm : Retains lost m m') :
    Retains (fun target => ∃ rest, target = key :: rest ∧ lost rest) n (put m') := by
  have hkept := h.kept m' hm.sound hm.hasValue
  refine ⟨hkept.fit, hkept.hasValue, fun path k hnot hholds => ?_⟩
  -- a value in the node itself, one below another sub-spec, or one below that which was changed:
  cases path with
  | nil =>
    exact holds_nil.2 ((hkept.keeps _ persistent_isSet k fun _ hset => hset).shown
      (holds_nil.1 hholds))
  | cons k' path =>
    refine holds_cons.2 ((hkept.keeps _ (persistent_holds path k) k' ?_).shown
      (holds_cons.1 hholds))
    rintro rfl ⟨c, hc, hcholds⟩
    rw [h.node] at hc
    cases hc
    exact ⟨m', rfl, hm.holds path k (fun hl => hnot ⟨path ++ [k], rfl, hl⟩) hcholds⟩

end Node

end SpecTree
