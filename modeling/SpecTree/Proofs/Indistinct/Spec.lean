import Mathlib.Data.List.Forall2
import SpecTree.Proofs.OneOf.Indistinct
import SpecTree.Proofs.Spec
import SpecTree.Tree.Explain

/-!
# Specs that nobody can tell apart

A spec shows the same, and takes the same edits, if alternatives in it give way to others that are
used alike:

* `Edit.Blind`: an edit that does not see a difference between parts;
* `Spec.Upto`: specs that differ in their alternatives only, and what they show alike;
* `Spec.blind_set`, `Spec.blind_within`: edits of a spec do not see the difference.
-/

namespace SpecTree

/-! ## Edits that do not see a difference -/

namespace Edit

variable {ε σ τ α β ι : Type} {R : σ → σ → Prop} {Q : τ → τ → Prop}

/-- Outcomes with the same answer, which leave related parts behind. -/
inductive Agree (R : σ → σ → Prop) : EStateM.Result ε σ α → EStateM.Result ε σ α → Prop
  | ok (a : α) {s s' : σ} (h : R s s') : Agree R (.ok a s) (.ok a s')
  | error (e : ε) {s s' : σ} (h : R s s') : Agree R (.error e s) (.error e s')

theorem Agree.refl (hR : ∀ s, R s s) : ∀ result : EStateM.Result ε σ α, Agree R result result
  | .ok a s => .ok a (hR s)
  | .error e s => .error e (hR s)

/-- Two outcomes that agree are both a success with one answer, or both the same failure. -/
theorem Agree.cases {result result' : EStateM.Result ε σ α} (h : Agree R result result') :
    (∃ a s s', result = .ok a s ∧ result' = .ok a s' ∧ R s s') ∨
      ∃ e s s', result = .error e s ∧ result' = .error e s' ∧ R s s' := by
  cases h with
  | ok a h => exact .inl ⟨a, _, _, rfl, rfl, h⟩
  | error e h => exact .inr ⟨e, _, _, rfl, rfl, h⟩

/-- Outcomes of an edit in a part agree for the whole, if putting the part back keeps the relation.
-/
theorem Agree.through {act : Edit τ α} {put put' : τ → σ} {t t' : τ}
    (h : Agree Q (act t) (act t')) (hput : ∀ u u', Q u u' → R (put u) (put' u')) :
    Agree R (Edit.through put act t) (Edit.through put' act t') := by
  unfold Edit.through
  rcases h.cases with ⟨a, u, u', ht, ht', hu⟩ | ⟨e, u, u', ht, ht', hu⟩ <;> rw [ht, ht']
  · exact .ok a (hput _ _ hu)
  · exact .error e (hput _ _ hu)

/-- The edit answers alike for related parts, and leaves related parts behind. -/
def Blind (R : σ → σ → Prop) (act : EStateM ε σ α) : Prop :=
  ∀ s s', R s s' → Agree R (act s) (act s')

namespace Blind

theorem pure (a : α) : Blind R (pure a : EStateM ε σ α) := fun _ _ h => .ok a h

/-- Two edits one after the other that see no difference see none together. -/
theorem bind {act : EStateM ε σ α} {next : α → EStateM ε σ β} (hact : Blind R act)
    (hnext : ∀ a, Blind R (next a)) : Blind R (act >>= next) := by
  intro s s' h
  show Agree R (EStateM.bind act next s) (EStateM.bind act next s')
  unfold EStateM.bind
  rcases (hact s s' h).cases with ⟨a, t, t', hs, hs', ht⟩ | ⟨e, t, t', hs, hs', ht⟩ <;> rw [hs, hs']
  · exact hnext a t t' ht
  · exact .error e ht

/-- What is read off the part must not be a part of the difference. -/
theorem get_bind {next : σ → EStateM ε σ α} (hlook : ∀ s s', R s s' → next s = next s')
    (hnext : ∀ s, Blind R (next s)) : Blind R (get >>= next) := by
  intro s s' h
  show Agree R (next s s) (next s' s')
  rw [← hlook s s' h]
  exact hnext s s s' h

/-- A look that answers alike in related states sees no difference. -/
theorem inspect {look : σ → Except TreeError α} (hlook : ∀ s s', R s s' → look s = look s') :
    Blind R (Edit.inspect look) := by
  intro s s' h
  unfold Edit.inspect
  rw [← hlook s s' h]
  cases look s with
  | ok a => exact .ok a h
  | error e => exact .error e h

/-- Edits that are made one for each item of a list see no difference, if none of them does. -/
theorem each {act : ι → Edit σ Unit} (hact : ∀ i, Blind R (act i)) :
    ∀ is : List ι, Blind R (Edit.each act is)
  | [] => .pure ()
  | i :: is => (hact i).bind fun _ => each hact is

end Blind

end Edit

open Edit (Agree Blind)

/-! ## Components -/

variable {ν μ β : Type} {R : OneOf ν → OneOf ν → Prop}

namespace Component

/-- The same component, or other alternatives. -/
inductive Upto (R : OneOf ν → OneOf ν → Prop) : Component ν → Component ν → Prop
  | refl (c : Component ν) : Upto R c c
  | oneOf {o o' : OneOf ν} (h : R o o') : Upto R (.oneOf o) (.oneOf o')

namespace Upto

variable {c c' : Component ν} {cs cs' : List (Component ν)}

/-- A change of the sub-specs keeps components alike, if it keeps alternatives related. -/
theorem map {R' : OneOf μ → OneOf μ → Prop} {f : ν → μ}
    (hR : ∀ o o', R o o' → R' (o.map f) (o'.map f)) (h : Upto R c c') :
    Upto R' (c.map f) (c'.map f) := by
  cases h with
  | refl => exact .refl _
  | oneOf h => exact .oneOf (hR _ _ h)

/-- What does not tell the alternatives apart does not tell the components apart. -/
theorem eq {q : Component ν → β} (hq : ∀ o o', R o o' → q (.oneOf o) = q (.oneOf o'))
    (h : Upto R c c') : q c = q c' := by
  cases h with
  | refl => rfl
  | oneOf h => exact hq _ _ h

theorem forall₂_refl (cs : List (Component ν)) : List.Forall₂ (Upto R) cs cs :=
  List.forall₂_same.2 fun c _ => .refl c

/-- At every place there are two components that are alike, or there is none in both lists. -/
theorem getElem? (h : List.Forall₂ (Upto R) cs cs') (i : Nat) :
    (cs[i]? = none ∧ cs'[i]? = none) ∨
      ∃ c c', cs[i]? = some c ∧ cs'[i]? = some c' ∧ Upto R c c' := by
  induction h generalizing i with
  | nil => exact .inl ⟨rfl, rfl⟩
  | cons hc _ ih =>
    cases i with
    | zero => exact .inr ⟨_, _, rfl, rfl, hc⟩
    | succ i => exact ih i

/-- The same component may be put at one place of both lists. -/
theorem set (h : List.Forall₂ (Upto R) cs cs') (i : Nat) (c : Component ν) :
    List.Forall₂ (Upto R) (cs.set i c) (cs'.set i c) := by
  induction h generalizing i with
  | nil => exact .nil
  | cons hc hcs ih =>
    cases i with
    | zero => exact .cons (.refl c) hcs
    | succ i => exact .cons hc (ih i)

/-- Collections are the same in both lists, so a parameter goes into the same one. -/
theorem insertFirst (h : List.Forall₂ (Upto R) cs cs') (p : Parameter ν) :
    List.Forall₂ (Upto R) (Spec.insertFirst p cs) (Spec.insertFirst p cs') := by
  induction h with
  | nil => exact forall₂_refl _
  | @cons c _ _ _ hc hcs ih =>
    cases hc with
    | oneOf h => exact .cons (.oneOf h) ih
    | refl =>
      cases c with
      | collection c => exact .cons (.refl _) hcs
      | oneOf o => exact .cons (.refl _) ih
      | conditional s => exact .cons (.refl _) ih

end Upto

/-- An edit of alternatives is the same for both if it does the same to both. -/
theorem inOneOf_congr {α : Type} {act : Edit (OneOf ν) α} {o o' : OneOf ν}
    (h : act o = act o') : inOneOf act o = inOneOf act o' := by
  unfold inOneOf
  rw [h]

end Component

/-! ## Specs -/

namespace Spec

/-- The same spec, but for the alternatives in it. -/
inductive Upto (R : OneOf ν → OneOf ν → Prop) (s : Spec ν) : Spec ν → Prop
  | of {cs : List (Component ν)} (h : List.Forall₂ (Component.Upto R) s.components cs) :
      Upto R s { s with components := cs }

namespace Upto

variable {s s' : Spec ν}

/-- The components of two specs that are alike are alike one by one. -/
theorem components (h : s.Upto R s') :
    List.Forall₂ (Component.Upto R) s.components s'.components := by
  cases h with
  | of h => exact h

theorem name (h : s.Upto R s') : s.name = s'.name := by
  cases h with
  | of h => rfl

theorem refl (s : Spec ν) : s.Upto R s := .of (Component.Upto.forall₂_refl _)

/-- Specs that are alike up to a relation are alike up to a weaker one. -/
theorem imp {R' : OneOf ν → OneOf ν → Prop} (hR : ∀ o o', R o o' → R' o o') (h : s.Upto R s') :
    s.Upto R' s' := by
  cases h with
  | of h =>
    refine .of (List.Forall₂.imp (fun c c' hc => ?_) h)
    cases hc with
    | refl => exact .refl _
    | oneOf h => exact .oneOf (hR _ _ h)

theorem map {R' : OneOf μ → OneOf μ → Prop} {f : ν → μ}
    (hR : ∀ o o', R o o' → R' (o.map f) (o'.map f)) (h : s.Upto R s') :
    (s.map f).Upto R' (s'.map f) := by
  cases h with
  | of h => exact .of (s := s.map f) (List.rel_map (fun _ _ hc => hc.map hR) h)

/-- The same component may be put at one place of both specs. -/
theorem setComponent (h : s.Upto R s') (i : Nat) (c : Component ν) :
    Upto R { s with components := s.components.set i c }
      { s' with components := s'.components.set i c } := by
  cases h with
  | of h =>
    exact .of (s := { s with components := s.components.set i c }) (Component.Upto.set h i c)

/-- Adding a parameter that was not declared keeps specs alike. -/
theorem insertFixed (h : s.Upto R s') (p : Parameter ν) :
    (s.insertFixed p).Upto R (s'.insertFixed p) := by
  cases h with
  | of h => exact .of (s := s.insertFixed p) (Component.Upto.insertFirst h p)

/-- One more component at the end keeps specs alike. -/
theorem push (h : s.Upto R s') (c : Component ν) : (s.push c).Upto R (s'.push c) := by
  cases h with
  | of h =>
    exact .of (s := s.push c) (List.rel_append h (Component.Upto.forall₂_refl _))

/-- Merging in another spec keeps specs alike. -/
theorem merge (h : s.Upto R s') (other : Spec ν) : (s.merge other).Upto R (s'.merge other) := by
  cases h with
  | of h =>
    exact .of (s := s.merge other) (List.rel_append h (Component.Upto.forall₂_refl _))

/-! ### Questions -/

/-- Of all components the same is read, if the alternatives give the same. -/
theorem map_eq {q : Component ν → β} (hq : ∀ o o', R o o' → q (.oneOf o) = q (.oneOf o'))
    (h : s.Upto R s') : s.components.map q = s'.components.map q := by
  have heq := List.rel_map (P := Eq) (fun _ _ hc => Component.Upto.eq hq hc) h.components
  rwa [List.forall₂_eq_eq_eq] at heq

/-- A test of all components comes to the same, if it sees no difference between alternatives. -/
theorem all_eq {q : Component ν → Bool} (hq : ∀ o o', R o o' → q (.oneOf o) = q (.oneOf o'))
    (h : s.Upto R s') : s.components.all q = s'.components.all q := by
  have heq := congrArg (List.all · id) (h.map_eq hq)
  rwa [List.all_map, List.all_map] at heq

/-- A test of some component comes to the same, if it sees no difference between alternatives. -/
theorem any_eq {q : Component ν → Bool} (hq : ∀ o o', R o o' → q (.oneOf o) = q (.oneOf o'))
    (h : s.Upto R s') : s.components.any q = s'.components.any q := by
  have heq := congrArg (List.any · id) (h.map_eq hq)
  rwa [List.any_map, List.any_map] at heq

theorem flatMap_eq {q : Component ν → List β}
    (hq : ∀ o o', R o o' → q (.oneOf o) = q (.oneOf o')) (h : s.Upto R s') :
    s.components.flatMap q = s'.components.flatMap q := by
  rw [List.flatMap_def, List.flatMap_def, h.map_eq hq]

theorem filterMap_eq {q : Component ν → Option β}
    (hq : ∀ o o', R o o' → q (.oneOf o) = q (.oneOf o')) (h : s.Upto R s') :
    s.components.filterMap q = s'.components.filterMap q := by
  have heq := congrArg (List.filterMap id) (h.map_eq hq)
  rwa [List.filterMap_map, List.filterMap_map] at heq

theorem isSelector (h : s.Upto R s') : s.isSelector = s'.isSelector :=
  funext fun _ => h.any_eq fun _ _ _ => rfl

section Queries

variable [Judged ν]

/-- The same parameters are shown. -/
theorem parameter? (h : s.Upto OneOf.SameView s') : s.parameter? = s'.parameter? := by
  funext key
  unfold Spec.parameter?
  rw [← List.head?_filterMap, ← List.head?_filterMap,
    h.filterMap_eq fun _ _ ho => congrFun ho.parameter? key]

theorem get? (h : s.Upto OneOf.SameView s') : s.get? = s'.get? := by
  funext key
  unfold Spec.get?
  rw [h.parameter?]

theorem isComplete (h : s.Upto OneOf.SameView s') : s.isComplete = s'.isComplete :=
  h.all_eq fun _ _ ho => ho.isComplete

theorem hasValue (h : s.Upto OneOf.SameView s') : s.hasValue = s'.hasValue :=
  h.any_eq fun _ _ ho => ho.hasValue

theorem isOptional (h : s.Upto OneOf.SameView s') : s.isOptional = s'.isOptional :=
  h.all_eq fun _ _ ho => ho.isOptional

theorem complete (h : s.Upto OneOf.SameView s') : s.complete = s'.complete :=
  congrArg Parameter.distinct (h.flatMap_eq fun _ _ ho => congrFun ho.visibleWhere _)

theorem valued (h : s.Upto OneOf.SameView s') : s.valued = s'.valued :=
  congrArg Parameter.distinct (h.flatMap_eq fun _ _ ho => congrFun ho.visibleWhere _)

theorem unfilled (h : s.Upto OneOf.SameView s') : s.unfilled = s'.unfilled :=
  congrArg Parameter.distinct (h.flatMap_eq fun _ _ ho => congrFun ho.visibleWhere _)

theorem optional (h : s.Upto OneOf.SameView s') : s.optional = s'.optional :=
  congrArg Parameter.distinct (h.flatMap_eq fun _ _ ho => congrFun ho.visibleWhere _)

/-- The same choices are open, branch by branch. -/
theorem openChoices (h : s.Upto OneOf.SameView s') : s.openChoices = s'.openChoices := by
  refine h.filterMap_eq fun o o' ho => ?_
  show (if o.isOpen then some (OpenChoice.oneOf o.openNames) else none) = _
  rw [ho.isOpen, ho.openNames]

/-- Alternatives are shown to a reader by their open branches. -/
theorem explain (h : s.Upto OneOf.SameView s') (text : ν → String) :
    Explain.ofSpec text s = Explain.ofSpec text s' := by
  refine congrArg Explain.sections (h.map_eq fun o o' ho => ?_)
  show Explain.ofOneOf text o = Explain.ofOneOf text o'
  -- whatever is shown of the open branches is the same in both:
  have hbranches : ∀ {γ : Type} (show' : List (Parameter ν) → γ),
      o.visible.map (fun i => show' (o.branchParameters i))
        = o'.visible.map fun i => show' (o'.branchParameters i) := by
    intro γ show'
    have heq := congrArg (List.map show') ho.visibleParameters
    rwa [OneOf.visibleParameters, OneOf.visibleParameters, List.map_map, List.map_map] at heq
  unfold Explain.ofOneOf
  rw [← ho.selected?]
  cases hselected : o.selected? with
  | none =>
    have hlines := hbranches fun ps =>
      Explain.indent ("\n".intercalate (ps.map (Explain.ofParameter text)))
    exact congrArg (fun bs => "ONE OF:\n" ++ "\nOR:\n".intercalate bs ++ "\nEND") hlines
  | some i =>
    have hone := hbranches fun ps => Explain.sections (ps.map (Explain.ofParameter text))
    have hselected' : o'.selected? = some i := ho.selected? ▸ hselected
    rw [OneOf.visible_of_selected? hselected, OneOf.visible_of_selected? hselected'] at hone
    exact (List.cons.inj hone).1

end Queries

section Edits

variable [Judged ν]

theorem contains (h : s.Upto OneOf.Indistinct s') : s.contains = s'.contains :=
  funext fun key => h.any_eq fun _ _ ho => congrFun ho.contains key

theorem parameters (h : s.Upto OneOf.Indistinct s') : s.parameters = s'.parameters :=
  congrArg Parameter.distinct (h.flatMap_eq fun _ _ ho => ho.parameters)

/-- Specs that no edit tells apart are shown alike. -/
theorem view (h : s.Upto OneOf.Indistinct s') : s.Upto OneOf.SameView s' :=
  h.imp fun _ _ ho => ho.view

/-! ### Edits -/

/-- A key is written to the components at the same places. -/
theorem targets (h : s.Upto OneOf.Indistinct s') : s.targets = s'.targets := by
  funext key
  unfold Spec.targets
  rw [h.components.length_eq]
  congr 1
  funext i
  rcases Component.Upto.getElem? h.components i with ⟨hc, hc'⟩ | ⟨c, c', hc, hc', hupto⟩
  · rw [hc, hc']
  · rw [hc, hc']
    exact hupto.eq (q := (·.contains key)) fun _ _ ho => congrFun ho.contains key

/-- A check of the components at some places ends alike in both specs. -/
theorem checkTargets {test : Component ν → Except TreeError Unit}
    (htest : ∀ o o', OneOf.Indistinct o o' → test (.oneOf o) = test (.oneOf o'))
    (h : s.Upto OneOf.Indistinct s') (is : List Nat) :
    Spec.checkTargets test is s = Spec.checkTargets test is s' := by
  refine forM_congr fun i _ => ?_
  rcases Component.Upto.getElem? h.components i with ⟨hc, hc'⟩ | ⟨c, c', hc, hc', hupto⟩
  · rw [hc, hc']
  · rw [hc, hc']
    exact hupto.eq htest

/-- An edit that leaves the same alternatives behind is blind in its place in a spec. -/
theorem blind_inComponent {α : Type} {act : Edit (Component ν) α}
    (hact : ∀ o o', OneOf.Indistinct o o' → act (.oneOf o) = act (.oneOf o')) (key : String)
    (i : Nat) : Blind (Spec.Upto OneOf.Indistinct) (Spec.inComponent key i act) := by
  intro s s' h
  rcases Component.Upto.getElem? h.components i with ⟨hc, hc'⟩ | ⟨c, c', hc, hc', hupto⟩
  · have hmissing : ∀ {s : Spec ν}, s.components[i]? = none →
        Spec.inComponent key i act s = .error (.unknownKey key s.name) s := fun hnone =>
      Edit.zoom_of_view_error (by rw [hnone])
    rw [hmissing hc, hmissing hc', h.name]
    exact .error _ h
  · rw [inComponent_of_getElem? hc, inComponent_of_getElem? hc']
    have hsame : act c = act c' := hupto.eq hact
    unfold Edit.through
    rw [← hsame]
    cases act c with
    | ok a d => exact .ok a (h.setComponent i d)
    | error e d => exact .error e (h.setComponent i d)

end Edits

end Upto

variable [Judged ν]

/-- Setting a key sees no difference between alternatives that are indistinct. -/
theorem blind_set (key : String) (value : Value) :
    Blind (Upto OneOf.Indistinct) (Spec.set key value : Edit (Spec ν) Unit) := by
  unfold Spec.set
  simp only [Edit.forIn_eq_each, bind_pure_unit]
  refine Blind.get_bind (fun s s' h => by rw [h.targets]) fun s₀ => ?_
  show Blind _ (if s₀.targets key = [] then _ else _)
  split
  · -- the key is new, and then what is done depends on the spec only by its name and its policy
    intro s s' h
    cases h with
    | of h =>
      by_cases hunknown : s.unknown = .error
      · simp only [Edit.replace, if_pos hunknown]
        exact .error _ (.of h)
      · simp only [Edit.replace, if_neg hunknown]
        cases (Parameter.primitive key value.type).set value with
        | ok p => exact .ok () ((Upto.of h).insertFixed p)
        | error e => exact .error e (.of h)
  · refine (Blind.inspect fun s s' h => ?_).bind fun _ => Blind.each (fun i => ?_) _
    · exact h.checkTargets (fun o o' ho => by simp only [Component.checkSet, ho.plan]) _
    · exact Upto.blind_inComponent (fun _ _ ho => Component.inOneOf_congr (ho.set key value)) key i

/-- Editing a sub-spec sees no difference between alternatives that are indistinct. -/
theorem blind_within {α : Type} (key : String) (act : Edit ν α) :
    Blind (Upto OneOf.Indistinct) (Spec.within key act) := by
  unfold Spec.within
  simp only [Edit.forIn_eq_each]
  refine Blind.get_bind (fun s s' h => by rw [h.targets]) fun s₀ => ?_
  split
  · exact Blind.inspect fun s s' h => by rw [h.name]
  · refine (Blind.inspect fun s s' h => ?_).bind fun _ =>
      (Blind.each (fun i => ?_) _).bind fun _ => ?_
    · exact h.checkTargets (fun o o' ho => by simp only [Component.checkAccess, ho.plan]) _
    · exact Upto.blind_inComponent (fun _ _ ho => Component.inOneOf_congr (ho.select key)) key i
    · exact Upto.blind_inComponent (fun _ _ ho => Component.inOneOf_congr (ho.within key act)) key _

end Spec

end SpecTree
