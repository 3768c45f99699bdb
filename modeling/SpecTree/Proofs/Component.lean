import SpecTree.Proofs.Conditional
import SpecTree.Proofs.OneOf.Writing
import SpecTree.Tree.Component

/-!
# Writing to components

A component of any kind takes what it was found to accept, and shows it from then on:

* `written_of_set`: what a write that succeeds does to a component of each kind;
* `set_of_checkSet_eq_ok`: the write does not fail if the check does not;
* `parameter?_of_set_eq_ok`: the key then shows the value, as one of the declared type;
* `select_of_checkAccess_eq_ok`: the same for narrowing.
-/

namespace SpecTree

/-- A slot shows a value that was made one of its type. -/
def Parameter.Shows {ν : Type} (value : Value) (p : Parameter ν) : Prop :=
  ∃ t v, p.type = .primitive t ∧ value.coerce t = .ok v ∧ p.value = some v

namespace Parameter

variable {ν : Type}

/-- A parameter that has taken a value shows it. -/
theorem shows_of_check {p : Parameter ν} {value w : Value} (h : p.check value = .ok w) :
    Shows value { p with value := some w } := by
  obtain ⟨t, ht, hw⟩ := check_eq_ok.1 h
  exact ⟨t, w, ht, hw, rfl⟩

end Parameter

namespace Collection

variable {ν : Type} {c c' : Collection ν} {key : String} {value : Value}

/-- A collection that would take the value takes it. -/
theorem set_of_checkSet_eq_ok (hkey : c.contains key) (h : c.checkSet key value = .ok ()) :
    ∃ c', c.set key value = .ok c' := by
  obtain ⟨p, hp⟩ := contains_iff.1 hkey
  obtain ⟨w, hw⟩ := (checkSet_eq_ok hp).1 h
  exact ⟨_, (set_eq_ok hp).2 ⟨w, hw, rfl⟩⟩

/-- A collection shows what was written to it. -/
theorem parameter?_of_set_eq_ok (hkey : c.contains key) (h : c.set key value = .ok c') :
    ∃ p, c'.parameter? key = some p ∧ p.Shows value := by
  obtain ⟨p, hp⟩ := contains_iff.1 hkey
  obtain ⟨w, hw, rfl⟩ := (set_eq_ok hp).1 h
  refine ⟨{ p with value := some w }, ?_, Parameter.shows_of_check hw⟩
  rw [parameter?_insert, if_pos (name_of_parameter? hp)]

end Collection

namespace OneOf

variable {ν : Type} [Judged ν] {o o' : OneOf ν} {key : String} {value : Value}

/-- After a key was set, exactly the branches that were written are open. -/
theorem parameter?_of_set_eq_ok (h : set key value o = .ok () o') :
    ∃ p, o'.parameter? key = some p ∧ p.Shows value := by
  obtain ⟨next, hplan, rfl⟩ := set_eq_ok.1 h
  have hcheck := check_of_plan_eq_ok ((plan_settle o key (some value)).trans hplan)
  have hdecl : ∀ i k, ({ o.settle.assignedIn key value next with
      active := some next } : OneOf ν).declared? i k = _ := declared?_assignedIn hcheck
  have hlive : ({ o.settle.assignedIn key value next with
      active := some next } : OneOf ν).live = none := live_settle o
  obtain ⟨hnext, hne, -⟩ := plan_eq_ok.1 hplan
  -- the open branches that declare the key are the planned ones:
  have hwritable : ({ o.settle.assignedIn key value next with
      active := some next } : OneOf ν).writable key = next := by
    rw [writable_of_live_eq_none hlive]
    apply List.filter_eq_self.2
    intro i hi
    obtain ⟨p, w, hp, hw⟩ := hcheck i hi
    rw [hdecl, if_pos ⟨hi, rfl⟩, hp, Option.bind_some, hw]
    rfl
  rw [parameter?_of_live_eq_none hlive, hwritable]
  cases hhead : next.head? with
  | none => exact absurd (hnext.symm.trans (List.head?_eq_none_iff.1 hhead)) hne
  | some i =>
    have hi := List.mem_of_head? hhead
    obtain ⟨p, w, hp, hw⟩ := hcheck i hi
    refine ⟨{ p with value := some w }, ?_, Parameter.shows_of_check hw⟩
    rw [Option.bind_some, hdecl, if_pos ⟨hi, rfl⟩, hp, Option.bind_some, hw]
    rfl

end OneOf

namespace Conditional

variable {ν : Type} {s s' : Conditional ν} {key : String} {value : Value}

/-- A conditional with a plan takes the value. -/
theorem set_of_plan_isOk {place : Option Nat} (h : s.plan key (some value) = .ok place) :
    ∃ s', s.set key value = .ok s' := by
  cases place with
  | none =>
    obtain ⟨w, -, hset⟩ := set_of_plan_eq_ok_none h
    exact ⟨_, hset⟩
  | some i =>
    obtain ⟨x, group, group', -, -, -, -, hset⟩ := set_of_plan_eq_ok_some h
    exact ⟨_, hset⟩

/-- A conditional shows what was written to it, under its case parameter or in the selected group.
-/
theorem parameter?_of_set_eq_ok (h : s.set key value = .ok s') :
    ∃ p, s'.parameter? key = some p ∧ p.Shows value := by
  rcases set_cases h with
    ⟨hkey, w, hw, rfl⟩ | ⟨i, x, group, group', hkey, hi, hb, hcontains, hgroup, rfl⟩
  · exact ⟨{ s.case with value := some w }, if_pos hkey, Parameter.shows_of_check hw⟩
  · obtain ⟨p, hp, hshows⟩ := Collection.parameter?_of_set_eq_ok hcontains hgroup
    refine ⟨p, ?_, hshows⟩
    unfold parameter?
    rw [selected?_setGroup hi hb]
    exact (if_neg hkey).trans hp

end Conditional

namespace Component

variable {ν : Type}

/-- An edit of a collection is one of the component that holds it. -/
theorem inCollection_eq {α : Type} (act : Edit (Collection ν) α) (c : Collection ν) :
    inCollection act c = Edit.through .collection act c := by
  unfold inCollection Edit.through
  cases act c <;> rfl

theorem inOneOf_eq {α : Type} (act : Edit (OneOf ν) α) (o : OneOf ν) :
    inOneOf act o = Edit.through .oneOf act o := by
  unfold inOneOf Edit.through
  cases act o <;> rfl

theorem inConditional_eq {α : Type} (act : Edit (Conditional ν) α) (s : Conditional ν) :
    inConditional act s = Edit.through .conditional act s := by
  unfold inConditional Edit.through
  cases act s <;> rfl

variable [Judged ν] {c c' : Component ν} {key : String} {value : Value}

theorem set_collection (key : String) (value : Value) (c : Collection ν) :
    Component.set key value (.collection c)
      = Edit.through .collection (Edit.replace fun c => c.set key value) c :=
  inCollection_eq _ _

theorem set_oneOf (key : String) (value : Value) (o : OneOf ν) :
    Component.set key value (.oneOf o) = Edit.through .oneOf (OneOf.set key value) o :=
  inOneOf_eq _ _

theorem set_conditional (key : String) (value : Value) (s : Conditional ν) :
    Component.set key value (.conditional s)
      = Edit.through .conditional (Edit.replace fun s => s.set key value) s :=
  inConditional_eq _ _

theorem select_oneOf (key : String) (o : OneOf ν) :
    select key (.oneOf o) = Edit.through .oneOf (OneOf.select key) o :=
  inOneOf_eq _ _

/-- What a write that succeeds does to a component of each kind. -/
inductive Written (key : String) (value : Value) : Component ν → Component ν → Prop
  | collection {c c' : Collection ν} (set : c.set key value = .ok c') :
      Written key value (.collection c) (.collection c')
  | oneOf {o o' : OneOf ν} (set : OneOf.set key value o = .ok () o') :
      Written key value (.oneOf o) (.oneOf o')
  | conditional {s s' : Conditional ν} (set : s.set key value = .ok s') :
      Written key value (.conditional s) (.conditional s')

/-- A write that succeeds is one to a collection, to alternatives or to a conditional. -/
theorem written_of_set (h : Component.set key value c = .ok () c') : Written key value c c' := by
  cases c with
  | collection c =>
    rw [set_collection] at h
    obtain ⟨c', hset, rfl⟩ := Edit.through_eq_ok.1 h
    exact .collection (Edit.replace_eq_ok.1 hset)
  | oneOf o =>
    rw [set_oneOf] at h
    obtain ⟨o', hset, rfl⟩ := Edit.through_eq_ok.1 h
    exact .oneOf hset
  | conditional s =>
    rw [set_conditional] at h
    obtain ⟨s', hset, rfl⟩ := Edit.through_eq_ok.1 h
    exact .conditional (Edit.replace_eq_ok.1 hset)

/-- Only alternatives are narrowed. -/
theorem select_cases (h : select key c = .ok () c') :
    c' = c ∨ ∃ o o', c = .oneOf o ∧ c' = .oneOf o' ∧ OneOf.select key o = .ok () o' := by
  cases c with
  | collection c =>
    cases h
    exact .inl rfl
  | conditional s =>
    cases h
    exact .inl rfl
  | oneOf o =>
    rw [select_oneOf] at h
    obtain ⟨o', hselect, rfl⟩ := Edit.through_eq_ok.1 h
    exact .inr ⟨o, o', rfl, rfl, hselect⟩

/-- What a component was found to accept it takes. -/
theorem set_of_checkSet_eq_ok (hkey : c.contains key) (h : c.checkSet key value = .ok ()) :
    ∃ c', Component.set key value c = .ok () c' := by
  cases c with
  | collection c =>
    obtain ⟨c', hset⟩ := Collection.set_of_checkSet_eq_ok hkey h
    rw [set_collection]
    exact ⟨_, Edit.through_eq_ok.2 ⟨c', Edit.replace_eq_ok.2 hset, rfl⟩⟩
  | oneOf o =>
    cases hplan : o.plan key (some value) with
    | error e =>
      rw [checkSet, hplan] at h
      cases h
    | ok next =>
      rw [set_oneOf]
      exact ⟨_, Edit.through_eq_ok.2 ⟨_, OneOf.set_of_plan_eq_ok hplan, rfl⟩⟩
  | conditional s =>
    cases hplan : s.plan key (some value) with
    | error e =>
      rw [checkSet, hplan] at h
      cases h
    | ok place =>
      obtain ⟨s', hset⟩ := Conditional.set_of_plan_isOk hplan
      rw [set_conditional]
      exact ⟨_, Edit.through_eq_ok.2 ⟨s', Edit.replace_eq_ok.2 hset, rfl⟩⟩

/-- What was set is shown. -/
theorem parameter?_of_set_eq_ok (hkey : c.contains key)
    (h : Component.set key value c = .ok () c') :
    ∃ p, c'.parameter? key = some p ∧ p.Shows value := by
  cases written_of_set h with
  | collection hset => exact Collection.parameter?_of_set_eq_ok hkey hset
  | oneOf hset => exact OneOf.parameter?_of_set_eq_ok hset
  | conditional hset => exact Conditional.parameter?_of_set_eq_ok hset

/-- Where a sub-spec is to be reached, narrowing does not fail. -/
theorem select_of_checkAccess_eq_ok (h : c.checkAccess key = .ok ()) :
    ∃ c', select key c = .ok () c' := by
  cases c with
  | collection c => exact ⟨_, rfl⟩
  | conditional s => exact ⟨_, rfl⟩
  | oneOf o =>
    cases hplan : o.plan key none with
    | error e =>
      rw [checkAccess, hplan] at h
      cases h
    | ok next =>
      rw [select_oneOf]
      exact ⟨_, Edit.through_eq_ok.2 ⟨_, OneOf.select_of_plan_eq_ok hplan, rfl⟩⟩

end Component

end SpecTree
