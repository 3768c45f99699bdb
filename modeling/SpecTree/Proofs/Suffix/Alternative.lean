import SpecTree.Proofs.OneOf.Writing
import SpecTree.Tree.Spec

/-!
# A key or its suffix

The alternative between a parameter and the one that may stand for it behaves like the parameter
alone, as long as nothing is written to the other: `plan_keyOrSuffix`, `set_keyOrSuffix`,
`parameter?_keyOrSuffix`, `isComplete_keyOrSuffix` and `hasValue_keyOrSuffix`.
-/

namespace SpecTree

variable {ν : Type}

namespace Parameter

/-- The parameter that may stand for a key. Its default is that of the key without the domain. -/
def suffixed (p : Parameter ν) (name : String) : Parameter ν :=
  let default := (p.default.bind Value.asString?).map fun text =>
    Value.string ((Text.withoutPrefix? Declaration.domainPrefix text).getD text)
  { (primitive name (.scalar .string) : Parameter ν) with
    default, isOptional := default.isSome, doc := p.doc }

/-- The alternative between a key and its suffix, of which nothing was written to the suffix. -/
def keyOrSuffix (p : Parameter ν) (name : String) : OneOf ν :=
  ⟨[.ofList [p], .ofList [p.suffixed name]], if p.value.isSome then some [0] else none, none⟩

/-- The suffix may be left empty only if the key may. -/
theorem isOptional_suffixed {p : Parameter ν} (hp : p.default.isSome → p.isOptional = true)
    {name : String} (h : (p.suffixed name).isOptional = true) : p.isOptional = true := by
  have hdefault : ((p.default.bind Value.asString?).map _).isSome = true := h
  rw [Option.isSome_map] at hdefault
  obtain ⟨text, htext⟩ := Option.isSome_iff_exists.1 hdefault
  obtain ⟨v, hv, -⟩ := Option.bind_eq_some_iff.1 htext
  exact hp (by rw [hv]; rfl)

end Parameter

namespace Collection

theorem parameter?_ofList_singleton (p : Parameter ν) (k : String) :
    (ofList [p]).parameter? k = if p.name = k then some p else none :=
  Parameter.find?_cons p [] k

theorem contains_ofList_singleton (p : Parameter ν) (k : String) :
    (ofList [p]).contains k = decide (p.name = k) := by
  unfold contains
  rw [parameter?_ofList_singleton]
  split
  · next h => rw [decide_eq_true h]; rfl
  · next h => rw [decide_eq_false h]; rfl

end Collection

namespace OneOf

variable (p : Parameter ν) {name : String}

/-- Apart from the suffix, only the key itself is declared. -/
theorem contains_keyOrSuffix {k : String} (hk : k ≠ name) :
    (p.keyOrSuffix name).contains k = decide (p.name = k) := by
  show ((Collection.ofList [p]).contains k ||
    ((Collection.ofList [p.suffixed name]).contains k || false)) = _
  rw [Collection.contains_ofList_singleton, Collection.contains_ofList_singleton, Bool.or_false,
    decide_eq_false (fun h : (p.suffixed name).name = k => hk h.symm), Bool.or_false]

theorem declared?_keyOrSuffix_zero (k : String) :
    (p.keyOrSuffix name).declared? 0 k = if p.name = k then some p else none :=
  Collection.parameter?_ofList_singleton p k

theorem declared?_keyOrSuffix_one {k : String} (hk : k ≠ name) :
    (p.keyOrSuffix name).declared? 1 k = none :=
  (Collection.parameter?_ofList_singleton _ k).trans (if_neg fun h : name = k => hk h.symm)

variable [Judged ν]

/-- The branch of the key is open, and that of the suffix until the key is set. -/
theorem visible_keyOrSuffix :
    (p.keyOrSuffix name).visible = if p.value.isSome then [0] else [0, 1] := by
  rw [visible_of_live_eq_none rfl]
  unfold committed Parameter.keyOrSuffix
  cases p.value <;> rfl

/-- Only the first branch can be written under the key. -/
theorem writable_keyOrSuffix (hname : p.name ≠ name) :
    (p.keyOrSuffix name).writable p.name = [0] := by
  unfold writable
  rw [visible_keyOrSuffix]
  have hzero : (p.keyOrSuffix name).declared? 0 p.name = some p :=
    (declared?_keyOrSuffix_zero p p.name).trans (if_pos rfl)
  have hone := declared?_keyOrSuffix_one p hname
  split <;> simp [List.filter, hzero, hone]

/-- The plan for the key is up to its parameter. -/
theorem plan_keyOrSuffix (hname : p.name ≠ name) (v : Value) :
    (p.keyOrSuffix name).plan p.name (some v) = (p.check v).map fun _ => [0] := by
  have hcheck : (p.keyOrSuffix name).checkBranch p.name v 0 = (p.check v).map fun _ => () := by
    unfold checkBranch
    rw [declared?_keyOrSuffix_zero, if_pos rfl]
  rw [plan_some, writable_keyOrSuffix p hname, if_neg (List.cons_ne_nil 0 []), List.forM,
    hcheck]
  cases p.check v <;> rfl

/-- Setting the key leaves the alternative of the key that was set. -/
theorem set_keyOrSuffix (hname : p.name ≠ name) {v w : Value} (hw : p.check v = .ok w) :
    set p.name v (p.keyOrSuffix name)
      = .ok () (Parameter.keyOrSuffix { p with value := some w } name) := by
  have hplan : (p.keyOrSuffix name).plan p.name (some v) = .ok [0] := by
    rw [plan_keyOrSuffix p hname, hw]
    rfl
  rw [set_of_plan_eq_ok hplan, settle_of_live_eq_none rfl]
  have hassigned : (Collection.ofList [p]).assigned p.name v
      = .ofList [{ p with value := some w }] := by
    rw [Collection.assigned_eq_insert
      ((Collection.parameter?_ofList_singleton p p.name).trans (if_pos rfl)) hw]
    show Collection.mk (if p.name = p.name then _ else _) _ _ = _
    rw [if_pos rfl]
    rfl
  show EStateM.Result.ok () (OneOf.mk [(Collection.ofList [p]).assigned p.name v, _] _ _) = _
  rw [hassigned]
  rfl

/-- Without a value both branches are shown, with one only the first. -/
theorem visibleParameters_keyOrSuffix :
    (p.keyOrSuffix name).visibleParameters
      = if p.value.isSome then [[p]] else [[p], [p.suffixed name]] := by
  unfold visibleParameters
  rw [visible_keyOrSuffix]
  split <;> rfl

/-- The key is shown as it would be without a suffix beside it. -/
theorem parameter?_keyOrSuffix {k : String} (hk : k ≠ name) :
    (p.keyOrSuffix name).parameter? k = if p.name = k then some p else none := by
  have hkey : Parameter.find? [p] k = if p.name = k then some p else none :=
    Parameter.find?_cons p [] k
  have hsuffix : Parameter.find? [p.suffixed name] k = none :=
    (Parameter.find?_cons _ [] k).trans (if_neg fun h : name = k => hk h.symm)
  unfold parameter?
  rw [visibleParameters_keyOrSuffix]
  by_cases hp : p.name = k
  · rw [if_pos hp] at hkey ⊢
    split <;> simp only [List.findSome?_cons, hkey]
  · rw [if_neg hp] at hkey ⊢
    split <;> simp only [List.findSome?_cons, List.findSome?_nil, hkey, hsuffix]

/-- The alternative is complete if and only if the key alone would be. -/
theorem isComplete_keyOrSuffix (hp : p.default.isSome → p.isOptional = true) :
    (p.keyOrSuffix name).isComplete = p.isComplete := by
  have hsuffix : (p.suffixed name).isComplete = true → p.isComplete = true := by
    intro h
    have hoptional : (p.suffixed name).isOptional = true := by
      have hor : ((p.suffixed name).isOptional || false) = true := h
      rwa [Bool.or_false] at hor
    unfold Parameter.isComplete
    rw [Parameter.isOptional_suffixed hp hoptional, Bool.true_or]
  unfold isComplete
  rw [visibleParameters_keyOrSuffix]
  split
  · simp
  · rw [Bool.eq_iff_iff]
    simpa using hsuffix

/-- Nothing was written to the suffix, and so it holds no value. -/
theorem hasValue_keyOrSuffix : (p.keyOrSuffix name).hasValue = p.hasValue := by
  have hsuffix : (p.suffixed name).hasValue = false := rfl
  unfold hasValue
  rw [visibleParameters_keyOrSuffix]
  split <;> simp [hsuffix]

end OneOf

end SpecTree
