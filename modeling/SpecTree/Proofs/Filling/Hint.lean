import SpecTree.Proofs.Filling.Document

/-!
# Hints

A leaf of a document is read with the declared type as a hint, and the value is then coerced to that
type. Main statement: `Json.map_coerce_toValue?`, without the hint the same would come out.
-/

namespace SpecTree.Json

/-! ## Arrays -/

/-- An array without items has no type of its own. Read as one of strings it goes into the same
slots as if it had been read for them. -/
theorem map_coerce_arrayValue?_nil (t : Primitive) :
    (arrayValue? (some t) []).map (Value.coerce t) = (arrayValue? none []).map (Value.coerce t) := by
  rcases t with s | s <;> cases s <;> rfl

/-- Integers that are read as doubles are those that they widen to afterwards. -/
theorem map_coerce_arrayValue?_of_asInt? {items : List Json}
    (h : ∀ item ∈ items, item.WellFormed) (hne : items ≠ []) (hbools : ¬ items.all isBool = true)
    (hints : items.all (·.asInt?.isSome) = true) (t : Primitive) :
    (arrayValue? (some t) items).map (Value.coerce t) =
      (arrayValue? none items).map (Value.coerce t) := by
  have hplain : arrayValue? none items = some (.ints (items.filterMap asInt?)) := by
    simp [arrayValue?, hne, hbools, hints]
  by_cases ht : t = .array .double
  · -- the only type for which they are not read as integers:
    subst ht
    have hnumbers : items.all isNumber = true := by
      rw [List.all_eq_true] at hints ⊢
      intro item hitem
      exact isNumber_of_asInt? (hints item hitem)
    have hdoubles : items.filterMap asFloat? = (items.filterMap asInt?).map Value.doubleOfInt :=
      filterMap_asFloat? h (List.all_eq_true.1 hints)
    have hread : arrayValue? (some (.array .double)) items =
        some (.doubles ((items.filterMap asInt?).map Value.doubleOfInt)) := by
      simp [arrayValue?, hne, hbools, hnumbers, hdoubles]
    rw [hread, hplain]
    rfl
  · have hread : arrayValue? (some t) items = some (.ints (items.filterMap asInt?)) := by
      simp [arrayValue?, hne, hbools, hints, ht]
    rw [hread, hplain]

theorem map_coerce_arrayValue? {items : List Json} (h : ∀ item ∈ items, item.WellFormed)
    (t : Primitive) :
    (arrayValue? (some t) items).map (Value.coerce t) =
      (arrayValue? none items).map (Value.coerce t) := by
  by_cases hne : items = []
  · subst hne
    exact map_coerce_arrayValue?_nil t
  by_cases hbools : items.all isBool = true
  · simp [arrayValue?, hne, hbools]
  by_cases hints : items.all (·.asInt?.isSome) = true
  · exact map_coerce_arrayValue?_of_asInt? h hne hbools hints t
  · -- an array of anything else is read without a look at the hint
    simp [arrayValue?, hne, hbools, hints]

/-! ## Documents -/

/-- An integer that is read as a double is the one that it widens to afterwards. -/
theorem map_coerce_toValue?_number (n : JsonNumber) (t : Primitive) :
    ((number n).toValue? (some t)).map (Value.coerce t) =
      ((number n).toValue? none).map (Value.coerce t) := by
  rw [toValue?_number, toValue?_number]
  cases n.asInt? with
  | none => rfl
  | some i =>
    by_cases ht : t = .scalar .double
    · subst ht
      rfl
    · simp [ht]

/-- **The hint of a leaf's type does not change what is stored.** Read with the declared type as a
hint or with none, a document is no value either way, or it comes to the same value or the same
error when it is coerced to that type. -/
theorem map_coerce_toValue? {json : Json} (h : json.WellFormed) (t : Primitive) :
    (json.toValue? (some t)).map (Value.coerce t) = (json.toValue? none).map (Value.coerce t) := by
  cases json with
  | null => rfl
  | bool b => rfl
  | string s => rfl
  | object members => rfl
  | number n => exact map_coerce_toValue?_number n t
  | array items =>
    cases h with
    | array _ hitems => exact map_coerce_arrayValue? hitems t

/-- The largest and the smallest integer of 64 bits. -/
def exampleLimits : Json :=
  .array [.number (.integer 9223372036854775807), .number (.integer (-9223372036854775808))]

/-- With the hint they are read as doubles, without it as integers that widen to them. -/
theorem map_coerce_toValue?_exampleLimits :
    exampleLimits.WellFormed ∧
      exampleLimits.toValue? (some (.array .double)) ≠ exampleLimits.toValue? none ∧
      (exampleLimits.toValue? (some (.array .double))).map (Value.coerce (.array .double)) =
        (exampleLimits.toValue? none).map (Value.coerce (.array .double)) := by
  have hwf : exampleLimits.WellFormed := by
    refine .array _ (List.forall_mem_cons.2 ⟨.number _ ?_, List.forall_mem_singleton.2 (.number _ ?_)⟩)
    · exact ⟨by decide, by decide⟩
    · exact ⟨by decide, by decide⟩
  refine ⟨hwf, ?_, map_coerce_toValue? hwf (.array .double)⟩
  intro hsame
  cases hsame

end SpecTree.Json
