import SpecTree.Value.Coerce

/-!
# Coercion keeps its promise

Main statement: `type_of_coerce`, what a value is made of is of the type that was asked for.
-/

namespace SpecTree.Value

theorem type_of_ofItems {element : Scalar} {items : List String} {v : Value}
    (h : ofItems element items = .ok v) : v.type = .array element := by
  have hmap : ∀ {α : Type} {x : Except ValueError α} {f : α → Value} {t : Primitive},
      (∀ a, (f a).type = t) → f <$> x = .ok v → v.type = t := by
    intro α x f t hf hx
    cases x with
    | error e => cases hx
    | ok a =>
      cases hx
      exact hf a
  unfold ofItems at h
  cases element with
  | double => exact hmap (fun _ => rfl) h
  | int => exact hmap (fun _ => rfl) h
  | string => cases h; rfl
  | bool => exact hmap (fun _ => rfl) h

theorem type_of_parse {target : Primitive} {text : String} {v : Value}
    (h : parse target text = .ok v) : v.type = target := by
  unfold parse at h
  cases target with
  | scalar s =>
    cases s with
    | double => cases hx : parseDouble? text <;> rw [hx] at h <;> cases h; rfl
    | int => cases hx : parseInt? text <;> rw [hx] at h <;> cases h; rfl
    | string => cases h; rfl
    | bool => cases hx : parseBool? text <;> rw [hx] at h <;> cases h; rfl
  | array element =>
    simp only at h
    split at h
    · exact type_of_ofItems h
    · cases h

/-- A coerced value is of the type that was asked for. -/
theorem type_of_coerce {target : Primitive} {v w : Value} (h : v.coerce target = .ok w) :
    w.type = target := by
  unfold coerce at h
  split at h
  · rename_i htype
    cases h
    exact htype
  · split at h
    · exact type_of_parse h
    · cases h; rfl
    · rename_i n _
      cases hx : boolOfInt n <;> rw [hx] at h <;> cases h
      rfl
    · cases h; rfl
    · rename_i ns _
      cases hx : ns.mapM boolOfInt <;> rw [hx] at h <;> cases h
      rfl
    · exact type_of_ofItems h
    · cases h

end SpecTree.Value
