import SpecTree.Proofs.Spec
import SpecTree.Tree.NodeEdit

/-!
# Choosing variants

What choosing a variant does (`setType_of_variantFor`): the type is written to the selector, if that
is a parameter, and then the fresh variant is put in. Without a variant for the type nothing
happens.
-/

namespace SpecTree

namespace Choice

variable {α : Type} {catalog : Catalog}

theorem inBody_eq (act : Edit (Spec Node) α) (c : Choice Node) :
    inBody act c = Edit.through (fun body => { c with body }) act c.body :=
  Edit.zoom_of_view rfl

/-- What holds of an empty spec and of one with a selector alone, and is kept when parameters are
put behind, holds of a choice that has no variant yet. -/
theorem body_ofField {ν : Type} {P : Spec ν → Prop} (name field : String) (placement : Placement)
    {others : Option (Spec ν)} (hempty : P (Spec.ofName name))
    (hselector : P ((Spec.ofName name).push (.collection
      (Collection.ofList [Parameter.primitive (selectorOf field) (.scalar .string)]))))
    (hmerge : ∀ s, others = some s → ∀ own, P own →
      P (own.merge (s.removeParameter (selectorOf field)))) :
    P (ofField name field placement others).body := by
  have hown : P (if placement.hasTypeParameter then
      (Spec.ofName name).push (.collection
        (Collection.ofList [Parameter.primitive (selectorOf field) (.scalar .string)]))
      else Spec.ofName name) := by
    split
    · exact hselector
    · exact hempty
  unfold ofField
  cases others with
  | none => exact hown
  | some s => exact hmerge s rfl _ hown

/-- The variant that a type stands for, freshly built. -/
def variantFor (catalog : Catalog) (type : String) (c : Choice Node) :
    Except TreeError (String × Node) :=
  match c.selected with
  | some current => .error (.typeAlreadySet c.field current)
  | none =>
    let valid := catalog.validTypes c.name c.field
    match valid.find? (Naming.hyphenate type) with
    | some variant => (catalog.build variant).map (variant, ·)
    | none => .error (.unknownType c.field type valid.types)

/-- A variant is for a choice that has none yet, and is the fresh tree of its name. -/
theorem variantFor_eq_ok {type variant : String} {c : Choice Node} {node : Node} :
    variantFor catalog type c = .ok (variant, node) ↔
      c.selected = none ∧
        (catalog.validTypes c.name c.field).find? (Naming.hyphenate type) = some variant ∧
        catalog.build variant = .ok node := by
  unfold variantFor
  constructor
  · intro h
    split at h
    · cases h
    · rename_i hselected
      simp only at h
      split at h
      · rename_i found hfound
        obtain ⟨n, hbuild, hpair⟩ := map_eq_ok.1 h
        cases hpair
        exact ⟨hselected, hfound, hbuild⟩
      · cases h
  · rintro ⟨hselected, hfound, hbuild⟩
    simp only [hselected, hfound, hbuild, Except.map]

/-- Write the type to the selector, if the placement says that it is a parameter. -/
def writeType (c : Choice Node) (type : String) : Edit (Spec Node) Unit :=
  if c.placement.hasTypeParameter then Spec.set c.selector (.string type) else pure ()

theorem writeType_cases {c : Choice Node} {type : String} {s s' : Spec Node}
    (h : c.writeType type s = .ok () s') :
    (c.placement.hasTypeParameter = true ∧ Spec.set c.selector (.string type) s = .ok () s') ∨
      c.placement.hasTypeParameter = false ∧ s' = s := by
  unfold writeType at h
  split at h
  · next hplacement => exact .inl ⟨hplacement, h⟩
  · next hplacement =>
    cases h
    exact .inr ⟨Bool.eq_false_iff.2 hplacement, rfl⟩

/-- A selector that is a parameter takes the type. -/
theorem set_of_writeType {c : Choice Node} {type : String} {s s' : Spec Node}
    (hplacement : c.placement.hasTypeParameter = true) (h : c.writeType type s = .ok () s') :
    Spec.set c.selector (.string type) s = .ok () s' := by
  rwa [writeType, if_pos hplacement] at h

/-- A selector that is no parameter is not written. -/
theorem eq_of_writeType {c : Choice Node} {type : String} {s s' : Spec Node}
    (hplacement : c.placement.hasTypeParameter = false) (h : c.writeType type s = .ok () s') :
    s' = s := by
  rw [writeType, if_neg (Bool.eq_false_iff.1 hplacement)] at h
  cases h
  rfl

/-- Only a selector that is a parameter can refuse the type. -/
theorem set_of_writeType_eq_error {c : Choice Node} {type : String} {s s' : Spec Node}
    {e : TreeError} (h : c.writeType type s = .error e s') :
    Spec.set c.selector (.string type) s = .error e s' := by
  unfold writeType at h
  split at h
  · exact h
  · cases h

/-- The choice with another body, and the variant in it. -/
def chosen (c : Choice Node) (type variant : String) (node : Node) (body : Spec Node) :
    Choice Node :=
  { ({ c with body } : Choice Node).withVariant type variant node with selected := some type }

theorem setType_of_variantFor_error {type : String} {c : Choice Node} {e : TreeError}
    (h : variantFor catalog type c = .error e) : setType catalog type c = .error e c := by
  unfold setType
  exact Edit.inspect_bind_of_error h _

/-- With a variant for it, the type is written, and then the variant is put in. -/
theorem setType_of_variantFor {type variant : String} {c : Choice Node} {node : Node}
    (h : variantFor catalog type c = .ok (variant, node)) :
    setType catalog type c
      = match c.writeType type c.body with
        | .ok _ body => .ok () (c.chosen type variant node body)
        | .error e body => .error e { c with body } := by
  unfold setType
  refine (Edit.inspect_bind_of_ok h _).trans ?_
  show (if c.placement.hasTypeParameter then
      (inBody (Spec.set c.selector (.string type)) >>= fun _ => modify _)
    else modify _ : Edit (Choice Node) Unit) c = _
  unfold writeType
  -- with and without a selector to write:
  split
  · show EStateM.bind (inBody _) _ c = _
    simp only [EStateM.bind, inBody_eq]
    unfold Edit.through
    cases Spec.set c.selector (.string type) c.body <;> rfl
  · rfl

/-- Without a variant there is a chosen type already, or there is none for the type, or it could
not be built. -/
theorem variantFor_eq_error {type : String} {c : Choice Node} {e : TreeError}
    (h : variantFor catalog type c = .error e) :
    (∃ current, e = .typeAlreadySet c.field current) ∨
      (∃ valid, e = .unknownType c.field type valid) ∨
      ∃ variant, (catalog.validTypes c.name c.field).find? (Naming.hyphenate type) = some variant ∧
        catalog.build variant = .error e := by
  unfold variantFor at h
  split at h
  · cases h
    exact .inl ⟨_, rfl⟩
  · simp only at h
    split at h
    · next variant hvariant =>
      refine .inr (.inr ⟨variant, hvariant, ?_⟩)
      cases hbuild : catalog.build variant with
      | error f =>
        rw [hbuild] at h
        cases h
        rfl
      | ok node =>
        rw [hbuild] at h
        cases h
    · cases h
      exact .inr (.inl ⟨_, rfl⟩)

/-- Choosing a type fails if there is no variant for it, or if it cannot be written. -/
theorem setType_eq_error {type : String} {c c' : Choice Node} {e : TreeError}
    (h : setType catalog type c = .error e c') :
    (variantFor catalog type c = .error e ∧ c' = c) ∨
      ∃ body, c.writeType type c.body = .error e body ∧ c' = { c with body } := by
  cases hvariant : variantFor catalog type c with
  | error f =>
    rw [setType_of_variantFor_error hvariant] at h
    cases h
    exact .inl ⟨rfl, rfl⟩
  | ok found =>
    obtain ⟨variant, node⟩ := found
    rw [setType_of_variantFor hvariant] at h
    split at h
    · cases h
    · next hwrite =>
      cases h
      exact .inr ⟨_, hwrite, rfl⟩

/-- Choosing a type is finding a variant for it, writing the type, and putting the variant in. -/
theorem setType_eq_ok {type : String} {c c' : Choice Node} (h : setType catalog type c = .ok () c') :
    ∃ variant node body, variantFor catalog type c = .ok (variant, node) ∧
      c.writeType type c.body = .ok () body ∧ c' = c.chosen type variant node body := by
  cases hvariant : variantFor catalog type c with
  | error e =>
    rw [setType_of_variantFor_error hvariant] at h
    cases h
  | ok found =>
    obtain ⟨variant, node⟩ := found
    rw [setType_of_variantFor hvariant] at h
    split at h
    · next hwrite =>
      cases h
      exact ⟨variant, node, _, rfl, hwrite, rfl⟩
    · cases h

theorem set_selector (catalog : Catalog) (value : Value) (c : Choice Node) :
    Choice.set catalog c.selector value c = setType catalog value.toText c := by
  unfold Choice.set
  show (if c.selector = c.selector then _ else _ : Edit (Choice Node) Unit) c = _
  rw [if_pos rfl]

theorem set_of_ne_selector {key : String} {c : Choice Node} (h : key ≠ c.selector)
    (value : Value) :
    Choice.set catalog key value c
      = Edit.through (fun body => { c with body }) (Spec.set key value) c.body := by
  rw [← inBody_eq]
  unfold Choice.set
  show (if key = c.selector then _ else _ : Edit (Choice Node) Unit) c = _
  rw [if_neg h]

end Choice

end SpecTree
