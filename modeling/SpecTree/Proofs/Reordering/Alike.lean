import SpecTree.Proofs.References.Expansion
import SpecTree.Proofs.Sound.Build

/-!
# Alike indexes and catalogs

Two indexes are alike if the same definition is registered under every name, wherever it stands.
What is made of an index then is alike as well. Main statements:

* `Index.Alike.expanded`: expanded definitions;
* `Index.Alike.eager_eq`: which definition is part of which;
* `Catalog.Alike.build`: the trees that are built, and the errors if they are not.
-/

namespace SpecTree

/-! ## Indexes -/

namespace Index

variable {i j : Index}

/-- The same definition is registered under every name. -/
def Alike (i j : Index) : Prop := ∀ name, i.find? name = j.find? name

namespace Alike

theorem contains (h : i.Alike j) : i.contains = j.contains := by
  funext name
  unfold Index.contains
  rw [h name]

/-- Indexes with the same definitions are alike with suffixes put in. -/
theorem withSuffixes (h : i.Alike j) : i.withSuffixes.Alike j.withSuffixes := by
  intro name
  rw [find?_withSuffixes, find?_withSuffixes, h name]

/-- The same definitions are part of a definition. -/
theorem eager_eq (h : i.Alike j) : i.Eager = j.Eager := by
  funext a b
  unfold Eager
  rw [h a, h.contains]

/-- A definition takes in the same definitions. -/
theorem expand (h : i.Alike j) (path : List String) (d : Definition) :
    i.expand path d = j.expand path d := by
  induction hn : remaining i.names path using Nat.strongRecOn generalizing path d with
  | _ n ih =>
  rw [expand_eq, expand_eq]
  congr 1
  funext expanded name
  unfold absorbInclude
  by_cases hpath : name ∈ path
  · rw [if_pos hpath, if_pos hpath]
  · rw [if_neg hpath, if_neg hpath, ← h name]
    cases hfound : i.find? name with
    | none => rfl
    | some included =>
      have hshort := remaining_append_lt (name_of_find? hfound).2 hpath
      show expanded.absorb _ = expanded.absorb _
      rw [ih _ (hn ▸ hshort) _ _ rfl]

/-- Indexes with the same definitions are alike when they are expanded. -/
theorem expanded (h : i.Alike j) : i.expanded.Alike j.expanded := by
  intro name
  rw [find?_expanded, find?_expanded, h name]
  congr 1
  funext d
  exact h.withSuffixes.expand _ _

end Alike

end Index

/-! ## Catalogs -/

namespace Catalog

/-- The same names, the same definition under each of them, and the same types for every choice. -/
structure Alike (c c' : Catalog) : Prop where
  names : c.names = c'.names
  find? : ∀ name, c.find? name = c'.find? name
  validTypes : ∀ typed field, c.validTypes typed field = c'.validTypes typed field

variable {c c' : Catalog}

theorem Alike.resolvable (h : c.Alike c') (name : String) :
    c.resolvable name = c'.resolvable name := by
  unfold Catalog.resolvable
  rw [show c.contains = c'.contains from Index.Alike.contains h.find?]

/-- Catalogs with the same definitions build the same trees. The induction follows the builder. -/
theorem Alike.buildBelow (h : c.Alike c') (path : List String) (name : String) :
    c.buildBelow path name = c'.buildBelow path name := by
  -- the builder asks for definitions by name, and both catalogs give the same:
  have hfind : ∀ name, c'.index.find? name = c.index.find? name := fun name => (h.find? name).symm
  fun_induction Catalog.buildBelow c path name with
  | case1 path name hform =>
    rw [Catalog.buildBelow]
    simp only [hform]
  | case2 path name element hform p hp =>
    rw [Catalog.buildBelow]
    simp only [hform, hp]
  | case3 path name element hform hp hresolvable =>
    rw [h.resolvable] at hresolvable
    rw [Catalog.buildBelow]
    simp only [hform, hp, if_pos hresolvable]
  | case4 path name element hform hp hresolvable =>
    rw [h.resolvable] at hresolvable
    rw [Catalog.buildBelow]
    simp only [hform, hp, if_neg hresolvable]
  | case5 path name d hd hpath hgeneric hlist =>
    rw [Catalog.buildBelow]
    split
    · next hform => exact (hgeneric hform).elim
    · next element hform => exact (hlist element hform).elim
    · split
      · rw [dif_pos hpath]
      · next hnone => rw [hfind, hd] at hnone; cases hnone
  | case6 path name d hd hpath hgeneric hlist ih =>
    rw [funext ih, Catalog.buildBelow]
    cases hform : SpecForm.ofName name with
    | generic => exact (hgeneric hform).elim
    | list element => exact (hlist element hform).elim
    | typed | plain =>
      dsimp only
      split
      · next d' hd' =>
        obtain rfl : d = d' := Option.some.inj (hd.symm.trans ((hfind name).symm.trans hd'))
        rw [dif_neg hpath]
      · next hnone => rw [hfind, hd] at hnone; cases hnone
  | case7 path name hnone field placement hgeneric hlist hform =>
    rw [Catalog.buildBelow]
    simp only [hform]
    split
    · next d hd => rw [hfind, hnone] at hd; cases hd
    · rfl
  | case8 path name hnone hgeneric hlist htyped =>
    rw [Catalog.buildBelow]
    split
    · next hform => exact (hgeneric hform).elim
    · next element hform => exact (hlist element hform).elim
    · split
      · next d hd => rw [hfind, hnone] at hd; cases hd
      · split
        · next field placement hform => exact (htyped field placement hform).elim
        · rfl

/-- **Alike catalogs build the same tree of every name, or refuse it with the same error.** -/
theorem Alike.build (h : c.Alike c') (name : String) : c.build name = c'.build name :=
  h.buildBelow [] name

end Catalog

end SpecTree
