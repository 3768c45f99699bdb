import SpecTree.Proofs.References.Expansion
import SpecTree.Result
import SpecTree.Tree.Build

/-!
# Variants are registered

The types of a choice stand for registered names that are neither those of lists nor of choices.
Main statement: `Index.hasPlainVariants_catalog`; `Catalog.exists_of_build_plain`, what is
built of a plain name is the spec of its definition.
-/

namespace SpecTree

namespace Variants

/-- Putting a variant in brings in no other entry. -/
theorem mem_insert {type spec : String} {entry : String × String} {variants : Variants}
    (h : entry ∈ Variants.insert type spec variants) : entry = (type, spec) ∨ entry ∈ variants := by
  induction variants with
  | nil => exact .inl (List.mem_singleton.1 h)
  | cons first rest ih =>
    obtain ⟨t, s⟩ := first
    unfold Variants.insert at h
    split at h
    · exact List.mem_cons.1 h
    · split at h
      · exact (List.mem_cons.1 h).imp_right (List.mem_cons_of_mem _)
      · rcases List.mem_cons.1 h with rfl | h
        · exact .inr List.mem_cons_self
        · exact (ih h).imp_right (List.mem_cons_of_mem _)

/-- Only plain names are types of a field. -/
theorem ofName_of_typeOf? {typed field name type : String}
    (h : typeOf? typed field name = some type) : SpecForm.ofName name = .plain := by
  unfold typeOf? at h
  split at h
  · cases h
  · next hname => exact Decidable.of_not_not (not_or.1 hname).2

/-- A variant is one of the names, and a plain one. -/
theorem mem_among {typed field : String} {names : List String} {entry : String × String}
    (h : entry ∈ among typed field names) :
    entry.2 ∈ names ∧ SpecForm.ofName entry.2 = .plain := by
  have hnil : ∀ e ∈ ([] : Variants), e.2 ∈ names ∧ SpecForm.ofName e.2 = .plain :=
    List.forall_mem_nil _
  refine List.foldlRecOn (motive := fun found => ∀ e ∈ found,
    e.2 ∈ names ∧ SpecForm.ofName e.2 = .plain) names _ hnil ?_ entry h
  intro found hfound name hname e he
  split at he
  · next htype =>
    rcases mem_insert he with rfl | he
    · exact ⟨hname, ofName_of_typeOf? htype⟩
    · exact hfound e he
  · exact hfound e he

theorem mem_of_find? {variants : Variants} {type variant : String}
    (h : variants.find? type = some variant) : ∃ entry ∈ variants, entry.2 = variant := by
  obtain ⟨entry, hentry, hvariant⟩ := Option.map_eq_some_iff.1 h
  exact ⟨entry, List.mem_of_find?_eq_some hentry, hvariant⟩

end Variants

namespace Catalog

/-- Every type of a choice stands for a registered name that is looked up. -/
def HasPlainVariants (catalog : Catalog) : Prop :=
  ∀ typed field type variant, (catalog.validTypes typed field).find? type = some variant →
    catalog.contains variant = true ∧ SpecForm.ofName variant = .plain

theorem hasPlainVariants_empty : empty.HasPlainVariants := by
  intro typed field type variant h
  cases h

/-- A plain name is built from its definition. -/
theorem exists_of_build_plain {catalog : Catalog} {name : String} {n : Node}
    (hname : SpecForm.ofName name = .plain) (h : catalog.build name = .ok n) :
    ∃ d s make, catalog.index.find? name = some d ∧ d.build make = .ok s ∧ n = .spec s := by
  rw [build, buildBelow] at h
  simp only [hname] at h
  split at h
  · next d hd =>
    rw [dif_neg List.not_mem_nil] at h
    obtain ⟨s, hs, hpure⟩ := bind_eq_ok.1 h
    cases hpure
    exact ⟨d, s, _, hd, hs, rfl⟩
  · cases h

end Catalog

namespace Index

/-- **The variants of a catalog are registered, under plain names.** -/
theorem hasPlainVariants_catalog (index : Index) : index.catalog.HasPlainVariants := by
  have hamong : ∀ {typed field type variant},
      (Variants.among typed field index.names).find? type = some variant →
        index.catalog.contains variant = true ∧ SpecForm.ofName variant = .plain := by
    intro typed field type variant h
    obtain ⟨entry, hentry, rfl⟩ := Variants.mem_of_find? h
    obtain ⟨hmem, hplain⟩ := Variants.mem_among hentry
    exact ⟨(contains_expanded index _).trans (contains_iff_mem_names.2 hmem), hplain⟩
  intro typed field type variant h
  unfold Catalog.validTypes at h
  split at h
  · next found hfound =>
    -- variants that were found when the catalog was made:
    obtain ⟨choice, -, hchoice⟩ := List.mem_map.1 (List.mem_of_find?_eq_some hfound)
    cases hchoice
    exact hamong h
  · rw [show index.catalog.index.names = index.names from names_expanded index] at h
    exact hamong h

end Index

end SpecTree
