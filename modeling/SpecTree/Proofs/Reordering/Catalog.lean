import Mathlib.Data.List.Nodup
import Mathlib.Data.List.Perm.Basic
import SpecTree.Proofs.Loading
import SpecTree.Proofs.References.Lookup
import SpecTree.Proofs.Reordering.Alike

/-!
# The order of definitions

Definitions of distinct names can be added to an index in any order: the index lists them in
another order then, and its catalog is alike. Main statements:

* `Index.mem_add_iff`: what an index holds after definitions of distinct names are added;
* `Variants.among_perm`: the variants among names do not depend on their order;
* `Index.alike_catalog_of_perm`: the catalogs of indexes that hold the same.
-/

namespace SpecTree

/-! ## Lists in another order -/

/-- Names are listed in ascending order in one way only. -/
theorem mergeSort_eq_of_perm {names names' : List String} (h : names.Perm names') :
    names.mergeSort (· ≤ ·) = names'.mergeSort (· ≤ ·) := by
  have hsorted : ∀ names : List String, (names.mergeSort (· ≤ ·)).Pairwise (· ≤ ·) := fun names =>
    (List.pairwise_mergeSort (by simpa using fun _ _ _ => Std.le_trans)
      (by simpa using fun _ _ => Std.le_total) names).imp of_decide_eq_true
  have hperm := (List.mergeSort_perm names (· ≤ ·)).trans
    (h.trans (List.mergeSort_perm names' (· ≤ ·)).symm)
  exact hperm.eq_of_pairwise (fun _ _ _ _ => Std.le_antisymm) (hsorted names) (hsorted names')

/-! ## Indexes -/

namespace Index

theorem map_name_insertInto (d : Definition) (ds : List Definition) :
    (insertInto d ds).map (·.name) =
      if d.name ∈ ds.map (·.name) then ds.map (·.name) else ds.map (·.name) ++ [d.name] := by
  induction ds with
  | nil => rfl
  | cons e ds ih =>
    unfold insertInto
    by_cases he : e.name = d.name
    · simp [he]
    · rw [if_neg he, List.map_cons, ih]
      by_cases hmem : d.name ∈ ds.map (·.name)
      · simp [hmem]
      · simp [hmem, Ne.symm he]

theorem nodup_names_insert {index : Index} (h : index.names.Nodup) (d : Definition) :
    (index.insert d).names.Nodup := by
  show ((insertInto d index.definitions).map (·.name)).Nodup
  rw [map_name_insertInto]
  split
  · exact h
  · next hnew => exact h.append (List.nodup_singleton _) (List.disjoint_singleton.2 hnew)

/-- A definition takes the place of the one of its name. -/
theorem mem_insertInto_iff {d e : Definition} {ds : List Definition}
    (h : (ds.map (·.name)).Nodup) :
    e ∈ insertInto d ds ↔ e = d ∨ e ∈ ds ∧ e.name ≠ d.name := by
  induction ds with
  | nil => simp [insertInto]
  | cons f ds ih =>
    obtain ⟨hf, hds⟩ := List.nodup_cons.1 h
    unfold insertInto
    by_cases hname : f.name = d.name
    · -- no other definition has this name:
      have hother : ∀ g ∈ ds, g.name ≠ d.name := fun g hg hg' =>
        hf (List.mem_map.2 ⟨g, hg, hg'.trans hname.symm⟩)
      rw [if_pos hname, List.mem_cons, List.mem_cons]
      grind
    · rw [if_neg hname, List.mem_cons, List.mem_cons, ih hds]
      grind

/-- **After definitions of distinct names are added, an index holds them, and what it held under
other names.** -/
theorem mem_add_iff {index : Index} (hindex : index.names.Nodup) {ds : List Definition}
    (h : (ds.map (·.name)).Nodup) {e : Definition} :
    e ∈ (index.add ds).1.definitions ↔
      e ∈ ds ∨ e ∈ index.definitions ∧ e.name ∉ ds.map (·.name) := by
  induction ds generalizing index with
  | nil => simp [add]
  | cons d ds ih =>
    obtain ⟨hd, hds⟩ := List.nodup_cons.1 h
    show e ∈ ((index.insert d).add ds).1.definitions ↔ _
    rw [ih (nodup_names_insert hindex d) hds]
    show e ∈ ds ∨ e ∈ insertInto d index.definitions ∧ _ ↔ _
    rw [mem_insertInto_iff hindex, List.map_cons, List.mem_cons, List.mem_cons]
    grind

theorem nodup_names_add {index : Index} (h : index.names.Nodup) (ds : List Definition) :
    (index.add ds).1.names.Nodup := by
  induction ds generalizing index with
  | nil => exact h
  | cons d ds ih => exact ih (nodup_names_insert h d)

/-- Definitions of distinct names can be added in any order. -/
theorem perm_add {index : Index} (hindex : index.names.Nodup) {ds es : List Definition}
    (hnodup : (ds.map (·.name)).Nodup) (h : ds.Perm es) :
    (index.add ds).1.definitions.Perm (index.add es).1.definitions := by
  have hnames := h.map (·.name)
  refine (List.perm_ext_iff_of_nodup (nodup_names_add hindex ds).of_map
    (nodup_names_add hindex es).of_map).2 fun e => ?_
  rw [mem_add_iff hindex hnodup, mem_add_iff hindex (hnames.nodup_iff.1 hnodup), h.mem_iff,
    hnames.mem_iff]

variable {i j : Index}

theorem find?_eq_some_iff (h : i.names.Nodup) {name : String} {d : Definition} :
    i.find? name = some d ↔ d ∈ i.definitions ∧ d.name = name :=
  find?_eq_some_iff_of_injOn fun _ hd _ he => List.inj_on_of_nodup_map h hd he

/-- The same definition has a name, wherever it stands. -/
theorem alike_of_perm (hnodup : i.names.Nodup) (h : i.definitions.Perm j.definitions) :
    i.Alike j := by
  intro name
  refine Option.ext fun d => ?_
  rw [find?_eq_some_iff hnodup, find?_eq_some_iff ((h.map _).nodup_iff.1 hnodup), h.mem_iff]

end Index

/-! ## Variants -/

namespace Variants

/-- The places of different types do not depend on which of them is put in first. -/
theorem insert_comm {t u : String} (h : t ≠ u) (s v : String) (variants : Variants) :
    Variants.insert t s (Variants.insert u v variants) =
      Variants.insert u v (Variants.insert t s variants) := by
  induction variants with
  | nil => grind [Variants.insert]
  | cons first rest ih => grind [Variants.insert]

/-- The variants among names do not depend on the order of the names. -/
theorem among_perm (typed field : String) {names names' : List String} (h : names.Perm names') :
    among typed field names = among typed field names' := by
  refine h.foldl_eq' (fun name _ name' _ found => ?_) []
  cases hname : typeOf? typed field name with
  | none => rfl
  | some type =>
    cases hname' : typeOf? typed field name' with
    | none => rfl
    | some type' =>
      by_cases htype : type = type'
      · -- a type is that of one name only:
        rw [← variantName_of_typeOf? hname, ← variantName_of_typeOf? hname', htype]
      · exact insert_comm (Ne.symm htype) _ _ found

end Variants

/-! ## Catalogs -/

namespace Index

variable {i j : Index}

theorem mem_typedNames_of_perm (h : i.definitions.Perm j.definitions) (entry : String × String) :
    entry ∈ i.typedNames ↔ entry ∈ j.typedNames := by
  have hmentioned : i.mentioned.Perm j.mentioned := h.flatMap_right _
  rw [mem_typedNames_iff, mem_typedNames_iff, (hmentioned.map _).mem_iff]

theorem find?_typedNames_of_perm (h : i.definitions.Perm j.definitions) (typed : String) :
    i.typedNames.find? (·.1 = typed) = j.typedNames.find? (·.1 = typed) := by
  have hkey : ∀ index : Index, ∀ e ∈ index.typedNames, ∀ f ∈ index.typedNames, e.1 = f.1 → e = f :=
    fun _ _ he _ hf => (mem_typedNames_iff.1 he).2.eq_of_name (mem_typedNames_iff.1 hf).2
  refine Option.ext fun entry => ?_
  rw [find?_eq_some_iff_of_injOn (hkey i), find?_eq_some_iff_of_injOn (hkey j),
    mem_typedNames_of_perm h]

/-- **Indexes with the same definitions of distinct names have alike catalogs.** -/
theorem alike_catalog_of_perm (hnodup : i.names.Nodup) (h : i.definitions.Perm j.definitions) :
    i.catalog.Alike j.catalog := by
  have hnames : i.names.Perm j.names := h.map _
  constructor
  · show i.expanded.names.mergeSort _ = j.expanded.names.mergeSort _
    rw [names_expanded, names_expanded, mergeSort_eq_of_perm hnames]
  · exact (alike_of_perm hnodup h).expanded
  · intro typed field
    rw [validTypes_catalog, validTypes_catalog, find?_typedNames_of_perm h,
      Variants.among_perm _ _ hnames]

end Index

end SpecTree
