import Mathlib.Data.List.Flatten
import Mathlib.Data.List.Perm.Basic
import SpecTree.Proofs.References.Closure
import SpecTree.Proofs.Suffix.Building

/-!
# Keys and suffixes that are inherited

Each definition gets the suffixes for its keys by itself, before its includes are taken in. It then
counts only what the definition itself declares: a key is given an alternative also where its suffix
is declared in another definition that is taken in with it. Main statements:

* `Index.perm_withSuffixes_iff`: taking in the includes first gives the same parts exactly if every
  suffix is declared beside its key;
* `Index.not_perm_withSuffixes`: they differ where an including definition declares the suffix.
-/

namespace SpecTree

/-! ## Plain parameters -/

/-- The declarations of a part that are neither in alternatives nor under a condition. -/
def Part.plain : Part → List Declaration
  | parameters ds => ds
  | _ => []

namespace Definition

/-- The parameters of a definition that are neither in alternatives nor under a condition. -/
def plain (d : Definition) : List Declaration := d.parts.flatMap Part.plain

/-- The names that a definition declares. -/
def declaredNames (d : Definition) : List String := d.declarations.map (·.name)

variable {d e : Definition} {p : Declaration} {part : Part}

theorem plain_withoutKeys (d : Definition) (part : Part) :
    (d.withoutKeys part).flatMap Part.plain
      = part.plain.filter fun p => (d.suffix? p.name).isNone := by
  cases part with
  | parameters ds =>
    unfold withoutKeys
    simp only
    split
    · next hempty => exact (List.isEmpty_iff.1 hempty).symm
    · exact List.flatMap_singleton _ _
  | oneOf branches => rfl
  | conditional condition yes no => rfl

theorem plain_alternatives (d : Definition) (part : Part) :
    (d.alternatives part).flatMap Part.plain = [] := by
  cases part with
  | parameters ds =>
    refine List.flatMap_eq_nil_iff.2 fun alternative halternative => ?_
    obtain ⟨key, -, hkey⟩ := List.mem_filterMap.1 halternative
    obtain ⟨name, -, rfl⟩ := Option.map_eq_some_iff.1 hkey
    rfl
  | oneOf branches => rfl
  | conditional condition yes no => rfl

/-- Plain parameters stay plain if they are no keys, or their suffixes are declared. -/
theorem plain_withSuffixes (d : Definition) :
    d.withSuffixes.plain = d.plain.filter fun p => (d.suffix? p.name).isNone := by
  unfold plain
  rw [parts_withSuffixes, List.flatMap_append, List.flatMap_assoc, List.flatMap_assoc]
  simp only [plain_withoutKeys, plain_alternatives]
  rw [List.filter_flatMap]
  simp

/-! ## Suffixes that are declared -/

theorem suffix?_eq_filter (d : Definition) (p : Declaration) :
    d.suffix? p.name = p.suffixName?.filter (· ∉ d.declaredNames) := rfl

/-- A parameter gets no suffix if it is no key, or if its suffix is declared. -/
theorem isNone_suffix?_iff :
    (d.suffix? p.name).isNone ↔ ∀ s, p.suffixName? = some s → s ∈ d.declaredNames := by
  rw [suffix?_eq_filter, Option.isNone_iff_eq_none, Option.filter_eq_none_iff]
  simp only [decide_eq_true_eq, Decidable.not_not]

/-- A definition that declares more gives the same suffix, unless it declares it. -/
theorem suffix?_eq_of_subset (hsub : d.declaredNames ⊆ e.declaredNames)
    (h : ∀ s, p.suffixName? = some s → s ∈ e.declaredNames → s ∈ d.declaredNames) :
    d.suffix? p.name = e.suffix? p.name := by
  rw [suffix?_eq_filter, suffix?_eq_filter]
  cases hs : p.suffixName? with
  | none => rfl
  | some s =>
    have hsame : s ∈ d.declaredNames ↔ s ∈ e.declaredNames := ⟨fun hd => hsub hd, h s hs⟩
    simp only [Option.filter_some, hsame]

theorem split_congr (h : ∀ p ∈ part.plain, d.suffix? p.name = e.suffix? p.name) :
    d.withoutKeys part = e.withoutKeys part ∧ d.alternatives part = e.alternatives part := by
  cases part with
  | parameters ds =>
    have hkept : (ds.filter fun p => (d.suffix? p.name).isNone)
        = ds.filter fun p => (e.suffix? p.name).isNone :=
      List.filter_congr fun p hp => by rw [h p hp]
    refine ⟨?_, List.filterMap_congr fun p hp => by rw [h p hp]⟩
    unfold withoutKeys
    simp only [hkept]
  | oneOf branches => exact ⟨rfl, rfl⟩
  | conditional condition yes no => exact ⟨rfl, rfl⟩

end Definition

/-- Sublists that are together as long as the lists are the lists themselves. -/
theorem eq_of_length_flatMap {α β : Type} {f g : α → List β} {xs : List α}
    (hsub : ∀ x ∈ xs, (f x).Sublist (g x))
    (hlength : (xs.flatMap f).length = (xs.flatMap g).length) : ∀ x ∈ xs, f x = g x := by
  induction xs with
  | nil => exact List.forall_mem_nil _
  | cons x xs ih =>
    obtain ⟨hx, hxs⟩ := List.forall_mem_cons.1 hsub
    rw [List.flatMap_cons, List.flatMap_cons, List.length_append, List.length_append] at hlength
    have hfirst : (f x).length ≤ (g x).length := hx.length_le
    have hrest : (xs.flatMap f).length ≤ (xs.flatMap g).length :=
      (List.Sublist.flatMap_right xs hxs).length_le
    refine List.forall_mem_cons.2 ⟨hx.eq_of_length ?_, ih hxs ?_⟩ <;> omega

/-! ## Definitions taken together -/

namespace Definition

section

variable {vs : List Definition} {j : Definition} (hj : j.parts = vs.flatMap (·.parts))
include hj

theorem mem_declaredNames_of_parts {s : String} :
    s ∈ j.declaredNames ↔ ∃ v ∈ vs, s ∈ v.declaredNames := by
  unfold declaredNames declarations
  rw [hj]
  simp only [List.map_flatMap, List.flatMap_assoc, List.mem_flatMap]

theorem subset_declaredNames_of_parts {v : Definition} (hv : v ∈ vs) :
    v.declaredNames ⊆ j.declaredNames := fun _ hs => (mem_declaredNames_of_parts hj).2 ⟨v, hv, hs⟩

/-- If the parts are the same, then no suffix that is missing beside its key is declared elsewhere:
what stays plain is counted, and it is never more if each definition is taken by itself. -/
theorem declared_of_perm (hperm : (vs.flatMap (·.withSuffixes.parts)).Perm j.withSuffixes.parts)
    {v w : Definition} (hv : v ∈ vs) (hw : w ∈ vs) {p : Declaration} (hp : p ∈ v.plain) {s : String}
    (hs : p.suffixName? = some s) (hdeclared : s ∈ w.declaredNames) : s ∈ v.declaredNames := by
  have hlength : (vs.flatMap fun v => v.withSuffixes.plain).length = j.withSuffixes.plain.length := by
    have hplain := (hperm.flatMap_right Part.plain).length_eq
    rwa [List.flatMap_assoc] at hplain
  have hplain : j.plain = vs.flatMap (·.plain) := by
    unfold plain
    rw [hj, List.flatMap_assoc]
  simp only [plain_withSuffixes, hplain, List.filter_flatMap] at hlength
  have hfewer : ∀ v ∈ vs, (v.plain.filter fun p => (v.suffix? p.name).isNone).Sublist
      (v.plain.filter fun p => (j.suffix? p.name).isNone) := fun v hv =>
    List.monotone_filter_right _ fun p hp => isNone_suffix?_iff.2 fun s hs =>
      subset_declaredNames_of_parts hj hv (isNone_suffix?_iff.1 hp s hs)
  have hkept : p ∈ v.plain.filter fun p => (j.suffix? p.name).isNone := by
    refine List.mem_filter.2 ⟨hp, isNone_suffix?_iff.2 fun s' hs' => ?_⟩
    obtain rfl : s = s' := Option.some.inj (hs.symm.trans hs')
    exact subset_declaredNames_of_parts hj hw hdeclared
  rw [← eq_of_length_flatMap hfewer hlength v hv] at hkept
  exact isNone_suffix?_iff.1 (List.mem_filter.1 hkept).2 s hs

/-- If a suffix is declared beside its key or nowhere, then every key is treated alike in its own
definition and in all of them together. -/
theorem perm_of_declared (h : ∀ v ∈ vs, ∀ w ∈ vs, ∀ p ∈ v.plain, ∀ s, p.suffixName? = some s →
    s ∈ w.declaredNames → s ∈ v.declaredNames) :
    (vs.flatMap (·.withSuffixes.parts)).Perm j.withSuffixes.parts := by
  have hsplit : ∀ v ∈ vs, ∀ part ∈ v.parts,
      v.withoutKeys part = j.withoutKeys part ∧ v.alternatives part = j.alternatives part := by
    intro v hv part hpart
    refine split_congr fun p hp => ?_
    refine suffix?_eq_of_subset (subset_declaredNames_of_parts hj hv) fun s hs hdeclared => ?_
    obtain ⟨w, hw, hdeclared⟩ := (mem_declaredNames_of_parts hj).1 hdeclared
    exact h v hv w hw p (List.mem_flatMap.2 ⟨part, hpart, hp⟩) s hs hdeclared
  have hparts : vs.flatMap (·.withSuffixes.parts)
      = vs.flatMap fun v => v.parts.flatMap j.withoutKeys ++ v.parts.flatMap j.alternatives := by
    refine List.flatMap_congr fun v hv => ?_
    rw [parts_withSuffixes]
    congr 1
    · exact List.flatMap_congr fun part hpart => (hsplit v hv part hpart).1
    · exact List.flatMap_congr fun part hpart => (hsplit v hv part hpart).2
  rw [hparts, parts_withSuffixes, hj, List.flatMap_assoc, List.flatMap_assoc]
  exact (List.flatMap_append_perm vs _ _).symm

end

end Definition

namespace Index

variable {index : Index} {name : String} {d : Definition}

/-! ## Two orders -/

/-- The definition with everything that it includes, taken together before keys get suffixes. -/
def joined (index : Index) (d : Definition) : Definition := index.expand [d.name] d

theorem parts_joined (hd : index.find? name = some d) :
    (index.joined d).parts = (d :: index.inclusions [name] d).flatMap (·.parts) := by
  unfold joined
  rw [(name_of_find? hd).1, expand_eq_foldl, Definition.parts_foldl_absorb]

/-- **Suffixes before includes, or after them: the parts are the same, up to their order, exactly if
no plain key has its suffix declared in one of the definitions that are taken together, but not in
its own.** -/
theorem perm_withSuffixes_iff (hd : index.find? name = some d) :
    ∃ e, index.catalog.find? name = some e ∧
      (e.parts.Perm (index.joined d).withSuffixes.parts ↔
        ∀ v w, index.Comprises name v → index.Comprises name w → ∀ p ∈ v.plain,
          ∀ s, p.suffixName? = some s → s ∈ w.declaredNames → s ∈ v.declaredNames) := by
  refine ⟨_, find?_catalog hd, ?_⟩
  have hjoined : (index.joined d).parts = (d :: index.inclusions [name] d).flatMap (·.parts) :=
    parts_joined hd
  rw [Definition.parts_foldl_absorb, ← List.map_cons, List.flatMap_map]
  simp only [← mem_inclusions_iff hd]
  constructor
  · intro hperm v w hv hw p hp s hs hdeclared
    exact Definition.declared_of_perm hjoined hperm hv hw hp hs hdeclared
  · intro h
    exact Definition.perm_of_declared hjoined fun v hv w hw => h v w hv hw

/-- A key, a definition that includes it and declares its suffix, and one that does not. -/
def exampleKeys : Index :=
  (Registry.ofLines ["``[a-spec]``", "* `\"temperature suffix`\" ``[string]``", "* ``[b-spec]``", "",
    "``[b-spec]``", "* `\"temperature key`\" ``[string]``", "", "``[c-spec]``",
    "* `\"x`\" ``[int]``", "* ``[b-spec]``"]).index

theorem perm_withSuffixes_iff_exampleKeys :
    ∃ d e, exampleKeys.find? "c-spec" = some d ∧ exampleKeys.catalog.find? "c-spec" = some e ∧
      e.parts.Perm (exampleKeys.joined d).withSuffixes.parts := by
  obtain ⟨d, hd, hdeclared⟩ := (Option.any_eq_true _ _).1
    (by decide +kernel : (exampleKeys.find? "c-spec").any (fun d =>
      (d :: exampleKeys.inclusions ["c-spec"] d).all fun v => v.plain.all fun p =>
        p.suffixName?.all fun s => (d :: exampleKeys.inclusions ["c-spec"] d).all fun w =>
          s ∉ w.declaredNames || s ∈ v.declaredNames) = true)
  obtain ⟨e, he, hiff⟩ := perm_withSuffixes_iff hd
  refine ⟨d, e, hd, he, hiff.2 fun v w hv hw p hp s hs hdeclaredThere => ?_⟩
  simp only [List.all_eq_true, Option.all_eq_true, Bool.or_eq_true, decide_eq_true_eq] at hdeclared
  have hdecided := hdeclared v ((mem_inclusions_iff hd).2 hv) p hp s hs w ((mem_inclusions_iff hd).2 hw)
  exact hdecided.resolve_left fun hnot => hnot hdeclaredThere

/-- The key that is inherited gets an alternative, although its suffix is declared where it is
inherited. -/
theorem not_perm_withSuffixes :
    ∃ d e, exampleKeys.find? "a-spec" = some d ∧ exampleKeys.catalog.find? "a-spec" = some e ∧
      "temperature suffix" ∈ d.declaredNames ∧
      ¬ e.parts.Perm (exampleKeys.joined d).withSuffixes.parts := by
  obtain ⟨d, hd, hrest⟩ := (Option.any_eq_true _ _).1
    (by decide +kernel : (exampleKeys.find? "a-spec").any (fun d =>
      (exampleKeys.catalog.find? "a-spec").any fun e =>
        decide ("temperature suffix" ∈ d.declaredNames ∧
          ¬ e.parts.Perm (exampleKeys.joined d).withSuffixes.parts)) = true)
  obtain ⟨e, he, hdiffers⟩ := (Option.any_eq_true _ _).1 hrest
  obtain ⟨hdeclared, hnot⟩ := of_decide_eq_true hdiffers
  exact ⟨d, e, hd, he, hdeclared, hnot⟩

end Index

end SpecTree
