import SpecTree.Proofs.References.Circle
import SpecTree.Proofs.References.Expansion
import SpecTree.Proofs.References.Parts
import SpecTree.Proofs.Text

/-!
# Checked references suffice

If no problem with references is found in definitions that were read from comments, then a fresh
tree can be built of every name that can be resolved. Main statements:

* `Catalog.buildBelow_eq_ofSpec`: the tree of a name that is looked up is that of its definition;
* `Index.exists_buildBelow`: a name is built if nothing is embedded in itself;
* `Index.exists_build`: a name is built if its references were checked.
-/

namespace SpecTree

/-! ## Names -/

theorem Naming.suffix_of_withoutSuffix? {suffix name rest : String}
    (h : Text.withoutSuffix? suffix name = some rest) : suffix.toList <:+ name.toList := by
  rw [Text.withoutSuffix?_eq_some_iff.1 h, String.toList_append]
  exact List.suffix_append _ _

/-- Is the name that of a list, the free one or a list of elements? -/
def Naming.IsListName (name : String) : Prop :=
  name = genericList ∨ listSuffix.toList <:+ name.toList

instance (name : String) : Decidable (Naming.IsListName name) :=
  inferInstanceAs (Decidable (_ ∨ _))

/-- What does not have the name of a list is looked up. -/
theorem SpecForm.isLookedUp_ofName {name : String} (h : ¬ Naming.IsListName name) :
    (ofName name).isLookedUp = true := by
  unfold ofName
  rw [if_neg fun hname => h (.inl hname)]
  split
  · next element helement =>
    have hsuffix := (Option.filter_eq_some_iff.1 helement).1
    exact absurd (.inr (Naming.suffix_of_withoutSuffix? hsuffix)) h
  · split <;> rfl

theorem Naming.resolvable_eq (registered : String → Bool) (name : String) :
    resolvable registered name = match SpecForm.ofName name with
      | .generic | .typed .. => true
      | .list element => (Primitive.ofName? element).isSome || resolvable registered element
      | .plain => registered name := by
  rw [resolvable]
  split <;> simp_all

namespace Catalog

variable {catalog : Catalog} {name : String}

/-! ## One name -/

/-- A list is built of any elements that can be resolved. -/
theorem exists_buildBelow_list {element : String} (h : SpecForm.ofName name = .list element)
    (hresolvable : catalog.resolvable name = true) (path : List String) :
    ∃ n, catalog.buildBelow path name = .ok n := by
  rw [resolvable, Naming.resolvable_eq, h] at hresolvable
  rw [buildBelow]
  simp only [h]
  split
  · exact ⟨_, rfl⟩
  · next hprimitive =>
    have helement : catalog.resolvable element = true := by
      simpa [resolvable, hprimitive] using hresolvable
    rw [if_pos helement]
    exact ⟨_, rfl⟩

/-- What is no part of anything is built if it can be resolved, as it is a list or a choice. -/
theorem exists_buildBelow_of_not_isEager (hname : catalog.index.isEager name = false)
    (hresolvable : catalog.resolvable name = true) (path : List String) :
    ∃ n, catalog.buildBelow path name = .ok n := by
  unfold Index.isEager at hname
  cases hform : SpecForm.ofName name with
  | generic =>
    rw [buildBelow]
    simp only [hform]
    exact ⟨_, rfl⟩
  | list element => exact exists_buildBelow_list hform hresolvable path
  | typed field placement =>
    rw [hform] at hname
    have hnone : catalog.index.find? name = none := by
      simpa [Index.contains] using hname
    rw [buildBelow]
    simp only [hform]
    split
    · next d hd => simp [hnone] at hd
    · exact ⟨_, rfl⟩
  | plain =>
    rw [hform] at hname
    rw [resolvable, Naming.resolvable_eq, hform] at hresolvable
    rw [show catalog.index.contains name = true from hresolvable] at hname
    cases hname

end Catalog

/-- The tree of a name with a definition, given the spec that the definition describes. -/
def Node.ofSpec (name : String) (s : Spec Node) : Node :=
  match SpecForm.ofName name with
  | .typed field placement => .choice (.ofField name field placement (some s))
  | _ => .spec s

/-- The tree of a name is that of its definition. -/
theorem Catalog.buildBelow_eq_ofSpec {catalog : Catalog} {name : String} {d : Definition}
    (hname : (SpecForm.ofName name).isLookedUp = true) (hd : catalog.index.find? name = some d)
    {path : List String} (hpath : name ∉ path) :
    catalog.buildBelow path name
      = (d.build (catalog.buildBelow (path ++ [name]))).map (Node.ofSpec name) := by
  rw [buildBelow]
  unfold Node.ofSpec
  cases hform : SpecForm.ofName name with
  | generic | list element =>
    rw [hform] at hname
    cases hname
  | plain | typed field placement =>
    simp only
    split
    · next d' hd' =>
      obtain rfl : d = d' := Option.some.inj (hd.symm.trans hd')
      rw [dif_neg hpath]
      cases d.build (catalog.buildBelow (path ++ [name])) <;> rfl
    · next hnone => simp [hd] at hnone

namespace Index

variable {index : Index}

/-! ## References -/

theorem Includes.contains {a b : String} (h : index.Includes a b) : index.contains b = true := by
  obtain ⟨_, -, -, hb⟩ := h
  exact hb

/-- What a definition includes is part of it, unless it has the name of a list. -/
theorem Includes.eager {a b : String} (h : index.Includes a b)
    (hb : (SpecForm.ofName b).isLookedUp = true) : index.Eager a b := by
  obtain ⟨d, hd, hmem, hcontains⟩ := h
  exact ⟨d, _, hd, Definition.mem_references_of_includes hmem, hb, hcontains⟩

/-- Is the second of two names registered, and a parameter of the first? -/
def Holds (index : Index) (a b : String) : Prop :=
  ∃ d, index.find? a = some d ∧ (∃ p ∈ d.declarations, p.type = .spec b) ∧ index.isEager b = true

/-- Is the second of two names registered, and a parameter of the first or of what that includes? -/
def Embeds (index : Index) (a b : String) : Prop :=
  ∃ c, Relation.ReflTransGen index.Includes a c ∧ index.Holds c b

theorem Holds.eager {a b : String} (h : index.Holds a b) : index.Eager a b := by
  obtain ⟨d, hd, ⟨p, hp, htype⟩, hb⟩ := h
  rw [isEager_eq, Bool.and_eq_true] at hb
  exact ⟨d, _, hd, Definition.mem_references_of_declarations hp htype, hb⟩

/-- Where no definition has the name of a list, what is embedded is part of a part. -/
theorem Embeds.eager (hnames : ∀ name ∈ index.names, ¬ Naming.IsListName name) {a b : String}
    (h : index.Embeds a b) : Relation.TransGen index.Eager a b := by
  obtain ⟨c, hincludes, hholds⟩ := h
  have hparts : Relation.ReflTransGen index.Eager a c := by
    refine Relation.ReflTransGen.mono (fun x y hstep => ?_) _ _ hincludes
    have hy : y ∈ index.names := contains_iff_mem_names.1 hstep.contains
    exact hstep.eager (SpecForm.isLookedUp_ofName (hnames y hy))
  exact Relation.TransGen.tail' hparts hholds.eager

theorem resolvable_of_danglingReferences_eq_nil (h : index.danglingReferences = [])
    {name s : String} {d : Definition} {line : Nat} (hd : index.find? name = some d)
    (href : (s, line) ∈ d.references) : Naming.resolvable index.contains s = true := by
  have hnone := List.flatMap_eq_nil_iff.1 h d (List.mem_of_find?_eq_some hd)
  have href := List.filterMap_eq_nil_iff.1 hnone (s, line) href
  simpa using href

theorem resolvable_catalog (index : Index) (name : String) :
    index.catalog.resolvable name = Naming.resolvable index.contains name := by
  unfold Catalog.resolvable
  congr 1
  funext s
  exact contains_expanded index s

theorem isEager_expanded (index : Index) (name : String) :
    index.expanded.isEager name = index.isEager name := by
  rw [isEager_eq, isEager_eq, contains_expanded]

/-- What an expanded definition refers to can be resolved, and it is embedded unless it is a list or
not registered. -/
theorem reference_of_expanded (hdangling : index.danglingReferences = []) {name : String}
    {d : Definition} (hd : index.expanded.find? name = some d) {part : Part} (hpart : part ∈ d.parts)
    {p : Declaration} (hp : p ∈ part.declarations) {s : String} (hs : p.type = .spec s) :
    index.catalog.resolvable s = true ∧ (index.isEager s = true → index.Embeds name s) := by
  obtain ⟨name', d', hreach, hd', hpart'⟩ := exists_of_mem_expanded hd hpart
  have hdeclared := Definition.mem_declarations_of_withSuffixes hpart' hp hs
  constructor
  · rw [resolvable_catalog]
    exact resolvable_of_danglingReferences_eq_nil hdangling hd'
      (Definition.mem_references_of_declarations hdeclared hs)
  · exact fun heager => ⟨name', hreach, d', hd', ⟨p, hdeclared, hs⟩, heager⟩

theorem wellFormed_expanded (hwf : ∀ d ∈ index.definitions, d.WellFormed) {name : String}
    {d : Definition} (hd : index.expanded.find? name = some d) : d.WellFormed := by
  intro part hpart
  obtain ⟨name', d', -, hd', hpart'⟩ := exists_of_mem_expanded hd hpart
  exact (hwf d' (List.mem_of_find?_eq_some hd')).withSuffixes part hpart'

/-! ## Building -/

/-- Where nothing is embedded in itself, a name is built below definitions that it is embedded in. -/
theorem exists_buildBelow (hwf : ∀ d ∈ index.definitions, d.WellFormed)
    (hdangling : index.danglingReferences = [])
    (hacyclic : ∀ name, ¬ Relation.TransGen index.Embeds name name) {path : List String}
    {name : String} (hname : index.catalog.resolvable name = true)
    (hpath : ∀ p ∈ path, Relation.TransGen index.Embeds p name) :
    ∃ n, index.catalog.buildBelow path name = .ok n := by
  induction hn : remaining index.names path using Nat.strongRecOn generalizing path name with
  | _ n ih =>
  cases heager : index.isEager name with
  | false =>
    refine Catalog.exists_buildBelow_of_not_isEager ?_ hname path
    exact (isEager_expanded index name).trans heager
  | true =>
    rw [isEager_eq, Bool.and_eq_true] at heager
    obtain ⟨d, hd⟩ := Option.isSome_iff_exists.1 ((contains_expanded index name).trans heager.2)
    have hnew : name ∉ path := fun hmem => hacyclic name (hpath name hmem)
    have hshort := remaining_append_lt (contains_iff_mem_names.1 heager.2) hnew
    rw [Catalog.buildBelow_eq_ofSpec heager.1 hd hnew]
    -- the references of the definition are built with one name less to go:
    obtain ⟨s, hs⟩ : ∃ s, d.build (index.catalog.buildBelow (path ++ [name])) = .ok s := by
      apply Definition.exists_build (wellFormed_expanded hwf hd)
      intro part hpart p hp s hs
      obtain ⟨hs', hembeds⟩ := reference_of_expanded hdangling hd hpart hp hs
      cases hregistered : index.isEager s with
      | false =>
        refine Catalog.exists_buildBelow_of_not_isEager ?_ hs' _
        exact (isEager_expanded index s).trans hregistered
      | true =>
        have hstep := hembeds hregistered
        refine ih _ (hn ▸ hshort) hs' ?_ rfl
        exact List.forall_mem_append.2
          ⟨fun q hq => (hpath q hq).tail hstep, List.forall_mem_singleton.2 (.single hstep)⟩
    exact ⟨_, map_eq_ok.2 ⟨s, hs, rfl⟩⟩

/-- **A tree can be built of every name that can be resolved.** -/
theorem exists_build (hwf : ∀ d ∈ index.definitions, d.WellFormed)
    (hnames : ∀ name ∈ index.names, ¬ Naming.IsListName name)
    (hchecked : index.referenceProblems = []) {name : String}
    (hname : index.catalog.resolvable name = true) : ∃ n, index.catalog.build name = .ok n := by
  obtain ⟨hdangling, hcycles⟩ := List.append_eq_nil_iff.1 hchecked
  have hacyclic : ∀ name, ¬ Relation.TransGen index.Embeds name name := fun name hcircle =>
    cycles_eq_nil_iff.1 hcycles name
      (Relation.TransGen.closed (fun _ _ h => h.eager hnames) _ _ hcircle)
  exact exists_buildBelow hwf hdangling hacyclic hname (List.forall_mem_nil _)

end Index

end SpecTree
