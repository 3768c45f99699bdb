import SpecTree.Proofs.Loading
import SpecTree.Proofs.Suffix.Conservative

/-!
# What is registered is handed out

If a load ends without a problem, then the tree of every registered name is that of its definition,
with every parameter that the definition declares. The names of lists are the exception, as they are
taken for lists before anything is looked up. Main statements:

* `Node.contains_ofSpec`: the tree of a name declares what its definition does;
* `Index.not_transGen_embeds`: nothing is embedded in itself, unless by way of a list's name;
* `Registry.get_of_finish`: what is given out for the registered names.
-/

namespace SpecTree

variable {ν : Type}

/-! ## What a tree declares -/

/-- Only the key itself is taken out of a component. -/
theorem Component.any_contains_without {key k : String} (hk : k ≠ key) (c : Component ν) :
    (c.without key).any (·.contains k) = c.contains k := by
  cases c with
  | oneOf o => rfl
  | conditional s => rfl
  | collection c =>
    have hleft : (c.remove key).contains k = c.contains k := by
      show (Parameter.find? (c.parameters.filter fun p => decide (p.name ≠ key)) k).isSome = _
      rw [Parameter.find?_filter_name fun name => decide (name ≠ key), if_pos (decide_eq_true hk)]
      rfl
    rw [without_collection]
    split
    · next hempty =>
      have hnil : (c.remove key).parameters = [] := List.isEmpty_iff.1 hempty
      show false = c.contains k
      rw [← hleft, Collection.contains, Collection.parameter?, hnil]
      rfl
    · exact hleft

theorem Spec.contains_removeParameter {key k : String} (hk : k ≠ key) (s : Spec ν) :
    (s.removeParameter key).contains k = s.contains k := by
  rw [contains, Component.components_removeParameter, List.any_filterMap]
  exact congrArg s.components.any (funext (Component.any_contains_without hk))

/-- A choice declares what is registered under its name, and its selector. -/
theorem Choice.contains_ofField (name field : String) (placement : Placement) {s : Spec ν}
    {k : String} (h : s.contains k = true) :
    (Choice.ofField name field placement (some s)).contains k = true := by
  by_cases hk : k = selectorOf field
  · exact Bool.or_eq_true_iff.2 (.inl (decide_eq_true hk))
  · refine Bool.or_eq_true_iff.2 (.inr ?_)
    rw [← Spec.contains_removeParameter hk] at h
    show List.any (_ ++ (s.removeParameter (selectorOf field)).components) _ = true
    rw [List.any_append, Bool.or_eq_true]
    exact .inr h

/-- The tree of a name declares what is registered under it. -/
theorem Node.contains_ofSpec (name : String) {s : Spec Node} {k : String}
    (h : s.contains k = true) : (Node.ofSpec name s).contains k = true := by
  unfold ofSpec
  split
  · exact Choice.contains_ofField name _ _ h
  · exact h

namespace Index

variable {index : Index}

/-! ## Circles through lists -/

/-- What is included is part of a part, unless the way leads through the name of a list. -/
theorem includes_cases {a c : String} (h : Relation.ReflTransGen index.Includes a c) :
    Relation.ReflTransGen index.Eager a c ∨
      ∃ b, (SpecForm.ofName b).isLookedUp = false ∧ Relation.TransGen index.Includes a b ∧
        Relation.ReflTransGen index.Includes b c := by
  induction h with
  | refl => exact .inl .refl
  | @tail c c' hbefore hstep ih =>
    rcases ih with heager | ⟨b, hb, hto, hfrom⟩
    · cases hc' : (SpecForm.ofName c').isLookedUp with
      | true => exact .inl (heager.tail (hstep.eager hc'))
      | false => exact .inr ⟨c', hc', .tail' hbefore hstep, .refl⟩
    · exact .inr ⟨b, hb, hto, hfrom.tail hstep⟩

theorem embeds_cases {a c : String} (h : Relation.TransGen index.Embeds a c) :
    Relation.TransGen index.Eager a c ∨
      ∃ z b, (SpecForm.ofName b).isLookedUp = false ∧ Relation.ReflTransGen index.Embeds a z ∧
        Relation.TransGen index.Includes z b ∧ Relation.TransGen index.Embeds b c := by
  have hstep : ∀ {x y}, index.Embeds x y → Relation.TransGen index.Eager x y ∨
      ∃ b, (SpecForm.ofName b).isLookedUp = false ∧ Relation.TransGen index.Includes x b ∧
        index.Embeds b y := by
    rintro x y ⟨d, hincludes, hholds⟩
    rcases includes_cases hincludes with heager | ⟨b, hb, hto, hfrom⟩
    · exact .inl (.tail' heager hholds.eager)
    · exact .inr ⟨b, hb, hto, d, hfrom, hholds⟩
  induction h with
  | single h =>
    rcases hstep h with heager | ⟨b, hb, hto, hfrom⟩
    · exact .inl heager
    · exact .inr ⟨a, b, hb, .refl, hto, .single hfrom⟩
  | @tail c c' hbefore h ih =>
    rcases ih with heager | ⟨z, b, hb, hz, hto, hfrom⟩
    · rcases hstep h with hlast | ⟨b, hb, hto, hfrom⟩
      · exact .inl (heager.trans hlast)
      · exact .inr ⟨c, b, hb, hbefore.to_reflTransGen, hto, .single hfrom⟩
    · exact .inr ⟨z, b, hb, hz, hto, hfrom.tail h⟩

/-- Does no definition of a list's name have a part that includes it, directly or not? -/
def ListsApart (index : Index) : Prop :=
  ∀ a b, Relation.TransGen index.Includes a b → (SpecForm.ofName b).isLookedUp = false →
    ¬ Relation.TransGen index.Embeds b a

/-- **Nothing is embedded in itself** if there is no circle of references, and none by way of an
include of a list's name either, which is not followed as a reference. -/
theorem not_transGen_embeds (hcycles : index.cycles = []) (hlists : index.ListsApart)
    (name : String) : ¬ Relation.TransGen index.Embeds name name := by
  intro hcircle
  rcases embeds_cases hcircle with heager | ⟨z, b, hb, hz, hto, hfrom⟩
  · exact cycles_eq_nil_iff.1 hcycles name heager
  · exact hlists z b hto hb (hfrom.trans_left hz)

/-- The tree of a registered name that is looked up is that of its definition. -/
theorem exists_build_ofSpec (hwf : ∀ d ∈ index.definitions, d.WellFormed)
    (hchecked : index.referenceProblems = []) (hlists : index.ListsApart) {name : String}
    (hname : (SpecForm.ofName name).isLookedUp = true) (hregistered : name ∈ index.names) :
    ∃ d s, index.catalog.find? name = some d ∧ d.build (index.catalog.buildBelow [name]) = .ok s ∧
      index.catalog.build name = .ok (.ofSpec name s) ∧
      ∀ p ∈ d.declarations, (Node.ofSpec name s).contains p.name = true := by
  -- an empty report means that no reference dangles and no cycle is eager:
  obtain ⟨hdangling, hcycles⟩ := List.append_eq_nil_iff.1 hchecked
  have hcontains : index.contains name = true := contains_iff_mem_names.2 hregistered
  have hresolvable : index.catalog.resolvable name = true := by
    rw [resolvable_catalog, Naming.resolvable_eq]
    cases hform : SpecForm.ofName name with
    | plain => exact hcontains
    | typed | generic => rfl
    | list element =>
      rw [hform] at hname
      cases hname
  obtain ⟨n, hn⟩ := exists_buildBelow hwf hdangling (not_transGen_embeds hcycles hlists) hresolvable
    (List.forall_mem_nil _)
  obtain ⟨d, hd⟩ := Option.isSome_iff_exists.1 ((contains_expanded index name).trans hcontains)
  have hbuild : index.catalog.buildBelow [] name
      = (d.build (index.catalog.buildBelow [name])).map (Node.ofSpec name) :=
    Catalog.buildBelow_eq_ofSpec hname hd List.not_mem_nil
  obtain ⟨s, hs, -⟩ := map_eq_ok.1 (hbuild.symm.trans hn)
  refine ⟨d, s, hd, hs, ?_, fun p hp => ?_⟩
  · rw [Catalog.build, hbuild, hs]
    rfl
  · have hdeclared := (Spec.contains_of_build (wellFormed_expanded hwf hd) hs p.name).2
      (List.mem_map_of_mem hp)
    exact Node.contains_ofSpec name hdeclared

end Index

/-! ## Finished registries -/

theorem Catalog.mem_names {catalog : Catalog} {name : String} :
    name ∈ catalog.names ↔ name ∈ catalog.index.names :=
  List.mem_mergeSort

/-- The type of a list's elements, by their name. -/
def Naming.elementType (element : String) : TypeRef :=
  (Primitive.ofName? element).elim (.spec element) .primitive

/-- The name of a list is taken for one, whatever is registered under it. -/
theorem Catalog.build_of_not_isLookedUp (catalog : Catalog) {name : String}
    (hname : (SpecForm.ofName name).isLookedUp = false) :
    catalog.build name = .ok (.spec .genericList) ∨
      ∃ element, SpecForm.ofName name = .list element ∧
        (catalog.build name = .ok (.list (.ofElement (Naming.elementType element))) ∨
          catalog.build name = .error (.unknownSpec element)) := by
  rw [build, buildBelow]
  cases hform : SpecForm.ofName name with
  | plain | typed field placement =>
    rw [hform] at hname
    cases hname
  | generic => exact .inl rfl
  | list element =>
    refine .inr ⟨element, rfl, ?_⟩
    unfold Naming.elementType
    simp only
    cases Primitive.ofName? element with
    | some p => exact .inl rfl
    | none =>
      simp only
      split
      · exact .inl rfl
      · exact .inr rfl

namespace Registry

/-- **If a load ends without a problem, then every registered name is built from its definition and
declares what that does**, unless it is the name of a list: that is taken for a free list or for a
list of its elements, of which there may be none. It is left out that a definition of a list's name
has a part that includes it. -/
theorem get_of_finish {r r' : Registry} (hr : r.Loaded) (hfinish : r.finish = (r', .ok []))
    (hlists : r'.index.ListsApart) {name : String} (hname : name ∈ r'.catalog.names) :
    ((SpecForm.ofName name).isLookedUp = true →
      ∃ d s, r'.catalog.find? name = some d ∧ d.build (r'.catalog.buildBelow [name]) = .ok s ∧
        r'.get name = .ok (.ofSpec name s) ∧
        ∀ p ∈ d.declarations, (Node.ofSpec name s).contains p.name = true) ∧
      ((SpecForm.ofName name).isLookedUp = false →
        r'.get name = .ok (.spec .genericList) ∨
          ∃ element, SpecForm.ofName name = .list element ∧
            (r'.get name = .ok (.list (.ofElement (Naming.elementType element))) ∨
              r'.get name = .error (.unknownSpec element))) := by
  have hread : ∀ d ∈ r.finish.1.index.definitions, d.WasRead := hr.finish.wasRead.index
  rw [hfinish] at hread
  -- the load has finished, with the catalog of its index:
  obtain ⟨hcatalog, hfinished, hproblems⟩ : r'.catalog = r'.index.catalog ∧ r'.isFinished = true ∧
      r'.index.referenceProblems = [] := by
    unfold finish at hfinish
    simp only at hfinish
    split at hfinish
    · next problems hchecked =>
      cases hfinish
      refine ⟨rfl, rfl, ?_⟩
      unfold Index.checkReferences at hchecked
      split at hchecked <;> simp_all
    · cases hfinish
  have hget : r'.get name = r'.index.catalog.build name := by
    rw [get, if_pos hfinished, hcatalog]
  rw [hget, hcatalog]
  constructor
  · intro hlookedUp
    have hregistered : name ∈ r'.index.names := by
      rw [Catalog.mem_names, hcatalog] at hname
      exact Index.names_expanded _ ▸ hname
    exact Index.exists_build_ofSpec (fun d hd => (hread d hd).wellFormed) hproblems hlists hlookedUp
      hregistered
  · exact Catalog.build_of_not_isLookedUp _

/-- A choice that includes a definition with the name of a list. -/
def exampleLists : Registry :=
  match (ofOptions .strict).loadLines "example.hh" ["``[foo-typed-spec]``", "* ``[int-list]``",
    "* `\"kind`\" ``[string]``", "", "``[foo-a-spec]``", "* `\"y`\" ``[int]``", "", "``[int-list]``",
    "* `\"x`\" ``[int]``"] with
  | .ok (r, _) => r
  | .error _ => ofOptions .strict

theorem loaded_exampleLists : exampleLists.Loaded := by
  unfold exampleLists
  split
  · next hload => exact .lines (.start .strict) hload
  · exact .start .strict

/-- The load ends without a problem. The choice declares what it includes, and the definition with the
name of a list has primitive parameters only. -/
theorem finish_exampleLists : exampleLists.finish.2 = .ok [] ∧
    exampleLists.finish.1.catalog.index.names = ["foo-typed-spec", "foo-a-spec", "int-list"] ∧
    exampleLists.finish.1.index.names = ["foo-typed-spec", "foo-a-spec", "int-list"] ∧
    (exampleLists.finish.1.index.find? "int-list").all (fun d =>
      d.includes = [] && d.declarations.all (·.type.specName? = none)) = true ∧
    (exampleLists.finish.1.catalog.find? "foo-typed-spec").all
      (·.declarations.any (·.name = "x")) = true ∧
    (exampleLists.finish.1.catalog.find? "int-list").any
      (·.declarations.any (·.name = "x")) = true := by decide +kernel

theorem listsApart_exampleLists : exampleLists.finish.1.index.ListsApart := by
  obtain ⟨-, -, hnames, hlist, -⟩ := finish_exampleLists
  have honly : ∀ b ∈ exampleLists.finish.1.index.names, (SpecForm.ofName b).isLookedUp = false →
      b = "int-list" := by
    rw [hnames]
    decide +kernel
  intro a b hab hb hba
  obtain ⟨_, -, hinclude⟩ := Relation.TransGen.tail'_iff.1 hab
  obtain rfl := honly b (Index.contains_iff_mem_names.1 hinclude.contains) hb
  obtain ⟨_, ⟨c, hincludes, d, hd, ⟨p, hp, htype⟩, -⟩, -⟩ := Relation.TransGen.head'_iff.1 hba
  rcases hincludes.cases_head with rfl | ⟨_, ⟨e, he, hmem, -⟩, -⟩
  · rw [hd, Option.all_some, Bool.and_eq_true, List.all_eq_true] at hlist
    have hnone := hlist.2 p hp
    rw [htype] at hnone
    cases hnone
  · rw [he, Option.all_some, Bool.and_eq_true] at hlist
    rw [of_decide_eq_true hlist.1] at hmem
    cases hmem

theorem get_of_finish_exampleLists :
    exampleLists.Loaded ∧ exampleLists.finish = (exampleLists.finish.1, .ok []) ∧
      exampleLists.finish.1.index.ListsApart ∧
      "foo-typed-spec" ∈ exampleLists.finish.1.catalog.names ∧
      ∃ n, exampleLists.finish.1.get "foo-typed-spec" = .ok n ∧ n.contains "x" = true := by
  obtain ⟨hok, hnames, -, -, hdeclared, -⟩ := finish_exampleLists
  have hfinish : exampleLists.finish = (exampleLists.finish.1, .ok []) := Prod.ext rfl hok
  have hname : "foo-typed-spec" ∈ exampleLists.finish.1.catalog.names := by
    rw [Catalog.mem_names, hnames]
    exact List.mem_cons_self
  obtain ⟨hbuilt, -⟩ := get_of_finish loaded_exampleLists hfinish listsApart_exampleLists hname
  obtain ⟨d, s, hd, -, hget, hcontains⟩ := hbuilt (by decide +kernel)
  refine ⟨loaded_exampleLists, hfinish, listsApart_exampleLists, hname, _, hget, ?_⟩
  rw [hd, Option.all_some, List.any_eq_true] at hdeclared
  obtain ⟨p, hp, hpname⟩ := hdeclared
  exact of_decide_eq_true hpname ▸ hcontains p hp

/-- A definition with the name of a list is registered, and not what is given out. -/
theorem not_get_of_finish : ∃ r r' : Registry, ∃ name d n, r.Loaded ∧ r.finish = (r', .ok []) ∧
    name ∈ r'.catalog.names ∧ r'.catalog.find? name = some d ∧ r'.get name = .ok n ∧
    ∃ p ∈ d.declarations, n.contains p.name = false := by
  obtain ⟨hok, hnames, -, -, -, hfound⟩ := finish_exampleLists
  have hname : "int-list" ∈ exampleLists.finish.1.catalog.names := by
    rw [Catalog.mem_names, hnames]
    decide
  obtain ⟨d, hd, hdeclared⟩ := (Option.any_eq_true _ _).1 hfound
  obtain ⟨p, hp, hpname⟩ := List.any_eq_true.1 hdeclared
  obtain ⟨n, hn, hnone⟩ := exampleLists.finish.1.exists_of_get "int-list" (!·.contains "x")
    (by decide +kernel)
  refine ⟨exampleLists, exampleLists.finish.1, "int-list", d, n, loaded_exampleLists,
    Prod.ext rfl hok, hname, hd, hn, p, hp, ?_⟩
  rw [of_decide_eq_true hpname]
  rwa [Bool.not_eq_true'] at hnone

end Registry

end SpecTree
