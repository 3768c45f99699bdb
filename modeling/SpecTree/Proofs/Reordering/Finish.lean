import SpecTree.Proofs.References.Circle
import SpecTree.Proofs.Reordering.Catalog
import SpecTree.Registry

/-!
# The order of a load

Files are loaded in some order, and so definitions are staged in some order. As long as no name is
defined twice it does not matter: the same trees are built afterwards, and the same problems are
found. Only which circle of references is found, and how it is written, depends on where the walk
starts. Main statement: `Registry.finish_of_perm`.
-/

namespace SpecTree

/-- Is this a circle of references? -/
def LoadError.isCycle (e : LoadError) : Bool :=
  match e.problem with
  | .cycle _ => true
  | _ => false

/-! ## Problems with references -/

namespace Index

variable (index : Index)

theorem isCycle_closingError (path : List String) (name : String) :
    (index.closingError path name).isCycle = true := by
  unfold closingError
  dsimp only
  split <;> rfl

theorem isCycle_of_mem_cycles : ∀ e ∈ index.cycles, e.isCycle = true :=
  forall_mem_cycles fun path name _ _ => index.isCycle_closingError path name

/-- A reference that dangles is no cycle. -/
theorem isCycle_of_mem_danglingReferences : ∀ e ∈ index.danglingReferences, e.isCycle = false := by
  intro e he
  obtain ⟨d, -, he⟩ := List.mem_flatMap.1 he
  obtain ⟨⟨name, line⟩, -, he⟩ := List.mem_filterMap.1 he
  obtain ⟨-, he⟩ := Option.ite_none_left_eq_some.1 he
  cases he
  rfl

/-- The problems that are no circles are the dangling references. -/
theorem filter_referenceProblems :
    index.referenceProblems.filter (!·.isCycle) = index.danglingReferences := by
  have hdangling : index.danglingReferences.filter (!·.isCycle) = index.danglingReferences :=
    List.filter_eq_self.2 fun e he => by simp [index.isCycle_of_mem_danglingReferences e he]
  have hcycles : index.cycles.filter (!·.isCycle) = [] :=
    List.filter_eq_nil_iff.2 fun e he => by simp [index.isCycle_of_mem_cycles e he]
  rw [referenceProblems, List.filter_append, hdangling, hcycles, List.append_nil]

/-- There is a cycle among the problems exactly if one is found. -/
theorem any_isCycle_referenceProblems :
    index.referenceProblems.any (·.isCycle) = !index.cycles.isEmpty := by
  have hdangling : index.danglingReferences.any (·.isCycle) = false :=
    List.any_eq_false.2 fun e he => by simp [index.isCycle_of_mem_danglingReferences e he]
  rw [referenceProblems, List.any_append, hdangling, Bool.false_or]
  cases hcycles : index.cycles with
  | nil => rfl
  | cons e es => simp [index.isCycle_of_mem_cycles e (hcycles ▸ List.mem_cons_self)]

variable {i j : Index} {index}

/-- The references that dangle do not depend on the order of the definitions. -/
theorem danglingReferences_perm (hnodup : i.names.Nodup)
    (h : i.definitions.Perm j.definitions) : i.danglingReferences.Perm j.danglingReferences := by
  unfold danglingReferences
  rw [(alike_of_perm hnodup h).contains]
  exact h.flatMap_right _

/-- Whether there is a cycle does not depend on the order of the definitions. -/
theorem cycles_eq_nil_of_alike (h : i.Alike j) : i.cycles = [] ↔ j.cycles = [] := by
  rw [cycles_eq_nil_iff, cycles_eq_nil_iff, h.eager_eq]

end Index

/-! ## Finishing a load -/

/-- The same references are dangling, in whatever order, and there is a circle in both or in
neither. A check that ends with its first problem ends in both, and with the same kind of
problem. -/
inductive SameProblems :
    Except LoadError (List LoadError) → Except LoadError (List LoadError) → Prop
  | reported {problems problems' : List LoadError}
    (dangling : (problems.filter (!·.isCycle)).Perm (problems'.filter (!·.isCycle)))
    (circle : problems.any (·.isCycle) = problems'.any (·.isCycle)) :
    SameProblems (.ok problems) (.ok problems')
  | refused {e e' : LoadError} (kind : e.isCycle = e'.isCycle) : SameProblems (.error e) (.error e')

/-- A check that ends with its first problem names a dangling reference if there is one, and else
a circle. -/
theorem Index.checkReferences_raise (index : Index) :
    index.checkReferences .raise =
      match index.danglingReferences, index.cycles with
      | e :: _, _ => .error e
      | [], e :: _ => .error e
      | [], [] => .ok [] := by
  unfold checkReferences referenceProblems
  cases index.danglingReferences with
  | cons e es => rfl
  | nil => cases index.cycles <;> rfl

/-- Both orders are reported with the same problems, under every policy. -/
theorem Index.sameProblems_of_perm {i j : Index} (hnodup : i.names.Nodup)
    (h : i.definitions.Perm j.definitions) (policy : Policy) :
    SameProblems (i.checkReferences policy) (j.checkReferences policy) := by
  have hdangling := danglingReferences_perm hnodup h
  have hcycles := cycles_eq_nil_of_alike (alike_of_perm hnodup h)
  have hall : SameProblems (.ok i.referenceProblems) (.ok j.referenceProblems) := by
    refine .reported ?_ ?_
    · rw [filter_referenceProblems, filter_referenceProblems]
      exact hdangling
    · rw [any_isCycle_referenceProblems, any_isCycle_referenceProblems, Bool.eq_iff_iff]
      simp [hcycles]
  cases policy with
  | warn | ignore => exact hall
  | raise =>
    -- a list is empty on one side if it is on the other:
    rw [checkReferences_raise, checkReferences_raise]
    cases hds : i.danglingReferences with
    | cons d ds =>
      rw [hds] at hdangling
      obtain ⟨e, es, hes⟩ := List.exists_cons_of_ne_nil fun hnil : j.danglingReferences = [] =>
        List.cons_ne_nil d ds (hnil ▸ hdangling).eq_nil
      rw [hes]
      have hd := i.isCycle_of_mem_danglingReferences d (hds ▸ List.mem_cons_self)
      have he := j.isCycle_of_mem_danglingReferences e (hes ▸ List.mem_cons_self)
      exact .refused (hd.trans he.symm)
    | nil =>
      rw [hds] at hdangling
      rw [← hdangling.nil_eq]
      cases hcs : i.cycles with
      | cons c cs =>
        obtain ⟨c', cs', hcs'⟩ := List.exists_cons_of_ne_nil fun hnil : j.cycles = [] =>
          List.cons_ne_nil c cs (hcs.symm.trans (hcycles.2 hnil))
        rw [hcs']
        have hc := i.isCycle_of_mem_cycles c (hcs ▸ List.mem_cons_self)
        have hc' := j.isCycle_of_mem_cycles c' (hcs' ▸ List.mem_cons_self)
        exact .refused (hc.trans hc'.symm)
      | nil =>
        rw [hcycles.1 hcs]
        exact .reported .rfl rfl

namespace Registry

/-- **The order in which definitions of distinct names are staged does not matter:** afterwards the
catalogs are alike, the same problems with references are reported, and the same tree is given for
every name. An index never has a name twice (`Index.nodup_names_add`). -/
theorem finish_of_perm {r : Registry} (hindex : r.index.names.Nodup) {ds es : List Definition}
    (hnodup : (ds.map (·.name)).Nodup) (h : ds.Perm es) :
    (r.index.add ds).1.catalog.Alike (r.index.add es).1.catalog ∧
      (∀ policy, SameProblems ((r.index.add ds).1.checkReferences policy)
        ((r.index.add es).1.checkReferences policy)) ∧
      ∀ name, { r with pending := ds }.finish.1.get name
        = { r with pending := es }.finish.1.get name := by
  have hnames := Index.nodup_names_add hindex ds
  have hperm := Index.perm_add hindex hnodup h
  have hcatalog := Index.alike_catalog_of_perm hnames hperm
  have hproblems := Index.sameProblems_of_perm hnames hperm
  refine ⟨hcatalog, hproblems, fun name => ?_⟩
  have hpolicy := hproblems r.options.onError
  unfold Registry.finish
  dsimp only
  generalize (r.index.add ds).1.checkReferences r.options.onError = result at hpolicy ⊢
  generalize (r.index.add es).1.checkReferences r.options.onError = result' at hpolicy ⊢
  cases hpolicy with
  | reported => exact hcatalog.build name
  | refused => rfl

/-- Two specs that include one another, of which one includes a third that is not there, and a
variant. -/
def exampleStaged : List Definition :=
  let including := fun name includes => ⟨name, [], [], [], includes, [], ⟨"example.hh", 1⟩⟩
  [including "a-spec" ["b-spec"], including "b-spec" ["a-spec", "c-spec"],
    including "kind-d-spec" []]

/-- From the other end, the circle is found elsewhere. -/
theorem finish_of_perm_exampleStaged :
    (exampleStaged.map (·.name)).Nodup ∧
      (Index.empty.add exampleStaged).1.cycles ≠
        (Index.empty.add exampleStaged.reverse).1.cycles ∧
      (Index.empty.add exampleStaged).1.catalog.Alike
        (Index.empty.add exampleStaged.reverse).1.catalog ∧
      SameProblems ((Index.empty.add exampleStaged).1.checkReferences .warn)
        ((Index.empty.add exampleStaged.reverse).1.checkReferences .warn) ∧
      ((ofOptions .standard).stage exampleStaged).finish.1.get "kind-typed-spec"
        = ((ofOptions .standard).stage exampleStaged.reverse).finish.1.get "kind-typed-spec" := by
  have hnodup : (exampleStaged.map (·.name)).Nodup := by decide
  obtain ⟨hcatalog, hproblems, hget⟩ := finish_of_perm (r := ofOptions .standard) List.nodup_nil
    hnodup (List.reverse_perm _).symm
  exact ⟨hnodup, by decide +kernel, hcatalog, hproblems .warn, hget "kind-typed-spec"⟩

end Registry

end SpecTree
