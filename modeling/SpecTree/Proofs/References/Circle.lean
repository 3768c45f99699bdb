import Mathlib.Order.WellFounded
import SpecTree.Proofs.References.ClosedWalk
import SpecTree.Proofs.References.Order

/-!
# Circles

The walk over references finds a circle exactly if there is one. That it finds none only if the
parts of parts come to an end is `acc_of_cycles_eq_nil`; here it is shown that a circle that it
finds is real. Main statements: `forall_mem_cycles`, a circle is reported only where a path of
references comes back to one of its names; `cycles_eq_nil_iff`.
-/

namespace SpecTree

namespace Index

variable {index : Index} {holds : LoadError → Prop}

/-- What is reported on a visit is what was reported before, or a path that comes back to one of its
names. -/
theorem forall_mem_visit
    (hclosing : ∀ path name, (path ++ [name]).IsChain index.Eager → name ∈ path →
      holds (index.closingError path name))
    (path : List String) (search : CycleSearch) (name : String)
    (hpath : (path ++ [name]).IsChain index.Eager) (hsearch : ∀ e ∈ search.cycles, holds e) :
    ∀ e ∈ (index.visit path search name).cycles, holds e := by
  fun_induction visit index path search name with
  | case1 => exact hsearch
  | case2 path search name _ hmem =>
    refine List.forall_mem_append.2 ⟨hsearch, fun e he => ?_⟩
    rw [List.mem_singleton.1 he]
    exact hclosing path name hpath hmem
  | case3 path search name _ _ _ after ih =>
    refine List.foldlRecOn (motive := fun s : CycleSearch => ∀ e ∈ s.cycles, holds e) _ _ hsearch
      fun s hs edge hedge => ?_
    exact ih s edge (isChain_concat hpath (eager_iff.2 ⟨edge.2, hedge⟩)) hs
  | case4 => exact hsearch

/-- **Only a path of references that comes back to one of its names is reported.** -/
theorem forall_mem_cycles
    (hclosing : ∀ path name, (path ++ [name]).IsChain index.Eager → name ∈ path →
      holds (index.closingError path name)) :
    ∀ e ∈ index.cycles, holds e :=
  List.foldlRecOn (motive := fun s : CycleSearch => ∀ e ∈ s.cycles, holds e) index.names _
    (List.forall_mem_nil _) fun s hs name _ =>
      forall_mem_visit hclosing [] s name (List.isChain_singleton name) hs

/-- **The walk finds a circle exactly if some definition is part of itself.** -/
theorem cycles_eq_nil_iff :
    index.cycles = [] ↔ ∀ name, ¬ Relation.TransGen index.Eager name name := by
  constructor
  · intro h name hcircle
    have hfounded := (WellFounded.intro (acc_of_cycles_eq_nil h)).transGen
    exact hfounded.irrefl.irrefl name (Relation.transGen_swap.2 hcircle)
  · intro hacyclic
    refine List.eq_nil_iff_forall_not_mem.2 (forall_mem_cycles fun path name hpath hmem => ?_)
    obtain ⟨a, ha⟩ := (ClosedWalk.of_mem hpath hmem).exists_transGen
    exact absurd ha (hacyclic a)

end Index

end SpecTree
