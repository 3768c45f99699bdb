import Mathlib.Logic.Relation
import SpecTree.References

/-!
# The order of definitions

A definition comes after the definitions that are part of it. If the walk over references finds
no circle, then it visits every name after its parts, and so the parts of parts come to an end.
Main statements:

* `eager_iff`: the walk follows a reference exactly if that leads to a part;
* `walk_visit`: what one visit achieves;
* `acc_of_cycles_eq_nil`: without a circle, the parts of parts come to an end.
-/

namespace SpecTree

/-- Is the definition of a name of this form looked up? What is registered under the name of a list
is not. -/
def SpecForm.isLookedUp : SpecForm → Bool
  | plain | typed .. => true
  | generic | list _ => false

namespace Index

/-- Is the second of two names part of the first? It is, if the definition of the first refers to it,
its form is plain or typed, and something is registered under it. -/
def Eager (index : Index) (a b : String) : Prop :=
  ∃ d line, index.find? a = some d ∧ (b, line) ∈ d.references ∧
    (SpecForm.ofName b).isLookedUp = true ∧ index.contains b = true

/-- Every name of the list comes before its parts. -/
def Settled (index : Index) : List String → Prop
  | [] => True
  | name :: rest => (∀ b, index.Eager name b → b ∈ rest) ∧ index.Settled rest

/-- A walk that has found no circle has visited the given names, and every visited name after its
parts. -/
structure Walk (index : Index) (search after : CycleSearch) (names : List String) : Prop where
  cycles : search.cycles <+: after.cycles
  subset : search.visited ⊆ after.visited
  visited : after.cycles = [] → names ⊆ after.visited
  settled : after.cycles = [] → index.Settled search.visited → index.Settled after.visited

variable {index : Index}

theorem isEager_eq (index : Index) (name : String) :
    index.isEager name = ((SpecForm.ofName name).isLookedUp && index.contains name) := by
  unfold isEager
  cases SpecForm.ofName name <;> rfl

/-- The references that the walk follows are those of a definition to its parts. -/
theorem mem_eagerEdges {a : String} {edge : String × Nat} :
    edge ∈ index.eagerEdges a ↔ ∃ d, index.find? a = some d ∧ edge ∈ d.references ∧
      index.isEager edge.1 = true := by
  unfold eagerEdges
  split
  · next d hd => rw [List.mem_filter, hd]; simp
  · next hnone => simp [hnone]

/-- The walk follows a reference from one definition to another exactly if that is part of it. -/
theorem eager_iff {a b : String} :
    index.Eager a b ↔ ∃ line, (b, line) ∈ index.eagerEdges a := by
  constructor
  · rintro ⟨d, line, hd, href, hform, hb⟩
    refine ⟨line, mem_eagerEdges.2 ⟨d, hd, href, ?_⟩⟩
    rw [isEager_eq, hform, hb]
    rfl
  · rintro ⟨line, hedge⟩
    obtain ⟨d, hd, href, heager⟩ := mem_eagerEdges.1 hedge
    rw [isEager_eq, Bool.and_eq_true] at heager
    exact ⟨d, line, hd, href, heager⟩

/-- What is part of another definition is registered. -/
theorem Eager.contains {a b : String} (h : index.Eager a b) : index.contains b = true := by
  obtain ⟨-, -, -, -, -, hb⟩ := h
  exact hb

/-- A name on a settled list has its parts further down on it, and so has each of them. -/
theorem acc_of_settled {names : List String} (h : index.Settled names) :
    ∀ name ∈ names, Acc (fun b a => index.Eager a b) name := by
  induction names with
  | nil => exact List.forall_mem_nil _
  | cons name rest ih =>
    obtain ⟨hparts, hrest⟩ := h
    exact List.forall_mem_cons.2 ⟨.intro name fun b hb => ih hrest b (hparts b hb), ih hrest⟩

theorem Walk.refl (search : CycleSearch) : index.Walk search search [] :=
  ⟨List.prefix_refl _, List.Subset.refl _, fun _ => List.nil_subset _, fun _ h => h⟩

theorem Walk.trans {s s' s'' : CycleSearch} {names later : List String}
    (h : index.Walk s s' names) (h' : index.Walk s' s'' later) :
    index.Walk s s'' (names ++ later) where
  cycles := h.cycles.trans h'.cycles
  subset := List.Subset.trans h.subset h'.subset
  visited hclean := by
    have hfirst : s'.cycles = [] := List.prefix_nil.1 (hclean ▸ h'.cycles)
    exact List.append_subset.2
      ⟨List.Subset.trans (h.visited hfirst) h'.subset, h'.visited hclean⟩
  settled hclean hs := by
    have hfirst : s'.cycles = [] := List.prefix_nil.1 (hclean ▸ h'.cycles)
    exact h'.settled hclean (h.settled hfirst hs)

/-- One walk after the other. -/
theorem walk_foldl {β : Type} (name : β → String) {step : CycleSearch → β → CycleSearch}
    (hstep : ∀ s b, index.Walk s (step s b) [name b]) (bs : List β) (s : CycleSearch) :
    index.Walk s (bs.foldl step s) (bs.map name) := by
  induction bs generalizing s with
  | nil => exact .refl s
  | cons b bs ih => exact (hstep s b).trans (ih (step s b))

/-- **What a visit achieves.** -/
theorem walk_visit (path : List String) (search : CycleSearch) (name : String) :
    index.Walk search (index.visit path search name) [name] := by
  fun_induction visit index path search name with
  | case1 path search name hvisited =>
    exact ⟨List.prefix_refl _, List.Subset.refl _, fun _ => by simpa using hvisited,
      fun _ h => h⟩
  | case2 path search name hvisited hpath =>
    -- a circle was found, and so nothing is promised
    exact ⟨List.prefix_append _ _, List.Subset.refl _, by simp, by simp⟩
  | case3 path search name hvisited hpath hname after ih =>
    have hwalk : index.Walk search after ((index.eagerEdges name).map (·.1)) :=
      walk_foldl _ ih _ search
    refine ⟨hwalk.cycles, fun x hx => List.mem_cons_of_mem _ (hwalk.subset hx), by simp, ?_⟩
    refine fun hclean hs => ⟨fun b hb => ?_, hwalk.settled hclean hs⟩
    obtain ⟨line, hedge⟩ := eager_iff.1 hb
    exact hwalk.visited hclean (List.mem_map_of_mem hedge)
  | case4 path search name hvisited hpath hname =>
    refine ⟨List.prefix_refl _, fun x hx => List.mem_cons_of_mem _ hx, by simp, fun _ hs => ⟨?_, hs⟩⟩
    -- a name that is not registered refers to nothing
    rintro b ⟨d, -, hd, -⟩
    exact absurd (name_of_find? hd).2 hname

/-- **Without a circle, the parts of parts come to an end.** -/
theorem acc_of_cycles_eq_nil (h : index.cycles = []) (name : String) :
    Acc (fun b a => index.Eager a b) name := by
  have hwalk : index.Walk ⟨[], []⟩ (index.names.foldl (index.visit []) ⟨[], []⟩)
      (index.names.map id) := walk_foldl id (fun s n => walk_visit [] s n) index.names _
  rw [List.map_id] at hwalk
  have hsettled := hwalk.settled h trivial
  constructor
  intro b hb
  have hregistered : b ∈ index.names := by
    obtain ⟨d, hd⟩ := Option.isSome_iff_exists.1 hb.contains
    exact (name_of_find? hd).2
  exact acc_of_settled hsettled b (hwalk.visited h hregistered)

end Index

end SpecTree
