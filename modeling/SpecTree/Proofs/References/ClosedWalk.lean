import Mathlib.Data.List.Chain
import Mathlib.Order.WellFounded
import SpecTree.Index

/-!
# Closed walks

A walk along references keeps the path that led to where it is. If it comes back to a name on the
path, then the rest of the path from there is a closed walk. It does so sooner or later, as there
are only so many names. Main statements: `ClosedWalk.of_mem`, a path that comes back to one of its
names closes a walk; `Index.wellFounded_extends`, no path of distinct names goes on for ever.
-/

namespace SpecTree

variable {α : Type} {r : α → α → Prop}

/-- Does a list lead, in one step of a relation or more, from a place back to it? -/
structure ClosedWalk (r : α → α → Prop) (places : List α) : Prop where
  steps : places.IsChain r
  closed : places.head? = places.getLast?
  long : 2 ≤ places.length

/-- The part of a list from the first place of a kind on, if there is one. -/
theorem dropWhile_ne_eq_cons [DecidableEq α] {path : List α} {a : α} (ha : a ∈ path) :
    ∃ before after, path = before ++ a :: after ∧ path.dropWhile (· ≠ a) = a :: after := by
  induction path with
  | nil => cases ha
  | cons b path ih =>
    by_cases hb : b = a
    · subst hb
      exact ⟨[], path, rfl, List.dropWhile_cons_of_neg (by simp)⟩
    · obtain ⟨before, after, hpath, hdrop⟩ := ih ((List.mem_cons.1 ha).resolve_left (Ne.symm hb))
      refine ⟨b :: before, after, by rw [hpath, List.cons_append], ?_⟩
      rw [List.dropWhile_cons_of_pos (by simpa using hb), hdrop]

/-- **A path that comes back to one of its places closes a walk.** -/
theorem ClosedWalk.of_mem [DecidableEq α] {path : List α} {a : α}
    (hsteps : (path ++ [a]).IsChain r) (ha : a ∈ path) :
    ClosedWalk r (path.dropWhile (· ≠ a) ++ [a]) := by
  obtain ⟨before, after, hpath, hdrop⟩ := dropWhile_ne_eq_cons ha
  rw [hdrop]
  refine ⟨?_, ?_, by simp⟩
  · rw [hpath, List.append_assoc] at hsteps
    exact hsteps.right_of_append
  · rw [List.getLast?_concat, List.cons_append, List.head?_cons]

/-- Where a closed walk begins, a way of at least one step leads back. -/
theorem ClosedWalk.exists_transGen {places : List α} (h : ClosedWalk r places) :
    ∃ a, Relation.TransGen r a a := by
  obtain ⟨hsteps, hclosed, hlong⟩ := h
  match places with
  | a :: b :: rest =>
    obtain ⟨hstep, hrest⟩ := List.isChain_cons_cons.1 hsteps
    have hlast : (b :: rest).getLast (List.cons_ne_nil b rest) = a := by
      rw [List.head?_cons, List.getLast?_cons_cons,
        List.getLast?_eq_getLast_of_ne_nil (List.cons_ne_nil b rest)] at hclosed
      exact (Option.some.inj hclosed).symm
    exact ⟨a, .head' hstep (List.relationReflTransGen_of_exists_isChain_cons rest hrest hlast)⟩

/-- A path goes on along a relation. -/
theorem isChain_concat {path : List α} {a b : α} (hsteps : (path ++ [a]).IsChain r) (hab : r a b) :
    (path ++ [a] ++ [b]).IsChain r := by
  refine List.isChain_append.2 ⟨hsteps, List.isChain_singleton b, ?_⟩
  intro x hx y hy
  rw [List.getLast?_concat, Option.mem_some_iff] at hx
  rw [List.head?_cons, Option.mem_some_iff] at hy
  rw [← hx, ← hy]
  exact hab

namespace Index

/-- Does the second path go on from the first, to a registered name that is not on it? -/
def Extends (index : Index) (path next : List String) : Prop :=
  ∃ name ∈ index.names, name ∉ path ∧ next = path ++ [name]

/-- **No path of distinct names goes on for ever.** -/
theorem wellFounded_extends (index : Index) :
    WellFounded fun next path => index.Extends path next := by
  refine Subrelation.wf ?_ (measure (remaining index.names)).wf
  rintro next path ⟨name, hname, hnew, rfl⟩
  exact remaining_append_lt hname hnew

end Index

end SpecTree
