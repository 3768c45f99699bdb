import SpecTree.Proofs.Operation
import SpecTree.Proofs.References.Building

/-!
# Reported circles

A check of references that does not end with its first problem reports a circle exactly if there is
one. What it reports is a closed walk along references, at the spec that makes the last step of it
and on a line where that spec refers to the next. Main statements: `reports_closingError`, what is said
of a path that comes back to one of its names; `checkReferences_exact`, what is said of an index.
-/

namespace SpecTree

namespace Index

variable {index : Index}

/-- Does an error report a closed walk along references? It stands at the definition that makes the
last step, and on a line where that refers to the place where the walk closes. -/
structure Reports (index : Index) (e : LoadError) (names : List String) : Prop where
  problem : e.problem = .cycle names
  walk : ClosedWalk index.Eager names
  place : ∃ front last first d, names = front ++ [last, first] ∧ e.spec = some last ∧
    index.find? last = some d ∧ e.file = d.origin.file ∧ (first, e.line) ∈ d.references

/-- **What is said of a path that comes back to one of its names.** -/
theorem reports_closingError {path : List String} {name : String}
    (hpath : (path ++ [name]).IsChain index.Eager) (hmem : name ∈ path) :
    index.Reports (index.closingError path name) (path.dropWhile (· ≠ name) ++ [name]) := by
  obtain ⟨before, after, hsplit, hdrop⟩ := dropWhile_ne_eq_cons hmem
  obtain ⟨front, last, hlast⟩ := List.eq_nil_or_concat (name :: after) |>.resolve_left
    (List.cons_ne_nil name after)
  rw [List.concat_eq_append] at hlast
  have hend : path.getLast? = some last := by
    rw [hsplit, hlast, ← List.append_assoc, List.getLast?_concat]
  -- the last step of the walk is that from the end of the path
  have hstep : index.Eager last name := by
    obtain ⟨-, -, hsteps⟩ := List.isChain_append.1 hpath
    exact hsteps last hend name rfl
  obtain ⟨reference, hedge⟩ := eager_iff.1 hstep
  have hfound : ((index.eagerEdges last).find? (·.1 = name)).isSome = true :=
    List.find?_isSome.2 ⟨(name, reference), hedge, decide_eq_true rfl⟩
  obtain ⟨⟨target, line⟩, hclosing⟩ := Option.isSome_iff_exists.1 hfound
  obtain rfl : target = name := by simpa using List.find?_some hclosing
  obtain ⟨d, hd, href, -⟩ := mem_eagerEdges.1 (List.mem_of_find?_eq_some hclosing)
  have herror : index.closingError path target = ⟨some last, d.origin.file, line,
      .cycle (path.dropWhile (· ≠ target) ++ [target])⟩ := by
    unfold closingError
    simp only [hend, Option.getD_some, hd, hclosing, Option.map_some]
  rw [herror]
  refine ⟨rfl, .of_mem hpath hmem, front, last, target, d, ?_, rfl, hd, rfl, href⟩
  rw [hdrop, hlast, List.append_assoc]
  rfl

/-- Every circle that the walk over references finds is real. -/
theorem exists_reports_of_mem_cycles : ∀ e ∈ index.cycles, ∃ names, index.Reports e names :=
  forall_mem_cycles fun _ _ hpath hmem => ⟨_, reports_closingError hpath hmem⟩

theorem problem_of_mem_danglingReferences {e : LoadError} (h : e ∈ index.danglingReferences) :
    ∃ name, e.problem = .unknownReference name := by
  obtain ⟨d, -, he⟩ := List.mem_flatMap.1 h
  obtain ⟨⟨name, line⟩, -, he⟩ := List.mem_filterMap.1 he
  obtain ⟨-, he⟩ := Option.ite_none_left_eq_some.1 he
  cases he
  exact ⟨name, rfl⟩

/-- A problem with references that is a circle was found by the walk over them. -/
theorem mem_cycles_of_problem {e : LoadError} {names : List String}
    (he : e ∈ index.referenceProblems) (hproblem : e.problem = .cycle names) : e ∈ index.cycles := by
  refine (List.mem_append.1 he).resolve_left fun hdangling => ?_
  obtain ⟨name, hname⟩ := problem_of_mem_danglingReferences hdangling
  rw [hname] at hproblem
  cases hproblem

/-- **Circles are found exactly.** No walk over references goes on for ever. A check that does not
end with its first problem reports a circle exactly if some definition is part of itself, directly or
not, and every circle that it reports is a closed walk along references. -/
theorem checkReferences_exact (index : Index) {policy : Policy} (hpolicy : policy ≠ .raise) :
    (WellFounded fun next path => index.Extends path next) ∧
      ∃ problems, index.checkReferences policy = .ok problems ∧
        ((∃ e ∈ problems, ∃ names, e.problem = .cycle names) ↔
          ∃ name, Relation.TransGen index.Eager name name) ∧
        ∀ e ∈ problems, ∀ names, e.problem = .cycle names → index.Reports e names := by
  have hresult : index.checkReferences policy = .ok index.referenceProblems := by
    cases policy with
    | raise => contradiction
    | warn | ignore => rfl
  refine ⟨wellFounded_extends index, _, hresult, ?_, ?_⟩
  · have hnone : index.cycles ≠ [] ↔ ∃ name, Relation.TransGen index.Eager name name := by
      rw [ne_eq, cycles_eq_nil_iff, not_forall_not]
    rw [← hnone]
    constructor
    · rintro ⟨e, he, names, hproblem⟩
      exact List.ne_nil_of_mem (mem_cycles_of_problem he hproblem)
    · intro hcycles
      obtain ⟨e, he⟩ := List.exists_mem_of_ne_nil _ hcycles
      obtain ⟨names, hreports⟩ := exists_reports_of_mem_cycles e he
      exact ⟨e, List.mem_append_right _ he, names, hreports.problem⟩
  · intro e he names hproblem
    obtain ⟨found, hreports⟩ := exists_reports_of_mem_cycles e (mem_cycles_of_problem he hproblem)
    obtain rfl : found = names := by simpa using hreports.problem.symm.trans hproblem
    exact hreports

/-- A spec that has itself as a parameter, two circles that share a reference, a circle through a
name of typed form, a reference that is dangling, and a list of specs that may well lead back. -/
def exampleKnot : Index :=
  (Registry.ofLines ["``[a-spec]``", "* `\"b`\" ``[b-spec]``", "* `\"a`\" ``[a-spec]``", "",
    "``[b-spec]``", "* `\"c`\" ``[c-spec]``", "* `\"d`\" ``[missing-spec]``", "", "``[c-spec]``",
    "* `\"bs`\" ``[b-spec-list]``", "* `\"a`\" ``[a-spec]``", "* ``[b-spec]``", "",
    "``[e-typed-spec]``", "* `\"f`\" ``[f-spec]``", "", "``[f-spec]``",
    "* `\"e`\" ``[e-typed-spec]``"]).index

theorem checkReferences_exact_exampleKnot :
    Policy.warn ≠ .raise ∧
      (∃ name, Relation.TransGen exampleKnot.Eager name name) ∧
      exampleKnot.Reports ⟨some "c-spec", "example.hh", 11,
        .cycle ["a-spec", "b-spec", "c-spec", "a-spec"]⟩ ["a-spec", "b-spec", "c-spec", "a-spec"] ∧
      exampleKnot.Reports ⟨some "a-spec", "example.hh", 3, .cycle ["a-spec", "a-spec"]⟩
        ["a-spec", "a-spec"] ∧
      exampleKnot.Reports ⟨some "f-spec", "example.hh", 18,
        .cycle ["e-typed-spec", "f-spec", "e-typed-spec"]⟩
        ["e-typed-spec", "f-spec", "e-typed-spec"] := by
  obtain ⟨-, problems, hresult, hcircle, hreports⟩ :=
    exampleKnot.checkReferences_exact (show Policy.warn ≠ .raise by decide)
  have hproblems : exampleKnot.checkReferences .warn = .ok
      [⟨some "b-spec", "example.hh", 7, .unknownReference "missing-spec"⟩,
        ⟨some "c-spec", "example.hh", 11, .cycle ["a-spec", "b-spec", "c-spec", "a-spec"]⟩,
        ⟨some "c-spec", "example.hh", 9, .cycle ["b-spec", "c-spec", "b-spec"]⟩,
        ⟨some "a-spec", "example.hh", 3, .cycle ["a-spec", "a-spec"]⟩,
        ⟨some "f-spec", "example.hh", 18,
          .cycle ["e-typed-spec", "f-spec", "e-typed-spec"]⟩] := by
    decide +kernel
  rw [hproblems, Except.ok.injEq] at hresult
  subst hresult
  exact ⟨by decide, hcircle.1 ⟨_, .tail _ (.head _), _, rfl⟩,
    hreports _ (.tail _ (.head _)) _ rfl, hreports _ (by simp) _ rfl, hreports _ (by simp) _ rfl⟩

end Index

end SpecTree
