import SpecTree.Proofs.Persistence

/-!
# Reading and writing agree

Walking along a path to edit what is at its end leads to the node that is read there, and what
becomes of the node is read there afterwards. Main statements:

* `Node.withinPath_ok`, for every edit of a sound tree;
* `Registry.shown_of_withinPath`, for every change of a tree that a registry has given out.
-/

namespace SpecTree

namespace Node

variable {α : Type} {n n' : Node} {act : Edit Node α} {a : α}

/-- What is handed out under a key was shown there, and what becomes of it is shown there. -/
theorem within_ok {key : String} (h : n.Sound) (hok : within key act n = .ok a n') :
    ∃ m m', n.child? key = some m ∧ m.Sound ∧ act m = .ok a m' ∧ n'.child? key = some m' := by
  rcases reach_cases h key with ⟨n'', ⟨e, he⟩, -⟩ | ⟨p, m, put, hout, hreaches⟩
  · cases (he act).symm.trans hok
  · obtain ⟨m', hact, rfl⟩ := Edit.through_eq_ok.1 ((hreaches act).symm.trans hok)
    have hbefore : n.child? key = some m := Option.bind_eq_some_iff.2 ⟨p, hout.shown, hout.node⟩
    have hafter : (put m').child? key = some m' :=
      Option.bind_eq_some_iff.2 ⟨_, hout.put_shown m', rfl⟩
    have hsound : m.Sound := sub_of_handsOut h.fit hout
    exact ⟨m, m', hbefore, hsound, hact, hafter⟩

/-- What is handed out at the end of a path was shown there, and what becomes of it is shown
there. -/
theorem withinPath_ok {path : List String} (h : n.Sound) (hok : withinPath path act n = .ok a n') :
    ∃ m m', n.descend? path = some m ∧ act m = .ok a m' ∧ n'.descend? path = some m' := by
  induction path generalizing n n' with
  | nil => exact ⟨n, n', rfl, hok, rfl⟩
  | cons key path ih =>
    obtain ⟨c, c', hbefore, hsound, hinner, hafter⟩ := within_ok h hok
    obtain ⟨m, m', hm, hact, hm'⟩ := ih hsound hinner
    refine ⟨m, m', ?_, hact, ?_⟩
    · show (n.child? key).bind (descend? · path) = some m
      rw [hbefore]
      exact hm
    · show (n'.child? key).bind (descend? · path) = some m'
      rw [hafter]
      exact hm'

end Node

namespace Registry

/-- Two groups of which one is to be filled, with a sub-spec that they share. -/
def exampleOuter : Registry :=
  ofLines ["``[outer-spec]``", "ONE OF", "* `\"a`\" ``[int]``", "* `\"sub`\" ``[inner-spec]``",
    "OR", "* `\"b`\" ``[int]``", "* `\"sub`\" ``[inner-spec]``", "END", "", "``[inner-spec]``",
    "* `\"x`\" ``[int]``", "* `\"deep`\" ``[leaf-spec-list]``", "", "``[leaf-spec]``",
    "* `\"y`\" ``[int]``"]

/-- If a walk along a path succeeds, it hands out the node that reading along the path shows just
before, and after any change of that node reading along the path shows exactly what became of
it. -/
theorem shown_of_withinPath {r : Registry} {n m n' : Node} (h : r.Reachable n)
    (path : List String) (change : Node → Node)
    (hwalk : Node.withinPath path (modifyGet fun m => (m, change m)) n = .ok m n') :
    n.descend? path = some m ∧ n'.descend? path = some (change m) := by
  obtain ⟨c, c', hbefore, hact, hafter⟩ := Node.withinPath_ok h.sound hwalk
  cases hact
  exact ⟨hbefore, hafter⟩

/-- Edits that lead to an entry of a list in the sub-spec, and then narrow the groups. -/
def exampleEdits : List Operation :=
  [.within "sub" [.set "x" (.int 1), .within "deep" [.append "e", .within "e" [.set "y" (.int 2)]]],
    .set "b" (.int 3), .set "a" (.int 4)]

theorem shown_of_withinPath_shared :
    ∃ n m n', exampleOuter.Reachable n ∧
      Node.withinPath ["sub", "deep", "e"]
        (modifyGet fun m => (m, (Node.set .empty "y" (.int 5)).stateAfter m)) n = .ok m n' ∧
      m.get? "y" = some (.int 2) ∧ n.descend? ["sub", "deep", "e"] = some m ∧
      n'.descend? ["sub", "deep", "e"] = some ((Node.set .empty "y" (.int 5)).stateAfter m) := by
  obtain ⟨n, hget, hwalks⟩ := exists_of_get exampleOuter "outer-spec" (fun n =>
    match Node.withinPath ["sub", "deep", "e"]
        (modifyGet fun m => (m, (Node.set .empty "y" (.int 5)).stateAfter m))
        (Operation.applyAll exampleOuter.catalog exampleEdits n) with
    | .ok m _ => m.get? "y" = some (.int 2)
    | .error _ _ => false) (by decide +kernel)
  have hreachable := (Reachable.get hget).run exampleEdits
  cases hwalk : Node.withinPath ["sub", "deep", "e"]
      (modifyGet fun m => (m, (Node.set .empty "y" (.int 5)).stateAfter m))
      (Operation.applyAll exampleOuter.catalog exampleEdits n) with
  | error e n' =>
    rw [hwalk] at hwalks
    cases hwalks
  | ok m n' =>
    rw [hwalk] at hwalks
    exact ⟨_, m, n', hreachable, hwalk, of_decide_eq_true hwalks,
      shown_of_withinPath hreachable _ _ hwalk⟩

end Registry

end SpecTree
