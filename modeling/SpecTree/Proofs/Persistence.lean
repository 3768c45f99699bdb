import SpecTree.Proofs.Atomicity
import SpecTree.Proofs.Course
import SpecTree.Proofs.Retention

/-!
# Nothing written is lost

A value that was set stays set under all operations, unless one of them writes a case parameter on
its path or puts a chosen variant in place of a parameter on it. Main statements:

* `Operation.retains`, what an operation retains, as a fold over the keys that it sets;
* `Registry.Reachable.sound`, every tree that a registry gives out is sound.
-/

namespace SpecTree

/-! ## Lists of settings -/

/-- One of several settings may lose a path. -/
def losing (catalog : Catalog) (ss : List Setting) (target : List String) : Prop :=
  ∃ s ∈ ss, s.Loses catalog target

variable {catalog : Catalog} {ss ss' : List Setting} {key : String} {target : List String}

/-- Settings lose what one of them loses. -/
theorem losing_append : losing catalog (ss ++ ss') target ↔
    losing catalog ss target ∨ losing catalog ss' target := by
  unfold losing
  simp only [List.mem_append, or_and_right, exists_or]

/-- Settings below a key lose the same there. -/
theorem losing_below (h : losing catalog ss target) :
    losing catalog (ss.map (·.below key)) (key :: target) := by
  obtain ⟨s, hs, k, rest, rfl, hset, hwrites⟩ := h
  exact ⟨s.below key, List.mem_map_of_mem hs, k, rest, rfl, hset, hwrites⟩

namespace Node

variable {n : Node} {value : Value}

/-! ## Single operations -/

/-- A write loses no more than it says. -/
theorem retains_set (h : n.Sound) (key : String) (value : Value) :
    Retains (losing catalog [⟨[], n, key, value⟩]) n
      ((Node.set catalog key value).stateAfter n) := by
  cases hset : Node.set catalog key value n with
  | error e n' =>
    rw [Edit.stateAfter_of_error hset, set_error hset]
    exact .refl h _
  | ok u n' =>
    rw [Edit.stateAfter_of_ok hset]
    refine .of_kept (kept_set h hset) fun k rest hnot hsome => ⟨?_, ?_, hsome⟩
    · refine hides_eq_false (Bool.eq_false_iff.2 ?_)
      exact fun hcase => hnot ⟨_, List.mem_cons_self, k, rest, rfl, ⟨n', hset⟩, Or.inl hcase⟩
    · exact fun hkey => hnot ⟨_, List.mem_cons_self, k, rest, rfl, ⟨n', hset⟩, Or.inr hkey⟩

/-- An append loses nothing. -/
theorem retains_appendEmpty (h : n.Sound) (name : String) :
    Retains (losing catalog []) n ((appendEmpty catalog name).stateAfter n) := by
  cases happend : appendEmpty catalog name n with
  | error e n' =>
    rw [Edit.stateAfter_of_error happend, appendEmpty_error happend]
    exact .refl h _
  | ok u n' =>
    rw [Edit.stateAfter_of_ok happend]
    exact .of_kept (kept_append h happend) fun _ _ _ hsome => hsome

/-- What an edit of a sub-spec retains there is retained, whether it is reached or not. -/
theorem retains_within {α : Type} (h : n.Sound) (key : String) (act : Edit Node α)
    {settings : Node → List Setting}
    (hact : ∀ m, m.Sound → Retains (losing catalog (settings m)) m (act.stateAfter m)) :
    Retains (losing catalog (n.settingsBelow key settings)) n ((within key act).stateAfter n) := by
  unfold settingsBelow
  rcases reach_cases h key with ⟨n', hrefuses, hkept⟩ | ⟨p, m, put, hout, hreaches⟩
  · -- a walk that fails may settle alternatives on its way:
    rw [handedOut?_of_refuses hrefuses]
    obtain ⟨e, he⟩ := hrefuses
    rw [Edit.stateAfter_of_error (he act)]
    exact .of_kept hkept fun _ _ _ _ => trivial
  · rw [handedOut?_of_reaches hreaches, Edit.stateAfter_of_through (hreaches act)]
    have hm : m.Sound := sub_of_handsOut h.fit hout
    refine (Retains.put hout (hact m hm)).imp ?_
    rintro target ⟨rest, rfl, hlost⟩
    exact losing_below hlost

/-- Each kind of operation loses no more than its settings do. -/
theorem stepwise_retains (catalog : Catalog) :
    Stepwise catalog fun ss n n' => n.Sound → Retains (losing catalog ss) n n' where
  refl _ h := .refl h _
  trans h h' hn := by
    have hfirst := h hn
    have hnext := h' hfirst.sound
    exact (hfirst.trans hnext).imp fun _ => losing_append.2
  set _ key value h := retains_set h key value
  append _ name h := retains_appendEmpty h name
  within _ key _ act _ hact h := retains_within h key act hact

end Node

/-! ## Runs -/

namespace Operation

/-- What an operation retains. -/
theorem retains (catalog : Catalog) (o : Operation) {n : Node} (h : n.Sound) :
    Node.Retains (losing catalog (o.settings catalog n)) n (o.apply catalog n) :=
  (Node.stepwise_retains catalog).apply o n h

/-- What operations retain, one after the other. -/
theorem retainsAll (catalog : Catalog) (os : List Operation) {n : Node} (h : n.Sound) :
    Node.Retains (losing catalog (settingsAll catalog os n)) n (applyAll catalog os n) :=
  (Node.stepwise_retains catalog).applyAll os n h

end Operation

namespace Registry

variable {r : Registry} {n : Node}

/-- What can be reached in a loaded registry is sound. -/
theorem Reachable.sound (h : r.Reachable n) : n.Sound := by
  induction h with
  | get h => exact (Catalog.fresh_of_build (build_of_get h)).sound
  | step _ o ih => exact (o.retains r.catalog ih).sound

/-- Once there is a value under a key at the end of a path, there is one after any operations,
unless one of them writes a case parameter on the path, or puts a chosen variant in place of a
parameter on it. -/
theorem holds_of_not_loses {path : List String} {key : String} (h : r.Reachable n)
    (hholds : n.Holds path key) (operations : List Operation)
    (hquiet : ∀ s ∈ Operation.settingsAll r.catalog operations n,
      ¬ s.Loses r.catalog (path ++ [key])) :
    (Operation.applyAll r.catalog operations n).Holds path key := by
  refine (Operation.retainsAll r.catalog operations h.sound).holds path key ?_ hholds
  rintro ⟨s, hs, hloses⟩
  exact hquiet s hs hloses

/-- Groups of which one is to be filled, with a sub-spec that they share, and a choice in it. -/
def exampleShared : Registry :=
  ofLines ["``[outer-spec]``", "ONE OF", "* `\"a`\" ``[int]``",
    "* `\"sub`\" ``[inner-typed-spec]``", "OR", "* `\"b`\" ``[int]``", "* `\"sub`\" ``[inner-typed-spec]``", "END", "",
    "``[inner-typed-spec]``", "* `\"x`\" ``[int]``", "", "``[inner-fine-spec]``",
    "* `\"y`\" ``[int]``"]

theorem holds_of_not_loses_shared :
    ∃ n, exampleShared.Reachable n ∧ n.Holds ["sub"] "x" ∧
      (Operation.applyAll exampleShared.catalog
        [.set "b" (.int 2), .set "a" (.int 3), .within "sub" [.set "inner type" (.string "fine")]]
        n).Holds ["sub"] "x" := by
  obtain ⟨n, hget, hrun⟩ := exists_of_get exampleShared "outer-spec" (fun n =>
    let written := Operation.applyAll exampleShared.catalog [.within "sub" [.set "x" (.int 1)]] n
    written.Holds ["sub"] "x" ∧
      ∀ s ∈ Operation.settingsAll exampleShared.catalog
          [.set "b" (.int 2), .set "a" (.int 3), .within "sub" [.set "inner type" (.string "fine")]]
          written,
        s.node.writesCase s.key = false ∧
          ∀ k ∈ s.node.coveredKey? exampleShared.catalog s.key s.value, k ∉ ["sub", "x"])
    (by decide +kernel)
  obtain ⟨hholds, hquiet⟩ := of_decide_eq_true hrun
  have hreachable := (Reachable.get hget).run [.within "sub" [.set "x" (.int 1)]]
  exact ⟨_, hreachable, hholds, holds_of_not_loses hreachable hholds _ fun s hs =>
    Setting.not_loses (hquiet s hs).1 (hquiet s hs).2⟩

/-- A choice with a parameter that has the name under which a variant is put. -/
def exampleCovered : Registry :=
  ofLines ["``[foo-typed-spec]``", "* `\"a parameters`\" ``[int]``", "", "``[foo-a-spec]``",
    "* `\"x`\" ``[int]``"]

/-- Choosing a type loses a value without any write to a case parameter, if the variant is put in
its place. -/
theorem holds_not_after_setType :
    ∃ n, exampleCovered.Reachable n ∧ n.Holds [] "a parameters" ∧
      (∀ s ∈ Operation.settingsAll exampleCovered.catalog [.set "foo type" (.string "a")] n,
        s.node.writesCase s.key = false) ∧
      ¬ (Operation.applyAll exampleCovered.catalog [.set "foo type" (.string "a")] n).Holds []
        "a parameters" := by
  obtain ⟨n, hget, hrun⟩ := exists_of_get exampleCovered "foo-typed-spec" (fun n =>
    let written := Operation.applyAll exampleCovered.catalog [.set "a parameters" (.int 1)] n
    written.Holds [] "a parameters" ∧
      (∀ s ∈ Operation.settingsAll exampleCovered.catalog [.set "foo type" (.string "a")] written,
        s.node.writesCase s.key = false) ∧
      ¬ (Operation.applyAll exampleCovered.catalog [.set "foo type" (.string "a")] written).Holds []
        "a parameters")
    (by decide +kernel)
  obtain ⟨hholds, hquiet, hlost⟩ := of_decide_eq_true hrun
  exact ⟨_, (Reachable.get hget).run [.set "a parameters" (.int 1)], hholds, hquiet, hlost⟩

end Registry

end SpecTree
