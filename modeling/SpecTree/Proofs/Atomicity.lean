import SpecTree.Proofs.Node

/-!
# All or nothing

A key is set completely or not at all. Main statement: `set_all_or_nothing`, a refused write
leaves the whole node as it was, and one that succeeds is shown by every component that declares
the key. The reason is that a spec writes only what it was found to accept (`Spec.set_cases`), and
that a choice is given its variant only after nothing can fail any more.
-/

namespace SpecTree

namespace Spec

variable {ν : Type} [Judged ν] {s s' : Spec ν} {key : String} {value : Value}

/-- A write to a spec that fails changes nothing: all components were asked before. -/
theorem set_error {e : TreeError} (h : set key value s = .error e s') : s' = s := by
  rcases set_cases s key value with ⟨e', he⟩ | ⟨-, p, -, hok⟩ | ⟨-, -, hok⟩
  · rw [he] at h
    cases h
    rfl
  · rw [hok] at h
    cases h
  · rw [hok] at h
    cases h

/-- Where all components have accepted a value, writing it to them cannot fail. -/
theorem each_set_of_checkTargets
    (h : checkTargets (Component.checkSet key value) (s.targets key) s = .ok ()) :
    Edit.each (fun i => inComponent key i (Component.set key value)) (s.targets key) s
      = .ok () (s.edited key (Component.set key value).stateAfter) :=
  each_targets fun c hc hcontains =>
    Component.set_of_checkSet_eq_ok hcontains (checkTargets_eq_ok.1 h c hc hcontains)

/-- What was set is shown by every component that declares the key. -/
theorem shows_of_set_eq_ok (h : set key value s = .ok () s') (hkey : s.contains key = true) :
    s'.components.length = s.components.length ∧
      ∀ (i : Nat) (c : Component ν), s.components[i]? = some c → c.contains key = true →
        ∃ (c' : Component ν) (p : Parameter ν), s'.components[i]? = some c' ∧
          c'.parameter? key = some p ∧ p.Shows value := by
  rcases set_cases s key value with ⟨e, he⟩ | ⟨hnot, -⟩ | ⟨-, haccepted, hok⟩
  · rw [he] at h
    cases h
  · rw [hkey] at hnot
    cases hnot
  · rw [hok] at h
    cases h
    -- components stay in their places, and each that declares the key was written:
    refine ⟨List.length_map _, ?_⟩
    intro i c hc hcontains
    obtain ⟨c', hset⟩ := Component.set_of_checkSet_eq_ok hcontains
      (haccepted c (List.mem_of_getElem? hc) hcontains)
    obtain ⟨p, hp, hshows⟩ := Component.parameter?_of_set_eq_ok hcontains hset
    refine ⟨c', p, ?_, hp, hshows⟩
    unfold edited
    rw [List.getElem?_map, hc, Option.map_some, if_pos hcontains, Edit.stateAfter_of_ok hset]

end Spec

namespace Choice

variable {catalog : Catalog} {c c' : Choice Node} {e : TreeError}

/-- A type that is refused changes nothing. -/
theorem setType_error {type : String} (h : setType catalog type c = .error e c') : c' = c := by
  rcases setType_eq_error h with ⟨-, rfl⟩ | ⟨body, hwrite, rfl⟩
  · rfl
  · -- only writing the selector can fail, and that changes nothing
    rw [Spec.set_error (set_of_writeType_eq_error hwrite)]

/-- A write to a choice that fails changes nothing. -/
theorem set_error {key : String} {value : Value}
    (h : Choice.set catalog key value c = .error e c') : c' = c := by
  by_cases hkey : key = c.selector
  · rw [hkey, set_selector] at h
    exact setType_error h
  · rw [set_of_ne_selector hkey] at h
    obtain ⟨body, hset, rfl⟩ := Edit.through_eq_error.1 h
    rw [Spec.set_error hset]

end Choice

namespace Node

variable {catalog : Catalog} {key : String} {value : Value}

/-- A write to a node that fails changes nothing. -/
theorem set_error {n n' : Node} {e : TreeError}
    (h : Node.set catalog key value n = .error e n') : n' = n := by
  cases n with
  | spec s =>
    rw [set_spec] at h
    obtain ⟨s', hset, rfl⟩ := Edit.through_eq_error.1 h
    rw [Spec.set_error hset]
  | list l =>
    rw [set_list] at h
    obtain ⟨l', hset, rfl⟩ := Edit.through_eq_error.1 h
    rw [(Edit.replace_eq_error.1 hset).2]
  | choice c =>
    rw [set_choice] at h
    obtain ⟨c', hset, rfl⟩ := Edit.through_eq_error.1 h
    rw [Choice.set_error hset]

/-- A write that is refused leaves the whole node as it was. One that succeeds on a spec is shown
by every component that declares the key, as a value of its own type there. Between the check of
the components and the last write to them nothing can fail. -/
theorem set_all_or_nothing (catalog : Catalog) (key : String) (value : Value) :
    (∀ n e n', Node.set catalog key value n = .error e n' → n' = n) ∧
      (∀ s n', Node.set catalog key value (.spec s) = .ok () n' → s.contains key = true →
        ∃ s', n' = .spec s' ∧ s'.components.length = s.components.length ∧
          ∀ (i : Nat) (c : Component Node), s.components[i]? = some c → c.contains key = true →
            ∃ (c' : Component Node) (p : Parameter Node), s'.components[i]? = some c' ∧
              c'.parameter? key = some p ∧ p.Shows value) ∧
      ∀ s : Spec Node,
        Spec.checkTargets (Component.checkSet key value) (s.targets key) s = .ok () →
          ∃ s', (do for i in s.targets key do
              Spec.inComponent key i (Component.set key value) : Edit (Spec Node) Unit) s
            = .ok () s' := by
  refine ⟨fun n e n' => set_error, ?_, ?_⟩
  · intro s n' h hkey
    rw [set_spec] at h
    obtain ⟨s', hset, rfl⟩ := Edit.through_eq_ok.1 h
    exact ⟨s', rfl, Spec.shows_of_set_eq_ok hset hkey⟩
  · intro s hcheck
    refine ⟨s.edited key (Component.set key value).stateAfter, ?_⟩
    simp only [Edit.forIn_eq_each, bind_pure_unit]
    exact Spec.each_set_of_checkTargets hcheck

/-- A size that is a number in one component and a truth value in another. -/
def exampleShared : Spec Node :=
  ((Spec.ofName "shared-spec").push
    (.collection (.ofList [.primitive "size" (.scalar .int)]))).push
      (.oneOf ⟨[.ofList [.primitive "size" (.scalar .bool)],
        .ofList [.primitive "mode" (.scalar .string)]], none, none⟩)

theorem set_all_or_nothing_shared :
    (∃ e, Node.set .empty "size" (.int 2) (.spec exampleShared) = .error e (.spec exampleShared)) ∧
      (∃ s' c p, Node.set .empty "size" (.int 1) (.spec exampleShared) = .ok () (.spec s') ∧
        s'.components[1]? = some c ∧ c.parameter? "size" = some p ∧ p.Shows (.int 1)) ∧
      ∃ s', (do for i in exampleShared.targets "size" do
          Spec.inComponent "size" i (Component.set "size" (.int 1)) : Edit (Spec Node) Unit)
            exampleShared = .ok () s' := by
  refine ⟨?_, ?_, ?_⟩
  · obtain ⟨e, n', herr⟩ : ∃ e n', Node.set .empty "size" (.int 2) (.spec exampleShared)
        = .error e n' := ⟨_, _, rfl⟩
    have hsame := (set_all_or_nothing .empty "size" (.int 2)).1 _ _ _ herr
    exact ⟨e, hsame ▸ herr⟩
  · obtain ⟨n', hok⟩ : ∃ n', Node.set .empty "size" (.int 1) (.spec exampleShared)
        = .ok () n' := ⟨_, rfl⟩
    obtain ⟨s', rfl, -, hshows⟩ :=
      (set_all_or_nothing .empty "size" (.int 1)).2.1 _ _ hok rfl
    obtain ⟨c', p, hc', hp, hvalue⟩ := hshows 1 _ rfl rfl
    exact ⟨s', c', p, hok, hc', hp, hvalue⟩
  · exact (set_all_or_nothing .empty "size" (.int 1)).2.2 exampleShared rfl

end Node

end SpecTree
