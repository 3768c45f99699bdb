import SpecTree.Proofs.Indistinct.Node
import SpecTree.Proofs.Ordered
import SpecTree.Proofs.Persistence

/-!
# Accesses that fail

A sub-spec that is asked for may not be there: the key is unknown, its branch is closed, its
condition is not decided, or it is that of a primitive parameter. Then everything that can be asked
of the node, and everything that is done to it later, is answered as if the access had not been
tried (`Registry.sameAnswers_of_failed_access`).

For a primitive parameter this takes a node where the access has nothing to leave behind
(`Component.Quiet`): only after other components were narrowed and settled the parameter is found
to be primitive. `Registry.set_fails_after_failed_access` is a node where that shows.
-/

namespace SpecTree

/-! ## Why an access fails -/

section Errors

variable {ν : Type} {S : ν → Prop} {key : String} {e : TreeError}

/-- A slot for a sub-spec holds one, and so only a primitive parameter has none to hand out. -/
theorem Parameter.within_eq_error {p p' : Parameter ν} (hfit : p.Fit S)
    (h : (Parameter.within get : Edit (Parameter ν) ν) p = .error e p') :
    e = .notDerived p.name := by
  cases hprim : p.isPrimitive with
  | true =>
    obtain ⟨t, ht⟩ := isPrimitive_iff.1 hprim
    have hview : p.subSpec = .error (.notDerived p.name) := by
      unfold subSpec
      rw [ht]
    rw [within, Edit.zoom_of_view_error hview] at h
    cases h
    rfl
  | false =>
    obtain ⟨m, hm, -⟩ := hfit.node_some hprim
    obtain ⟨s, hs⟩ := isPrimitive_eq_false_iff.1 hprim
    have hview : p.subSpec = .ok m := by
      unfold subSpec
      rw [hs, hm]
    rw [within, Edit.zoom_of_view hview] at h
    cases h

theorem Collection.within_eq_error {c c' : Collection ν} (hfit : c.Fit S)
    (hkey : c.contains key = true)
    (h : (Collection.within key get : Edit (Collection ν) ν) c = .error e c') :
    e = .notDerived key := by
  obtain ⟨p, hp⟩ := contains_iff.1 hkey
  rw [within, Edit.zoom_of_view (by rw [hp])] at h
  obtain ⟨p', hpart, -⟩ := Edit.through_eq_error.1 h
  rw [Parameter.within_eq_error (hfit.parameter? hp) hpart, name_of_parameter? hp]

/-- Where the key is to be reached, it is that of the condition, or is in the chosen group. -/
theorem Conditional.within_eq_error {s s' : Conditional ν} (hfit : s.Fit S) {place : Option Nat}
    (hplan : s.plan key none = .ok place)
    (h : (Conditional.within key get : Edit (Conditional ν) ν) s = .error e s') :
    e = .notDerived key := by
  cases hplace : s.place key with
  | error f =>
    have hrefuses : (Conditional.within key get : Edit (Conditional ν) ν) s = .error f s :=
      Edit.zoom_of_view_error hplace
    cases hrefuses.symm.trans h
    rw [Conditional.place, hplan, ok_bind] at hplace
    split at hplace
    · cases hplace
      rfl
    · split at hplace
      · cases hplace
      · cases hplace
        rfl
  | ok found =>
    obtain ⟨i, group⟩ := found
    obtain ⟨-, -, x, hb, hcontains⟩ := place_eq_ok.1 hplace
    rw [within_of_place hplace] at h
    obtain ⟨group', hpart, -⟩ := Edit.through_eq_error.1 h
    exact Collection.within_eq_error (hfit.groups _ (List.mem_of_getElem? hb)) hcontains hpart

variable [Judged ν]

theorem OneOf.within_eq_error {o o' : OneOf ν} (hfit : o.Fit S) {next : List Nat}
    (hplan : o.plan key none = .ok next)
    (h : (OneOf.within key get : Edit (OneOf ν) ν) o = .error e o') :
    e = .notDerived key ∧ o' = o.settle := by
  obtain ⟨rfl, hne, -⟩ := plan_eq_ok.1 hplan
  obtain ⟨i, is, hwritable⟩ := List.exists_cons_of_ne_nil hne
  have hi : (o.writable key).head? = some i := by rw [hwritable, List.head?_cons]
  have hmem : i ∈ o.settle.writable key := by
    rw [writable_settle, hwritable]
    exact List.mem_cons_self
  obtain ⟨p, hp⟩ := Option.isSome_iff_exists.1 (List.mem_filter.1 hmem).2
  cases hprim : p.isPrimitive with
  | true =>
    rw [within_of_isPrimitive hi hp hprim] at h
    cases h
    exact ⟨by rw [name_of_declared? hp], rfl⟩
  | false =>
    obtain ⟨m, hm, -⟩ := (fit_of_declared? (branches_settle hfit.branches) hp).node_some hprim
    obtain ⟨s, hs⟩ := Parameter.isPrimitive_eq_false_iff.1 hprim
    rw [within_of_derived hi hp hs hm] at h
    cases h

end Errors

/-! ## What a failed access leaves behind -/

section Traces

variable {ν : Type} [Judged ν] {S : ν → Prop} {key : String} {e : TreeError}

/-- An access to a primitive parameter leaves nothing behind: no sub-spec was changed that holds no
value, and behind the first component that declares the key no branch is to be closed. -/
structure Component.Quiet (key : String) (cs : List (Component ν)) : Prop where
  calm : ∀ o, .oneOf o ∈ cs → o.contains key = true → o.Calm
  narrowed : ∀ o, .oneOf o ∈ (cs.filter (·.contains key)).tail →
    o.openBranches? = some (o.writable key)

/-- A sub-spec that holds a value may have been changed. -/
theorem OneOf.calm_of_hasValue {o : OneOf ν} (h : o.liveParameter?.all (·.2.hasValue) = true) :
    o.Calm := by
  intro owner l hl hnot
  rw [hl, Option.all_some, hnot] at h
  cases h

namespace Component

variable {c c' : Component ν}

theorem within_eq_error (hfit : c.Fit S) (hkey : c.contains key = true)
    (haccess : c.checkAccess key = .ok ())
    (h : (Component.within key get : Edit (Component ν) ν) c = .error e c') :
    e = .notDerived key ∧ (c' = c ∨ ∃ o, c = .oneOf o ∧ c' = .oneOf o.settle) := by
  cases c with
  | collection c =>
    rw [within_collection] at h
    obtain ⟨d, hpart, rfl⟩ := Edit.through_eq_error.1 h
    refine ⟨Collection.within_eq_error hfit hkey hpart, .inl ?_⟩
    -- a collection stays as it is, whether it refuses or hands out:
    rcases Collection.within_cases c key with ⟨f, hf⟩ | ⟨p, m, -, -, -, hreaches⟩
    · cases (hf get).symm.trans hpart
      rfl
    · cases (hreaches get).symm.trans hpart
  | oneOf o =>
    obtain ⟨next, hplan, -⟩ := map_eq_ok.1 haccess
    rw [within_oneOf] at h
    obtain ⟨o', hpart, rfl⟩ := Edit.through_eq_error.1 h
    obtain ⟨he, rfl⟩ := OneOf.within_eq_error hfit hplan hpart
    exact ⟨he, .inr ⟨o, rfl, rfl⟩⟩
  | conditional s =>
    obtain ⟨place, hplan, -⟩ := map_eq_ok.1 haccess
    rw [within_conditional] at h
    obtain ⟨d, hpart, rfl⟩ := Edit.through_eq_error.1 h
    refine ⟨Conditional.within_eq_error hfit hplan hpart, .inl ?_⟩
    -- so does a conditional:
    rcases Conditional.within_cases s key with
      ⟨f, hf⟩ | ⟨i, x, group, p, m, -, -, -, -, -, -, hreaches⟩
    · cases (hf get).symm.trans hpart
      rfl
    · cases (hreaches get).symm.trans hpart

/-- Settled alternatives are used like those that are not. -/
theorem upto_settle {o : OneOf ν} (hfit : o.Fit S) (hordered : o.Ordered) (hcalm : o.Calm) :
    Upto OneOf.Indistinct (.oneOf o) (.oneOf o.settle) :=
  .oneOf (OneOf.indistinct_settle (fun b hb => (hfit.branches b hb).distinct) hordered
    hfit.liveFirst hcalm)

/-- Where all open branches declare the key, narrowing comes down to settling. -/
theorem upto_select (hfit : c.Fit S) (hordered : c.Ordered) (haccess : c.checkAccess key = .ok ())
    (hcalm : ∀ o, c = .oneOf o → o.Calm)
    (hnarrowed : ∀ o, c = .oneOf o → o.openBranches? = some (o.writable key)) :
    Upto OneOf.Indistinct c ((Component.select key).stateAfter c) := by
  cases c with
  | collection c => exact .refl _
  | conditional s => exact .refl _
  | oneOf o =>
    obtain ⟨next, hplan, -⟩ := map_eq_ok.1 haccess
    have hsettled : ({ o.settle with active := some next } : OneOf ν) = o.settle := by
      have hactive : o.settle.active = some next := by
        rw [(OneOf.plan_eq_ok.1 hplan).1, ← hnarrowed o rfl, ← OneOf.openBranches?_settle,
          OneOf.openBranches?_of_live_eq_none (OneOf.live_settle o)]
      rw [← hactive]
    rw [Edit.stateAfter_of_through (select_oneOf key o),
      Edit.stateAfter_of_ok (OneOf.select_of_plan_eq_ok hplan), hsettled]
    exact upto_settle hfit hordered (hcalm o rfl)

end Component

/-- An access fails before anything is changed, or because the parameter is primitive. -/
theorem Spec.upto_of_within_eq_error {s s' : Spec ν} (hfit : s.Fit S) (hordered : s.Ordered)
    (h : (Spec.within key get : Edit (Spec ν) ν) s = .error e s')
    (hquiet : e = .notDerived key → Component.Quiet key s.components) :
    s.Upto OneOf.Indistinct s' := by
  rcases within_cases s key with ⟨f, hf⟩ | ⟨pre, c, post, happend, hpre, hc, haccess, hwithin⟩
  · cases (hf get).symm.trans h
    exact .refl s
  obtain ⟨c', hpart, rfl⟩ := Edit.through_eq_error.1 ((hwithin get).symm.trans h)
  have hmem : ∀ d ∈ c :: post, d ∈ s.components := fun d hd =>
    happend ▸ List.mem_append_right _ hd
  have hcmem := hmem c List.mem_cons_self
  obtain ⟨he, hfirst⟩ := Component.within_eq_error (hfit c hcmem) hc (haccess c hcmem hc) hpart
  have hquiet := hquiet he
  have hbehind : s.components.filter (·.contains key) = c :: post.filter (·.contains key) := by
    have hnone : pre.filter (·.contains key) = [] :=
      List.filter_eq_nil_iff.2 fun d hd => by rw [hpre d hd]; exact Bool.false_ne_true
    rw [happend, List.filter_append, hnone, List.nil_append, List.filter_cons, if_pos hc]
  -- nothing is done in front of the first component; it is settled, and those behind are narrowed:
  refine .of ?_
  rw [happend]
  refine List.rel_append (Component.Upto.forall₂_refl pre) (.cons ?_ ?_)
  · rcases hfirst with rfl | ⟨o, rfl, rfl⟩
    · exact .refl _
    · exact Component.upto_settle (hfit _ hcmem) (hordered _ hcmem) (hquiet.calm o hcmem hc)
  · refine List.forall₂_map_right_iff.2 (List.forall₂_same.2 fun d hd => ?_)
    have hdmem := hmem d (List.mem_cons_of_mem _ hd)
    split
    · next hkey =>
      refine Component.upto_select (hfit d hdmem) (hordered d hdmem) (haccess d hdmem hkey) ?_ ?_
      · rintro o rfl
        exact hquiet.calm o hdmem hkey
      · rintro o rfl
        refine hquiet.narrowed o ?_
        rw [hbehind]
        exact List.mem_filter.2 ⟨hd, hkey⟩
    · exact .refl d

end Traces

namespace Node

variable {n n' : Node} {key : String} {e : TreeError}

/-- A failed access leaves a tree behind that nobody can tell from the one before. -/
theorem indistinct_of_within_eq_error (hsound : n.Sound) (hordered : n.Ordered)
    (h : (Node.within key get : Edit Node Node) n = .error e n')
    (hquiet : e = .notDerived key → Component.Quiet key n.components) : Indistinct n n' := by
  cases n with
  | spec s =>
    obtain ⟨s', hpart, rfl⟩ := Edit.through_eq_error.1 ((within_spec key get s).symm.trans h)
    exact .spec (Spec.upto_of_within_eq_error hsound.fit hordered hpart hquiet)
  | list l =>
    -- an entry is found or not, and no other is touched
    obtain ⟨l', hpart, rfl⟩ := Edit.through_eq_error.1 ((within_list key get l).symm.trans h)
    rcases EntryList.within_cases l key with ⟨f, hf⟩ | ⟨p, m, -, -, -, hreaches⟩
    · cases (hf get).symm.trans hpart
      exact .refl _
    · cases (hreaches get).symm.trans hpart
  | choice c =>
    obtain ⟨body, hpart, rfl⟩ := Edit.through_eq_error.1 ((within_choice key get c).symm.trans h)
    have hupto := Spec.upto_of_within_eq_error (s := c.body) hsound.fit hordered hpart hquiet
    exact .choice (.of hupto)

end Node

namespace Registry

/-- **A failed access changes nothing that can be seen.** In every tree that a registry gives out,
after any operations, and for every node of it: if no sub-spec is handed out under a key, then after
any further operations everything that can be asked is answered as if it had not been asked for, and
so were the operations. For the key of a primitive parameter this takes a node where no branch is
closed by the access, and no sub-spec was changed that holds no value. -/
theorem sameAnswers_of_failed_access {r : Registry} {n m m' : Node} {path : List String}
    {key : String} {e : TreeError} (h : r.Reachable n) (hm : n.descend? path = some m)
    (hfailed : (Node.within key MonadState.get : Edit Node Node) m = .error e m')
    (hquiet : e = .notDerived key → Component.Quiet key m.components)
    (operations : List Operation) :
    Node.SameAnswers r.catalog (Operation.applyAll r.catalog operations m)
        (Operation.applyAll r.catalog operations m') ∧
      Operation.answersAll r.catalog operations m
        = Operation.answersAll r.catalog operations m' := by
  have heverywhere := ((Node.lasting_ordered r.catalog).reachable h).descend hm
  have hindistinct :=
    Node.indistinct_of_within_eq_error heverywhere.sound heverywhere.here hfailed hquiet
  exact ⟨(hindistinct.applyAll r.catalog operations).sameAnswers r.catalog,
    hindistinct.answersAll r.catalog operations⟩

/-- A key that is declared twice, once in alternatives that share a sub-spec. -/
def exampleTwice : Registry :=
  ofLines ["``[outer-spec]``", "* `\"a`\" ``[int]``", "ONE OF", "* `\"a`\" ``[int]``",
    "* `\"sub`\" ``[inner-spec]``", "OR", "* `\"a`\" ``[int]``", "* `\"sub`\" ``[inner-spec]``",
    "END", "", "``[inner-spec]``", "* `\"x`\" ``[int]``"]

theorem sameAnswers_of_failed_access_exampleTwice :
    ∃ n n', exampleTwice.Reachable n ∧
      (Node.within "a" MonadState.get : Edit Node Node) n = .error (.notDerived "a") n' ∧
      Component.Quiet "a" n.components ∧ ∀ operations,
        Node.SameAnswers exampleTwice.catalog
            (Operation.applyAll exampleTwice.catalog operations n)
            (Operation.applyAll exampleTwice.catalog operations n') ∧
          Operation.answersAll exampleTwice.catalog operations n
            = Operation.answersAll exampleTwice.catalog operations n' := by
  let operations : List Operation := [.set "a" (.int 1), .within "sub" [.set "x" (.int 2)]]
  obtain ⟨n, hget, htest⟩ := exists_of_get exampleTwice "outer-spec" (fun n =>
    let n := Operation.applyAll exampleTwice.catalog operations n
    (match (Node.within "a" MonadState.get : Edit Node Node) n with
      | .error e _ => decide (e = .notDerived "a")
      | .ok _ _ => false) &&
    n.components.all fun
      | .oneOf o => o.liveParameter?.all (·.2.hasValue) &&
          decide (o.openBranches? = some (o.writable "a"))
      | .collection _ | .conditional _ => true) (by decide +kernel)
  obtain ⟨hfailed, hall⟩ := Bool.and_eq_true_iff.1 htest
  have hreachable := (Reachable.get hget).run operations
  generalize Operation.applyAll exampleTwice.catalog operations n = written at *
  have hshown : ∀ o, .oneOf o ∈ written.components →
      o.liveParameter?.all (·.2.hasValue) = true ∧ o.openBranches? = some (o.writable "a") := by
    intro o ho
    obtain ⟨hvalue, hopen⟩ := Bool.and_eq_true_iff.1 (List.all_eq_true.1 hall _ ho)
    exact ⟨hvalue, of_decide_eq_true hopen⟩
  have hquiet : Component.Quiet "a" written.components :=
    ⟨fun o ho _ => OneOf.calm_of_hasValue (hshown o ho).1,
      fun o ho => (hshown o (List.mem_filter.1 (List.mem_of_mem_tail ho)).1).2⟩
  -- the access fails, as it was tested above:
  cases hwithin : (Node.within "a" MonadState.get : Edit Node Node) written with
  | ok m written' =>
    rw [hwithin] at hfailed
    cases hfailed
  | error e written' =>
    rw [hwithin] at hfailed
    obtain rfl := of_decide_eq_true hfailed
    have hroot : written.descend? [] = some written := rfl
    exact ⟨written, written', hreachable, hwithin, hquiet, fun operations =>
      sameAnswers_of_failed_access hreachable hroot hwithin (fun _ => hquiet) operations⟩

/-- Alternatives of two kinds, with one key in both. -/
def exampleCrossing : Registry :=
  ofLines ["``[outer-spec]``", "ONE OF", "* `\"a`\" ``[int]``", "OR", "* `\"c`\" ``[int]``",
    "END", "ONE OF", "* `\"a`\" ``[int]``", "OR", "* `\"b`\" ``[int]``", "END"]

/-- There is no sub-spec to be handed out, and yet a branch is closed by asking for it. -/
theorem set_fails_after_failed_access :
    ∃ n n', exampleCrossing.Reachable n ∧
      (Node.within "a" MonadState.get : Edit Node Node) n = .error (.notDerived "a") n' ∧
      (Operation.set "b" (.int 1)).answers exampleCrossing.catalog n = [.ok ()] ∧
      (Operation.set "b" (.int 1)).answers exampleCrossing.catalog n'
        = [.error (.inl (.prunedBranch "b"))] := by
  obtain ⟨n, hget, htest⟩ := exists_of_get exampleCrossing "outer-spec" (fun n =>
    match (Node.within "a" MonadState.get : Edit Node Node) n with
    | .error e n' => decide (e = .notDerived "a" ∧
        (Operation.set "b" (.int 1)).answers exampleCrossing.catalog n = [.ok ()] ∧
        (Operation.set "b" (.int 1)).answers exampleCrossing.catalog n'
          = [.error (.inl (.prunedBranch "b"))])
    | .ok _ _ => false) (by decide +kernel)
  cases hwithin : (Node.within "a" MonadState.get : Edit Node Node) n with
  | ok m n' =>
    rw [hwithin] at htest
    cases htest
  | error e n' =>
    rw [hwithin] at htest
    obtain ⟨rfl, hbefore, hafter⟩ := of_decide_eq_true htest
    exact ⟨n, n', .get hget, hwithin, hbefore, hafter⟩

end Registry

end SpecTree
