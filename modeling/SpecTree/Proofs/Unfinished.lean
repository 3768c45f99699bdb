import SpecTree.Proofs.Shape
import SpecTree.Tree.Open

/-!
# An incomplete tree says why

A tree that is not complete shows a parameter that needs something, or a choice that is open. There
is one exception, a list to which nothing was added yet. Main statement:
`Registry.unfilled_or_open_of_not_isComplete`; it is put together from `Collection.unfilled_ne_nil`,
`OneOf.unfilled_ne_nil` and `Conditional.unfilled_or_open`.
-/

namespace SpecTree

variable {ν : Type}

/-- The first of each name are some, if there are any. -/
theorem Parameter.distinct_ne_nil {ps : List (Parameter ν)} (h : ps ≠ []) : distinct ps ≠ [] := by
  cases ps with
  | nil => contradiction
  | cons p ps =>
    have hstart : [p] ≠ [] := List.cons_ne_nil p []
    refine List.foldlRecOn (motive := fun kept => kept ≠ []) ps _ hstart fun kept hkept q _ => ?_
    split
    · exact hkept
    · exact List.append_ne_nil_of_left_ne_nil hkept _

variable [Judged ν]

/-- Parameters that are not all complete are not all filled. -/
theorem Parameter.filter_ne_nil_of_all {ps : List (Parameter ν)}
    (h : ps.all isComplete = false) : ps.filter (!·.isComplete) ≠ [] := by
  obtain ⟨p, hp, hincomplete⟩ := List.all_eq_false.1 h
  exact List.ne_nil_of_mem (List.mem_filter.2 ⟨hp, by simpa using hincomplete⟩)

/-! ## Components -/

theorem Collection.unfilled_ne_nil {c : Collection ν}
    (h : c.parameters ≠ [] ∨ c.emptyIsComplete = true) (hincomplete : c.isComplete = false) :
    c.unfilled ≠ [] := by
  unfold isComplete isEmpty at hincomplete
  split at hincomplete
  · next hempty =>
    rw [hincomplete] at h
    exact absurd (List.isEmpty_iff.1 hempty) (h.resolve_right Bool.false_ne_true)
  · exact Parameter.filter_ne_nil_of_all hincomplete

theorem OneOf.unfilled_ne_nil {o : OneOf ν} (h : o.visible ≠ [])
    (hincomplete : o.isComplete = false) : o.unfilled ≠ [] := by
  obtain ⟨i, hi⟩ := List.exists_mem_of_ne_nil _ h
  have hbranch : o.branchParameters i ∈ o.visibleParameters := List.mem_map_of_mem hi
  have hall : (o.branchParameters i).all Parameter.isComplete = false := by
    simpa using List.any_eq_false.1 hincomplete _ hbranch
  -- a parameter of the branch that is not complete is among those of all open branches:
  obtain ⟨p, hp⟩ := List.exists_mem_of_ne_nil _ (Parameter.filter_ne_nil_of_all hall)
  obtain ⟨hp, hneeds⟩ := List.mem_filter.1 hp
  refine Parameter.distinct_ne_nil (List.ne_nil_of_mem (a := p) ?_)
  exact List.mem_filter.2 ⟨List.mem_flatten_of_mem hbranch hp, hneeds⟩

namespace Conditional

variable {s : Conditional ν}

omit [Judged ν] in
/-- Either truth value chooses a group. -/
theorem Shaped.exists_selected? {S : ν → Prop} (h : s.Shaped) (hfit : s.case.Fit S) {v : Value}
    (hv : s.case.get? = some v) : ∃ group, s.selected? = some group := by
  have htype : s.case.type = .primitive v.type := by
    refine hfit.typed v ?_
    unfold Parameter.get? at hv
    cases hvalue : s.case.value with
    | some w =>
      rw [hvalue] at hv
      exact .inl hv
    | none =>
      rw [hvalue] at hv
      exact .inr hv
  obtain ⟨b, rfl⟩ : ∃ b, v = .bool b := by
    rw [h.type] at htype
    cases v <;> simp_all [Value.type]
  -- one of the two groups is for the value:
  have hany : (s.branches.map (·.1)).any (· == .bool b) = true := by
    rw [h.values]
    cases b <;> rfl
  rw [List.any_map, ← List.findIdx?_isSome] at hany
  obtain ⟨i, hi⟩ := Option.isSome_iff_exists.1 hany
  obtain ⟨hlt, -⟩ := List.findIdx?_eq_some_iff_getElem.1 hi
  refine ⟨s.branches[i].2, selected?_eq_some.2 ⟨i, s.branches[i].1, ?_, ?_⟩⟩
  · unfold selectedIndex?
    rw [hv]
    exact hi
  · exact List.getElem?_eq_getElem hlt

theorem unfilled_or_open {S : ν → Prop} (h : s.Shaped) (hfit : s.case.Fit S)
    (hincomplete : s.isComplete = false) : s.unfilled ≠ [] ∨ s.isOpen = true := by
  cases hcase : s.case.isComplete with
  | false =>
    refine .inl (List.ne_nil_of_mem (a := s.case) (List.mem_append_left _ ?_))
    rw [hcase]
    exact List.mem_singleton.2 rfl
  | true =>
    cases hopen : s.isOpen with
    | true => exact .inr rfl
    | false =>
      obtain ⟨v, hv⟩ : ∃ v, s.case.get? = some v := by
        rwa [isOpen, Option.isNone_eq_false_iff, Option.isSome_iff_exists] at hopen
      obtain ⟨group, hgroup⟩ := h.exists_selected? hfit hv
      obtain ⟨i, x, -, hb⟩ := selected?_eq_some.1 hgroup
      rw [isComplete, hcase, hgroup, Bool.true_and, Option.any_some] at hincomplete
      have hunfilled := Collection.unfilled_ne_nil
        (.inr (h.emptyIsComplete _ (List.mem_of_getElem? hb))) hincomplete
      refine .inl ?_
      unfold unfilled withCase
      rw [hgroup]
      exact List.append_ne_nil_of_right_ne_nil _ hunfilled

end Conditional

/-! ## Specs -/

section Specs

variable {S : ν → Prop}

/-- An incomplete component shows a parameter that needs something, or is an open conditional. -/
theorem Component.unfilled_or_open {c : Component ν} (h : c.Shaped) (hfit : c.Fit S)
    (hincomplete : c.isComplete = false) :
    c.unfilled ≠ [] ∨ ∃ s, c = .conditional s ∧ s.isOpen = true := by
  cases c with
  | collection c => exact .inl (Collection.unfilled_ne_nil (.inl h) hincomplete)
  | oneOf o =>
    have hvisible := OneOf.visible_ne_nil (OneOf.Fit.liveFirst hfit) h
    exact .inl (OneOf.unfilled_ne_nil hvisible hincomplete)
  | conditional s =>
    have hcase : s.case.Fit S := Conditional.Fit.case hfit
    exact (Conditional.unfilled_or_open h hcase hincomplete).imp_right fun hopen =>
      ⟨s, rfl, hopen⟩

theorem Spec.unfilled_or_open {s : Spec ν} (h : s.Shaped) (hfit : s.Fit S)
    (hincomplete : s.isComplete = false) :
    s.unfilled ≠ [] ∨ ∃ d, .conditional d ∈ s.components ∧ d.isOpen = true := by
  obtain ⟨c, hc, hneeds⟩ := List.all_eq_false.1 hincomplete
  rcases Component.unfilled_or_open (h c hc) (hfit c hc) (by simpa using hneeds) with
    hunfilled | ⟨d, rfl, hopen⟩
  · obtain ⟨p, hp⟩ := List.exists_mem_of_ne_nil _ hunfilled
    exact .inl (Parameter.distinct_ne_nil
      (List.ne_nil_of_mem (List.mem_flatMap.2 ⟨c, hc, hp⟩)))
  · exact .inr ⟨d, hc, hopen⟩

omit [Judged ν] in
/-- An open conditional is a choice to be made, whatever is known of sub-specs. -/
theorem Spec.openChoices_map_ne_nil {μ : Type} [Judged μ] {s : Spec ν} {d : Conditional ν}
    (hd : .conditional d ∈ s.components) (hopen : d.isOpen = true) (f : ν → μ) :
    (s.map f).openChoices ≠ [] := by
  refine List.ne_nil_of_mem (a := OpenChoice.case d.case.name) (List.mem_filterMap.2
    ⟨.conditional (d.map f), List.mem_map.2 ⟨_, hd, rfl⟩, ?_⟩)
  exact if_pos hopen

end Specs

/-! ## Trees -/

namespace Node

variable {n : Node}

/-- The open choices of a node come first, and then those below it. -/
theorem exists_openAlternations_spec (catalog : Catalog) (s : Spec Node) :
    ∃ (f : Node → Judgement (List OpenAlternation)) (below : List OpenAlternation),
      (spec s).openAlternations catalog = OpenAlternation.here (s.map f).openChoices ++ below := by
  unfold openAlternations judge
  rw [fold_spec]
  exact ⟨_, _, rfl⟩

theorem exists_openAlternations_choice (catalog : Catalog) (c : Choice Node) :
    ∃ (f : Node → Judgement (List OpenAlternation)) (below : List OpenAlternation),
      (choice c).openAlternations catalog
        = OpenAlternation.here ((if c.selected.isSome then []
            else [.type c.field (catalog.validTypes c.name c.field).types])
              ++ (c.body.map f).openChoices) ++ below := by
  unfold openAlternations judge
  rw [fold_choice]
  exact ⟨_, _, rfl⟩

theorem here_append_ne_nil {choices : List OpenChoice} (h : choices ≠ [])
    (below : List OpenAlternation) : OpenAlternation.here choices ++ below ≠ [] :=
  List.append_ne_nil_of_left_ne_nil (mt List.map_eq_nil_iff.1 h) _

/-- An incomplete node with something to fill in every component shows a parameter that needs
something, or a choice that is open, unless it is a list without entries. -/
theorem unfilled_or_open (catalog : Catalog) (h : n.Shaped) (hsound : n.Sound)
    (hincomplete : n.isComplete = false) :
    n.unfilled ≠ [] ∨ n.openAlternations catalog ≠ [] ∨
      (∃ l, n = .list l ∧ l.entries = []) ∨ n = .spec .genericList := by
  cases n with
  | spec s =>
    rcases h with rfl | h
    · exact .inr (.inr (.inr rfl))
    · rcases Spec.unfilled_or_open h hsound.fit hincomplete with hunfilled | ⟨d, hd, hopen⟩
      · exact .inl hunfilled
      · refine .inr (.inl ?_)
        obtain ⟨f, below, heq⟩ := exists_openAlternations_spec catalog s
        rw [heq]
        exact here_append_ne_nil (Spec.openChoices_map_ne_nil hd hopen f) below
  | list l =>
    by_cases hentries : l.entries = []
    · exact .inr (.inr (.inl ⟨l, rfl, hentries⟩))
    · have hempty : ¬ l.entries.isEmpty = true := mt List.isEmpty_iff.1 hentries
      have hall : (if l.entries.isEmpty then l.emptyIsComplete
        else l.entries.all Parameter.isComplete) = false := hincomplete
      rw [if_neg hempty] at hall
      exact .inl (Parameter.filter_ne_nil_of_all hall)
  | choice c =>
    -- the type is to be chosen, or the body is incomplete:
    have hbody : (c.selected.isSome && c.body.isComplete) = false := hincomplete
    obtain ⟨f, below, heq⟩ := exists_openAlternations_choice catalog c
    cases hselected : c.selected with
    | none =>
      refine .inr (.inl ?_)
      rw [heq, hselected]
      exact here_append_ne_nil (List.cons_ne_nil _ _) below
    | some type =>
      rw [hselected, Option.isSome_some, Bool.true_and] at hbody
      rcases Spec.unfilled_or_open (s := c.body) h hsound.fit hbody with
        hunfilled | ⟨d, hd, hopen⟩
      · exact .inl hunfilled
      · refine .inr (.inl ?_)
        rw [heq]
        have hopens := Spec.openChoices_map_ne_nil hd hopen f
        exact here_append_ne_nil (List.append_ne_nil_of_right_ne_nil _ hopens) below

end Node

namespace Registry

/-- **An incomplete tree says why.** In every tree that a registry gives out, after any operations,
every node that is not complete shows a parameter that needs something, or an open choice, unless
it is a list without entries. -/
theorem unfilled_or_open_of_not_isComplete {r : Registry} {n m : Node} {path : List String}
    (hr : r.Loaded) (hn : r.Reachable n) (hm : n.descend? path = some m)
    (hincomplete : m.isComplete = false) :
    m.unfilled ≠ [] ∨ m.openAlternations r.catalog ≠ [] ∨
      (∃ l, m = .list l ∧ l.entries = []) ∨ m = .spec .genericList := by
  have heverywhere := (hr.lasting_shaped.reachable hn).descend hm
  exact Node.unfilled_or_open r.catalog heverywhere.here heverywhere.sound hincomplete

/-- A condition that may be left without a value, and then nothing can be filled in. -/
def exampleSwitch : Registry :=
  ofLines ["``[switch-spec]``", "IF", "* `\"flag`\" ``[bool]`` **optional**", "THEN",
    "* `\"x`\" ``[int]``", "ELSE", "* `\"y`\" ``[int]``", "END"]

theorem unfilled_or_open_of_not_isComplete_exampleSwitch :
    exampleSwitch.Loaded ∧ ∃ n, exampleSwitch.Reachable n ∧ n.isComplete = false ∧
      n.unfilled = [] ∧ (n.openAlternations exampleSwitch.catalog ≠ [] ∨
        (∃ l, n = .list l ∧ l.entries = []) ∨ n = .spec .genericList) := by
  have hloaded : exampleSwitch.Loaded := loaded_ofLines _
  obtain ⟨n, hget, hrun⟩ := exists_of_get exampleSwitch "switch-spec"
    (fun n => n.isComplete = false ∧ n.unfilled.isEmpty = true) (by decide +kernel)
  obtain ⟨hincomplete, hempty⟩ := of_decide_eq_true hrun
  have hfilled : n.unfilled = [] := List.isEmpty_iff.1 hempty
  have hroot : n.descend? [] = some n := rfl
  have hwhy := unfilled_or_open_of_not_isComplete hloaded (.get hget) hroot hincomplete
  exact ⟨hloaded, n, .get hget, hincomplete, hfilled, hwhy.resolve_left fun hne => hne hfilled⟩

end Registry

end SpecTree
