import SpecTree.Proofs.Listing
import SpecTree.Proofs.Operation
import SpecTree.Tree.Open

/-!
# Where choices are open

The open choices of a tree are gathered by way of the parameters that its nodes list, those that are
complete before the others, while a path of keys leads to the parameters that its nodes show. The two
are the same as long as no complete parameter takes the place of one that is shown and is not
complete. Main statements:

* `Node.openAlternations_eq`: the open choices of a node and of the sub-specs that it lists;
* `Node.listed?_eq_parameter?_iff`: a node lists what it shows, unless there is a dispute;
* `Node.mem_openAlternations_iff`: choices are reported where they are open, and all of them are.
-/

namespace SpecTree

variable {ν μ : Type} [Judged ν] [Judged μ]

/-! ## Choices at a node -/

/-- The open names of alternatives do not depend on what is in the sub-specs. -/
theorem OneOf.openNames_map {f : ν → μ} (hf : Judges f) (o : OneOf ν) :
    (o.map f).openNames = o.openNames := by
  unfold openNames
  rw [visibleParameters_map hf, List.map_map]
  refine List.map_congr_left fun ps _ => ?_
  show (ps.map (Parameter.map f)).map (·.name) = _
  rw [List.map_map]
  rfl

/-- The open choices of a spec do not depend on what is in the sub-specs. -/
theorem Spec.openChoices_map {f : ν → μ} (hf : Judges f) (s : Spec ν) :
    (s.map f).openChoices = s.openChoices := by
  unfold openChoices map
  rw [List.filterMap_map]
  congr 1
  funext c
  cases c with
  | collection c => rfl
  | oneOf o =>
    show (if (o.map f).isOpen then some (OpenChoice.oneOf (o.map f).openNames) else none) = _
    unfold OneOf.isOpen
    rw [OneOf.openBranches?_map hf, OneOf.openNames_map hf]
  | conditional s => rfl

namespace Node

/-- The choices that are open at a node itself. -/
def openChoices (catalog : Catalog) : Node → List OpenChoice
  | spec s => s.openChoices
  | list _ => []
  | choice c =>
    (if c.selected.isSome then [] else [.type c.field (catalog.validTypes c.name c.field).types]) ++
      c.body.openChoices

/-! ## Choices below a node -/

/-- The choices in the sub-spec of a parameter. -/
def openBelow (catalog : Catalog) (p : Parameter Node) : List OpenAlternation :=
  match p.node with
  | some m => (m.openAlternations catalog).map (OpenAlternation.below p.name)
  | none => []

/-- What is reported of the sub-specs is what each of them reports, below its key. -/
theorem inside_map {f : Node → Judgement (List OpenAlternation)} {catalog : Catalog}
    (hf : ∀ m, (f m).result = m.openAlternations catalog) (ps : List (Parameter Node)) :
    OpenAlternation.inside (ps.map (Parameter.map f))
      = (Parameter.distinct ps).flatMap (openBelow catalog) := by
  unfold OpenAlternation.inside
  rw [Parameter.distinct_map, List.flatMap_map]
  congr 1
  funext p
  unfold openBelow Parameter.map
  cases p.node with
  | none => rfl
  | some m => simp only [Option.map_some, hf]

/-- **The open choices of a node** are those at the node itself and those in the sub-specs of its
parameters, of which the complete ones come before the others. -/
theorem openAlternations_eq (catalog : Catalog) (n : Node) :
    n.openAlternations catalog = OpenAlternation.here (n.openChoices catalog) ++
      (Parameter.distinct (n.complete ++ n.unfilled)).flatMap (openBelow catalog) := by
  unfold openAlternations
  cases n with
  | spec s =>
    rw [result_judge_spec, Spec.openChoices_map (judges_judge _ _ _),
      Spec.complete_map (judges_judge _ _ _), Spec.unfilled_map (judges_judge _ _ _),
      ← List.map_append, inside_map fun m => rfl]
    rfl
  | list l =>
    rw [result_judge_list]
    show OpenAlternation.inside ((l.entries.map _).filter _ ++ (l.entries.map _).filter _) = _
    rw [Parameter.filter_map (Parameter.isComplete_map (judges_judge _ _ _)),
      Parameter.filter_map fun p => congrArg (!·) (Parameter.isComplete_map (judges_judge _ _ _) p),
      ← List.map_append, inside_map fun m => rfl]
    rfl
  | choice c =>
    rw [result_judge_choice]
    show OpenAlternation.here (_ ++ (c.body.map _).openChoices) ++
      OpenAlternation.inside ((c.body.map _).complete ++ (c.body.map _).unfilled) = _
    rw [Spec.openChoices_map (judges_judge _ _ _), Spec.complete_map (judges_judge _ _ _),
      Spec.unfilled_map (judges_judge _ _ _), ← List.map_append, inside_map fun m => rfl]
    rfl

/-- The parameter that a node lists under a key, a complete one before the others. -/
def listed? (n : Node) (key : String) : Option (Parameter Node) :=
  Parameter.find? (n.complete ++ n.unfilled) key

/-- At the node itself its own choices are reported. -/
theorem mem_openAlternations_nil {catalog : Catalog} {n : Node} {choice : OpenChoice} :
    ⟨[], choice⟩ ∈ n.openAlternations catalog ↔ choice ∈ n.openChoices catalog := by
  rw [openAlternations_eq, List.mem_append]
  constructor
  · rintro (hhere | hbelow)
    · obtain ⟨choice', hchoice, heq⟩ := List.mem_map.1 hhere
      cases heq
      exact hchoice
    · -- what is below has a path
      obtain ⟨p, -, hp⟩ := List.mem_flatMap.1 hbelow
      unfold openBelow at hp
      split at hp
      · obtain ⟨a, -, ha⟩ := List.mem_map.1 hp
        cases ha
      · cases hp
  · exact fun hchoice => .inl (List.mem_map_of_mem hchoice)

/-- Below a key the choices of the sub-spec that is listed first under it are reported. -/
theorem mem_openAlternations_cons {catalog : Catalog} {n : Node} {key : String}
    {path : List String} {choice : OpenChoice} :
    ⟨key :: path, choice⟩ ∈ n.openAlternations catalog ↔
      ∃ m, (n.listed? key).bind (·.node) = some m ∧ ⟨path, choice⟩ ∈ m.openAlternations catalog := by
  rw [openAlternations_eq, List.mem_append]
  constructor
  · rintro (hhere | hbelow)
    · -- an alternation of the node itself has no path:
      obtain ⟨choice', -, heq⟩ := List.mem_map.1 hhere
      cases heq
    · obtain ⟨p, hp, hmem⟩ := List.mem_flatMap.1 hbelow
      rw [Parameter.mem_distinct_iff] at hp
      unfold openBelow at hmem
      split at hmem
      · next m hm =>
        obtain ⟨⟨path', choice'⟩, ha, heq⟩ := List.mem_map.1 hmem
        cases heq
        exact ⟨m, by rw [listed?, hp, Option.bind_some, hm], ha⟩
      · cases hmem
  · rintro ⟨m, hm, hmem⟩
    obtain ⟨p, hp, hnode⟩ := Option.bind_eq_some_iff.1 hm
    obtain rfl := Parameter.name_of_find? hp
    refine .inr (List.mem_flatMap.2 ⟨p, Parameter.mem_distinct_iff.2 hp, ?_⟩)
    unfold openBelow
    rw [hnode]
    exact List.mem_map.2 ⟨_, hmem, rfl⟩

/-! ## Paths -/

/-- Does a node show a parameter under a key that is not complete, while it lists one of the name
that is? -/
def disputes (n : Node) (key : String) : Bool :=
  (n.parameter? key).any fun p => !p.isComplete && n.complete.any (·.name = key)

/-- Is there no dispute about any key of a path, at the node where it is come to? -/
def undisputed (n : Node) : List String → Bool
  | [] => true
  | key :: path => !n.disputes key && (n.child? key).all (undisputed · path)

/-- **A node lists under a key what it shows there, unless there is a dispute.** -/
theorem listed?_eq_parameter?_iff {n : Node} {key : String} :
    n.listed? key = n.parameter? key ↔ n.disputes key = false := by
  have hcomplete : n.complete.any (·.name = key)
      = (Parameter.find? (n.shown.filter Parameter.isComplete) key).isSome := by
    rw [← find?_listed, ← complete_eq, Parameter.find?, List.isSome_find?]
  unfold listed? disputes
  rw [Parameter.find?_append, parameter?_eq_find?_shown, hcomplete, complete_eq, unfilled_eq,
    find?_listed, find?_listed]
  cases hshown : Parameter.find? n.shown key with
  | none =>
    simp [Parameter.find?_filter_eq_none hshown]
  | some p =>
    cases hp : p.isComplete with
    | true => simp [hp, Parameter.find?_filter hshown hp]
    | false =>
      have hneeds : (!p.isComplete) = true := by rw [hp]; rfl
      have hneeded : Parameter.find? (n.shown.filter (!·.isComplete)) key = some p :=
        Parameter.find?_filter hshown hneeds
      rw [hneeded]
      cases hfirst : Parameter.find? (n.shown.filter Parameter.isComplete) key with
      | none => simp
      | some q =>
        -- the complete one takes the place of the one that is shown
        have hq : q.isComplete = true := (List.mem_filter.1 (Parameter.mem_of_find? hfirst)).2
        have hne : q ≠ p := by
          rintro rfl
          rw [hp] at hq
          cases hq
        simp [hp, hne]

/-- **Choices are reported where they are open, and all of them are.** A choice is reported with a
path about which there is no dispute exactly if the path leads to a node where the choice is open. -/
theorem mem_openAlternations_iff {catalog : Catalog} {n : Node} {path : List String}
    {choice : OpenChoice} (h : n.undisputed path = true) :
    ⟨path, choice⟩ ∈ n.openAlternations catalog ↔
      ∃ m, n.descend? path = some m ∧ choice ∈ m.openChoices catalog := by
  induction path generalizing n with
  | nil =>
    rw [mem_openAlternations_nil]
    show _ ↔ ∃ m, some n = some m ∧ _
    simp
  | cons key path ih =>
    unfold undisputed at h
    rw [Bool.and_eq_true, Bool.not_eq_true', Option.all_eq_true] at h
    obtain ⟨hkey, hbelow⟩ := h
    rw [mem_openAlternations_cons, listed?_eq_parameter?_iff.2 hkey]
    show (∃ m, n.child? key = some m ∧ _) ↔ ∃ m, (n.child? key).bind (descend? · path) = some m ∧ _
    constructor
    · rintro ⟨m, hm, hmem⟩
      rw [hm, Option.bind_some]
      exact (ih (hbelow m hm)).1 hmem
    · rintro ⟨m, hm, hmem⟩
      obtain ⟨child, hchild, hrest⟩ := Option.bind_eq_some_iff.1 hm
      exact ⟨child, hchild, (ih (hbelow child hchild)).2 ⟨m, hrest, hmem⟩⟩

end Node

namespace Registry

/-- Branches with one key for different sub-specs, the complete one behind the other or before it. -/
def exampleBranches : Registry :=
  ofLines ["``[outer-spec]``", "ONE OF", "* `\"sub`\" ``[x-spec]``", "OR",
    "* `\"sub`\" ``[y-spec]``", "END", "", "``[turned-spec]``", "ONE OF", "* `\"sub`\" ``[y-spec]``",
    "OR", "* `\"sub`\" ``[x-spec]``", "END", "", "``[x-spec]``", "ONE OF", "* `\"a`\" ``[int]``",
    "OR", "* `\"b`\" ``[int]``", "END", "", "``[y-spec]``", "ONE OF", "* `\"c`\" ``[int]`` **1**",
    "OR", "* `\"d`\" ``[int]``", "END"]

theorem mem_openAlternations_iff_exampleBranches :
    ∃ n, exampleBranches.get "turned-spec" = .ok n ∧ n.undisputed ["sub"] = true ∧
      ⟨["sub"], .oneOf [["c"], ["d"]]⟩ ∈ n.openAlternations exampleBranches.catalog ∧
      ∃ m, n.descend? ["sub"] = some m ∧
        .oneOf [["c"], ["d"]] ∈ m.openChoices exampleBranches.catalog := by
  obtain ⟨n, hget, hrun⟩ := exists_of_get exampleBranches "turned-spec"
    (fun n => n.undisputed ["sub"] = true ∧
      ⟨["sub"], .oneOf [["c"], ["d"]]⟩ ∈ n.openAlternations exampleBranches.catalog)
    (by decide +kernel)
  obtain ⟨hundisputed, hmem⟩ := of_decide_eq_true hrun
  exact ⟨n, hget, hundisputed, hmem, (Node.mem_openAlternations_iff hundisputed).1 hmem⟩

/-- Where there is a dispute, the choice that is reported is not the one that is open. -/
theorem open_elsewhere : ∃ (r : Registry) (name : String) (n m : Node),
    r.get name = .ok n ∧ n.descend? ["sub"] = some m ∧ "sub" ∈ n.unfilled.map (·.name) ∧
      .oneOf [["a"], ["b"]] ∈ m.openChoices r.catalog ∧
      ⟨["sub"], .oneOf [["a"], ["b"]]⟩ ∉ n.openAlternations r.catalog ∧
      .oneOf [["c"], ["d"]] ∉ m.openChoices r.catalog ∧
      ⟨["sub"], .oneOf [["c"], ["d"]]⟩ ∈ n.openAlternations r.catalog := by
  obtain ⟨n, hget, hrun⟩ := exists_of_get exampleBranches "outer-spec"
    (fun n => (n.descend? ["sub"]).any fun m => "sub" ∈ n.unfilled.map (·.name) ∧
      .oneOf [["a"], ["b"]] ∈ m.openChoices exampleBranches.catalog ∧
      ⟨["sub"], .oneOf [["a"], ["b"]]⟩ ∉ n.openAlternations exampleBranches.catalog ∧
      .oneOf [["c"], ["d"]] ∉ m.openChoices exampleBranches.catalog ∧
      ⟨["sub"], .oneOf [["c"], ["d"]]⟩ ∈ n.openAlternations exampleBranches.catalog)
    (by decide +kernel)
  obtain ⟨m, hm, hopen⟩ := (Option.any_eq_true _ _).1 hrun
  exact ⟨exampleBranches, "outer-spec", n, m, hget, hm, of_decide_eq_true hopen⟩

end Registry

end SpecTree
