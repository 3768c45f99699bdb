import SpecTree.Proofs.Status
import SpecTree.Tree.Xml

/-!
# What a node shows and what it lists

A node shows the parameters that are not closed off, and under a key the first of them of that name.
It lists those with some property, the first of each name, in the order of its components. What is
computed of a whole tree goes through such a list, with what was computed of sub-specs in their
place. Main statements:

* `Spec.parameter?_eq`, `Spec.find?_listed`: what a spec shows and lists under a key;
* `Spec.listed_map`: a list stays the same when sub-specs give way to what is known of them;
* `Node.xmlElements_eq`: what is written of a node, from what is written of its sub-specs.
-/

namespace SpecTree

variable {ν μ : Type}

namespace Parameter

/-! ## The first of a name -/

/-- What is not there is not among those with a property. -/
theorem find?_filter_eq_none {keep : Parameter ν → Bool} {ps : List (Parameter ν)} {key : String}
    (h : find? ps key = none) : find? (ps.filter keep) key = none := by
  rw [find?, List.find?_eq_none] at h ⊢
  exact fun p hp => h p (List.mem_filter.1 hp).1

/-- The first of a name is the first of those with a property, if it has the property. -/
theorem find?_filter {keep : Parameter ν → Bool} {ps : List (Parameter ν)} {key : String}
    {p : Parameter ν} (h : find? ps key = some p) (hp : keep p = true) :
    find? (ps.filter keep) key = some p := by
  induction ps with
  | nil => cases h
  | cons q ps ih =>
    rw [find?_cons] at h
    by_cases hq : q.name = key
    · rw [if_pos hq] at h
      cases h
      rw [List.filter_cons_of_pos hp, find?_cons, if_pos hq]
    · rw [if_neg hq] at h
      rw [List.filter_cons]
      split
      · rw [find?_cons, if_neg hq]
        exact ih h
      · exact ih h

/-! ## The first of each name -/

/-- Keep a parameter if none of its name is kept already. -/
def keepFirst (kept : List (Parameter ν)) (p : Parameter ν) : List (Parameter ν) :=
  if kept.any (·.name = p.name) then kept else kept ++ [p]

/-- A name that is kept already is found where it was, any other one at the parameter that is added.
-/
theorem find?_keepFirst (kept : List (Parameter ν)) (p : Parameter ν) (key : String) :
    find? (keepFirst kept p) key = (find? kept key).or (find? [p] key) := by
  unfold keepFirst
  split
  · next hkept =>
    by_cases hp : p.name = key
    · have hsome : (find? kept key).isSome = true := by
        rw [find?, List.find?_isSome]
        simpa [hp] using hkept
      rw [Option.or_of_isSome hsome]
    · rw [find?_cons, if_neg hp]
      exact Option.or_none.symm
  · exact find?_append kept [p] key

/-- What comes first under a name is kept. -/
theorem find?_distinct (ps : List (Parameter ν)) (key : String) :
    find? (distinct ps) key = find? ps key := by
  -- the induction is on what is still to come, whatever is kept already:
  have hfold : ∀ kept : List (Parameter ν),
      find? (ps.foldl keepFirst kept) key = (find? kept key).or (find? ps key) := by
    induction ps with
    | nil => exact fun kept => Option.or_none.symm
    | cons p ps ih =>
      intro kept
      rw [List.foldl_cons, ih, find?_keepFirst, Option.or_assoc, ← find?_append]
      rfl
  exact hfold []

/-- What comes first is kept, and comes first. -/
theorem head?_distinct (ps : List (Parameter ν)) : (distinct ps).head? = ps.head? := by
  cases ps with
  | nil => rfl
  | cons p ps =>
    have hfirst : List.head? [p] = some p := rfl
    refine List.foldlRecOn (motive := fun kept => kept.head? = some p) ps keepFirst hfirst ?_
    intro kept hkept q _
    unfold keepFirst
    split
    · exact hkept
    · rw [List.head?_append, hkept]
      rfl

/-- No name is left twice. -/
theorem distinct_distinct (ps : List (Parameter ν)) : Distinct (distinct ps) := by
  refine List.foldlRecOn (motive := Distinct) ps keepFirst List.nodup_nil fun kept hkept p _ => ?_
  unfold keepFirst
  split
  · exact hkept
  · next hnew =>
    unfold Distinct at hkept ⊢
    rw [List.map_append, List.map_singleton, List.nodup_append]
    refine ⟨hkept, List.nodup_cons.2 ⟨List.not_mem_nil, List.nodup_nil⟩, ?_⟩
    simpa using hnew

/-- What is kept is what comes first under its name. -/
theorem mem_distinct_iff {p : Parameter ν} {ps : List (Parameter ν)} :
    p ∈ distinct ps ↔ find? ps p.name = some p := by
  constructor
  · intro hp
    rw [← find?_distinct, find?_of_mem (distinct_distinct ps) hp]
  · intro hp
    rw [← find?_distinct] at hp
    exact mem_of_find? hp

/-- A map leaves the names alone, so the same parameters are the first of theirs. -/
theorem distinct_map (f : ν → μ) (ps : List (Parameter ν)) :
    distinct (ps.map (map f)) = (distinct ps).map (map f) := by
  have hstep : ∀ (kept : List (Parameter ν)) (p : Parameter ν),
      keepFirst (kept.map (map f)) (p.map f) = (keepFirst kept p).map (map f) := by
    intro kept p
    unfold keepFirst
    rw [List.any_map]
    show (if kept.any (·.name = p.name) then _ else _) = _
    split
    · rfl
    · rw [List.map_append, List.map_singleton]
  have hfold : ∀ kept : List (Parameter ν), (ps.map (map f)).foldl keepFirst (kept.map (map f))
      = (ps.foldl keepFirst kept).map (map f) := by
    induction ps with
    | nil => exact fun kept => rfl
    | cons p ps ih =>
      intro kept
      rw [List.map_cons, List.foldl_cons, hstep, ih, List.foldl_cons]
  exact hfold []

/-- A property that sees nothing of a sub-spec but what is known of it. -/
theorem filter_map {f : ν → μ} {keep : Parameter ν → Bool} {keep' : Parameter μ → Bool}
    (hkeep : ∀ p, keep' (p.map f) = keep p) (ps : List (Parameter ν)) :
    (ps.map (map f)).filter keep' = (ps.filter keep).map (map f) := by
  rw [List.filter_map]
  congr 2
  exact funext hkeep

end Parameter

/-! ## Components -/

namespace Component

variable [Judged ν] [Judged μ]

/-- The parameters that are not closed off. -/
def shown : Component ν → List (Parameter ν)
  | collection c => c.parameters
  | oneOf o => o.visibleParameters.flatten
  | conditional s => s.case :: (s.selected?.map (·.parameters)).getD []

/-- Those with a property, and of alternatives the first of each name. -/
def listed (keep : Parameter ν → Bool) : Component ν → List (Parameter ν)
  | collection c => c.parameters.filter keep
  | oneOf o => o.visibleWhere keep
  | conditional s => s.withCase (keep s.case) fun group => group.parameters.filter keep

/-- A component finds under a key the first parameter of that name that it shows. -/
theorem parameter?_eq (c : Component ν) (key : String) :
    c.parameter? key = Parameter.find? c.shown key := by
  cases c with
  | collection c => rfl
  | oneOf o => exact List.find?_flatten.symm
  | conditional s =>
    show s.parameter? key = _
    unfold Conditional.parameter? shown
    rw [Parameter.find?_cons]
    by_cases hkey : s.case.name = key
    · rw [if_pos hkey, if_pos hkey.symm]
    · rw [if_neg hkey, if_neg (Ne.symm hkey)]
      cases s.selected? <;> rfl

/-- What a component lists under a key is the first that it shows there and keeps. -/
theorem find?_listed (keep : Parameter ν → Bool) (c : Component ν) (key : String) :
    Parameter.find? (c.listed keep) key = Parameter.find? (c.shown.filter keep) key := by
  cases c with
  | collection c => rfl
  | oneOf o => exact Parameter.find?_distinct _ key
  | conditional s =>
    show Parameter.find? (s.withCase _ _) key = _
    unfold Conditional.withCase shown
    rw [List.filter_cons]
    cases keep s.case <;> cases s.selected? <;> rfl

/-- A component lists mapped sub-specs as it lists them before, if the test does not see them. -/
theorem listed_map {f : ν → μ} (hf : Judges f) {keep : Parameter ν → Bool}
    {keep' : Parameter μ → Bool} (hkeep : ∀ p, keep' (p.map f) = keep p) (c : Component ν) :
    (c.map f).listed keep' = (c.listed keep).map (Parameter.map f) := by
  cases c with
  | collection c => exact Parameter.filter_map hkeep c.parameters
  | oneOf o =>
    show Parameter.distinct ((o.map f).visibleParameters.flatten.filter keep') = _
    rw [OneOf.visibleParameters_map hf, ← List.map_flatten, Parameter.filter_map hkeep,
      Parameter.distinct_map]
    rfl
  | conditional s =>
    show (s.map f).withCase (keep' (s.case.map f)) _ = (s.withCase _ _).map _
    unfold Conditional.withCase
    rw [Conditional.selected?_map, hkeep, List.map_append]
    congr 1
    · cases keep s.case <;> rfl
    · cases s.selected? with
      | none => rfl
      | some group => exact Parameter.filter_map hkeep group.parameters

end Component

/-! ## Specs -/

namespace Spec

variable [Judged ν] [Judged μ]

/-- The parameters that are not closed off. -/
def shown (s : Spec ν) : List (Parameter ν) := s.components.flatMap Component.shown

/-- Those with a property, the first of each name. -/
def listed (keep : Parameter ν → Bool) (s : Spec ν) : List (Parameter ν) :=
  Parameter.distinct (s.components.flatMap (Component.listed keep))

theorem complete_eq (s : Spec ν) : s.complete = s.listed Parameter.isComplete :=
  congrArg (fun f => Parameter.distinct (s.components.flatMap f))
    (funext fun c => by cases c <;> rfl)

theorem unfilled_eq (s : Spec ν) : s.unfilled = s.listed (!·.isComplete) :=
  congrArg (fun f => Parameter.distinct (s.components.flatMap f))
    (funext fun c => by cases c <;> rfl)

theorem valued_eq (s : Spec ν) : s.valued = s.listed Parameter.hasValue :=
  congrArg (fun f => Parameter.distinct (s.components.flatMap f))
    (funext fun c => by cases c <;> rfl)

/-- A spec shows the first of a name. -/
theorem parameter?_eq (s : Spec ν) (key : String) :
    s.parameter? key = Parameter.find? s.shown key := by
  unfold parameter? shown Parameter.find?
  rw [List.find?_flatMap]
  exact congrArg (s.components.findSome? ·) (funext fun c => c.parameter?_eq key)

/-- A spec lists the first of a name that has the property. -/
theorem find?_listed (keep : Parameter ν → Bool) (s : Spec ν) (key : String) :
    Parameter.find? (s.listed keep) key = Parameter.find? (s.shown.filter keep) key := by
  unfold listed shown
  rw [Parameter.find?_distinct, List.filter_flatMap]
  unfold Parameter.find?
  rw [List.find?_flatMap, List.find?_flatMap]
  exact congrArg (s.components.findSome? ·) (funext fun c => c.find?_listed keep key)

/-- **Lists of parameters see nothing of a sub-spec but what is known of it.** -/
theorem listed_map {f : ν → μ} (hf : Judges f) {keep : Parameter ν → Bool}
    {keep' : Parameter μ → Bool} (hkeep : ∀ p, keep' (p.map f) = keep p) (s : Spec ν) :
    (s.map f).listed keep' = (s.listed keep).map (Parameter.map f) := by
  unfold listed map
  rw [List.flatMap_map, ← Parameter.distinct_map, List.map_flatMap]
  congr 2
  exact funext fun c => c.listed_map hf hkeep

theorem complete_map {f : ν → μ} (hf : Judges f) (s : Spec ν) :
    (s.map f).complete = s.complete.map (Parameter.map f) := by
  rw [complete_eq, complete_eq, listed_map hf (Parameter.isComplete_map hf)]

theorem unfilled_map {f : ν → μ} (hf : Judges f) (s : Spec ν) :
    (s.map f).unfilled = s.unfilled.map (Parameter.map f) := by
  rw [unfilled_eq, unfilled_eq, listed_map hf fun p => congrArg (!·) (Parameter.isComplete_map hf p)]

theorem valued_map {f : ν → μ} (hf : Judges f) (s : Spec ν) :
    (s.map f).valued = s.valued.map (Parameter.map f) := by
  rw [valued_eq, valued_eq, listed_map hf (Parameter.hasValue_map hf)]

end Spec

/-! ## Nodes -/

namespace Node

/-- The parameters of a node that are not closed off. -/
def shown : Node → List (Parameter Node)
  | spec s => s.shown
  | list l => l.entries
  | choice c => c.body.shown

/-- Those with a property, of a spec or a choice the first of each name. -/
def listed (keep : Parameter Node → Bool) : Node → List (Parameter Node)
  | spec s => s.listed keep
  | list l => l.entries.filter keep
  | choice c => c.body.listed keep

/-- The complete parameters of a node are those shown that are complete. -/
theorem complete_eq (n : Node) : n.complete = n.listed Parameter.isComplete := by
  cases n with
  | spec s => exact s.complete_eq
  | list l => rfl
  | choice c => exact c.body.complete_eq

/-- The unfilled parameters of a node are those shown that are not complete. -/
theorem unfilled_eq (n : Node) : n.unfilled = n.listed (!·.isComplete) := by
  cases n with
  | spec s => exact s.unfilled_eq
  | list l => rfl
  | choice c => exact c.body.unfilled_eq

/-- A node shows the first of a name. -/
theorem parameter?_eq_find?_shown (n : Node) (key : String) :
    n.parameter? key = Parameter.find? n.shown key := by
  cases n with
  | spec s => exact s.parameter?_eq key
  | list l => rfl
  | choice c => exact c.body.parameter?_eq key

/-- A node lists the first of a name that has the property. -/
theorem find?_listed (keep : Parameter Node → Bool) (n : Node) (key : String) :
    Parameter.find? (n.listed keep) key = Parameter.find? (n.shown.filter keep) key := by
  cases n with
  | spec s => exact s.find?_listed keep key
  | list l => rfl
  | choice c => exact c.body.find?_listed keep key

section Judge

variable {α : Type} (spec : Spec (Judgement α) → α) (list : EntryList (Judgement α) → α)
  (choice : Choice (Judgement α) → α)

/-- What is computed of a spec sees what was computed of its sub-specs. -/
theorem result_judge_spec (s : Spec Node) :
    (judge spec list choice (.spec s)).result = spec (s.map (judge spec list choice)) := by
  unfold judge
  rw [fold_spec]

theorem result_judge_list (l : EntryList Node) :
    (judge spec list choice (.list l)).result = list (l.map (judge spec list choice)) := by
  unfold judge
  rw [fold_list]

theorem result_judge_choice (c : Choice Node) :
    (judge spec list choice (.choice c)).result = choice (c.map (judge spec list choice)) := by
  unfold judge
  rw [fold_choice]

end Judge

end Node

/-! ## What is written -/

namespace XmlElement

/-- What is written for a parameter of a node. -/
def ofSlot (p : Parameter Node) : List XmlElement :=
  match p.value, p.node with
  | some value, _ => [parameter p.name value]
  | none, some node => [list p.name node.xmlElements]
  | none, none => []

/-- A parameter is written the same, from its sub-spec or from what was computed of it. -/
theorem flatMap_ofParameter {f : Node → Judgement (List XmlElement)}
    (hf : ∀ m, (f m).result = m.xmlElements) (ps : List (Parameter Node)) :
    (ps.map (Parameter.map f)).flatMap ofParameter = ps.flatMap ofSlot := by
  rw [List.flatMap_map]
  congr 1
  funext p
  unfold ofParameter ofSlot Parameter.map
  cases p.value with
  | some value => rfl
  | none =>
    cases p.node with
    | none => rfl
    | some m => simp only [Option.map_some, hf]

end XmlElement

/-- **A node is written as its parameters that hold a value.** -/
theorem Node.xmlElements_eq (n : Node) : n.xmlElements = n.valued.flatMap XmlElement.ofSlot := by
  unfold xmlElements
  cases n with
  | spec s =>
    rw [result_judge_spec, Spec.valued_map (judges_judge _ _ _)]
    exact XmlElement.flatMap_ofParameter (fun m => rfl) s.valued
  | list l =>
    rw [result_judge_list]
    show ((l.entries.map _).filter _).flatMap _ = _
    rw [Parameter.filter_map (Parameter.hasValue_map (judges_judge _ _ _))]
    exact XmlElement.flatMap_ofParameter (fun m => rfl) l.valued
  | choice c =>
    rw [result_judge_choice]
    show (c.body.map _).valued.flatMap _ = _
    rw [Spec.valued_map (judges_judge _ _ _)]
    exact XmlElement.flatMap_ofParameter (fun m => rfl) c.body.valued

end SpecTree
