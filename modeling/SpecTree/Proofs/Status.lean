import SpecTree.Proofs.OneOf.Reading
import SpecTree.Tree.Node

/-!
# The status of a node

Whether a tree holds a value and whether it is complete is computed by a fold over the whole
tree, and asked of a node with its sub-specs at hand. Main statements: `hasValue_eq` and
`isComplete_eq`, both give the same answer. A question about a part sees nothing of a sub-spec
but these two answers, and so does not change when each sub-spec gives way to its status
(`Judges`), or to anything else that is judged like it (`Node.judges_judge`).
-/

namespace SpecTree

/-- A map of sub-specs that keeps what is known of them. -/
structure Judges {ν μ : Type} [Judged ν] [Judged μ] (f : ν → μ) : Prop where
  hasValue : ∀ m, Judged.hasValue (f m) = Judged.hasValue m
  isComplete : ∀ m, Judged.isComplete (f m) = Judged.isComplete m

variable {ν μ : Type} [Judged ν] [Judged μ] {f : ν → μ}

namespace Parameter

/-- A parameter sees only what is known of its sub-spec. -/
theorem hasValue_map (hf : Judges f) (p : Parameter ν) : (p.map f).hasValue = p.hasValue := by
  have htype : (p.map f).type = p.type := rfl
  have hnode : (p.map f).node = p.node.map f := rfl
  unfold hasValue
  rw [htype, hnode]
  cases p.type with
  | primitive t => rfl
  | spec s => cases p.node <;> simp [hf.hasValue]

theorem isComplete_map (hf : Judges f) (p : Parameter ν) :
    (p.map f).isComplete = p.isComplete := by
  have htype : (p.map f).type = p.type := rfl
  have hnode : (p.map f).node = p.node.map f := rfl
  have hoptional : (p.map f).isOptional = p.isOptional := rfl
  unfold isComplete
  rw [htype, hnode, hoptional]
  cases p.type with
  | primitive t => rfl
  | spec s => cases p.node <;> simp [hf.isComplete]

omit [Judged ν] [Judged μ] in
theorem find?_map_node (f : ν → μ) (ps : List (Parameter ν)) (k : String) :
    find? (ps.map (map f)) k = (find? ps k).map (map f) := by
  unfold find?
  rw [List.find?_map]
  rfl

end Parameter

namespace Collection

theorem hasValue_map (hf : Judges f) (c : Collection ν) : (c.map f).hasValue = c.hasValue := by
  unfold hasValue map
  rw [List.any_map]
  exact congrArg (c.parameters.any ·) (funext (Parameter.hasValue_map hf))

theorem isComplete_map (hf : Judges f) (c : Collection ν) :
    (c.map f).isComplete = c.isComplete := by
  -- an empty collection is judged by itself:
  have hempty : (c.map f).isEmpty = c.isEmpty := List.isEmpty_map
  unfold isComplete
  rw [hempty]
  unfold map
  rw [List.all_map]
  congr 2
  exact funext (Parameter.isComplete_map hf)

end Collection

namespace OneOf

omit [Judged ν] [Judged μ] in
theorem declared?_map (f : ν → μ) (o : OneOf ν) (i : Nat) (k : String) :
    (o.map f).declared? i k = (o.declared? i k).map (Parameter.map f) := by
  unfold declared? map
  rw [List.getElem?_map]
  cases o.branches[i]? with
  | none => rfl
  | some b => exact Parameter.find?_map_node f b.parameters k

omit [Judged ν] [Judged μ] in
/-- The sub-spec that was handed out is the same one, mapped. -/
theorem liveParameter?_map (f : ν → μ) (o : OneOf ν) :
    (o.map f).liveParameter? = o.liveParameter?.map fun (i, p) => (i, p.map f) := by
  have hlive : (o.map f).live = o.live := rfl
  unfold liveParameter?
  rw [hlive]
  cases o.live with
  | none => rfl
  | some l =>
    obtain ⟨key, owner⟩ := l
    show ((o.map f).declared? owner key).map (owner, ·) = _
    rw [declared?_map]
    show _ = ((o.declared? owner key).map (owner, ·)).map _
    cases o.declared? owner key <;> rfl

omit [Judged ν] [Judged μ] in
/-- Which branches share a sub-spec does not depend on what is in it. -/
theorem sharing_map (f : ν → μ) (o : OneOf ν) (key : String) (owner : Nat) :
    (o.map f).sharing key owner = o.sharing key owner := by
  have hcommitted : (o.map f).committed = o.committed := by
    unfold committed indices map
    rw [List.length_map]
  have htype : ∀ i,
      ((o.map f).declared? i key).map (·.type) = (o.declared? i key).map (·.type) := by
    intro i
    rw [declared?_map, Option.map_map]
    rfl
  unfold sharing
  simp only [hcommitted, htype]

/-- Which branches are open does not depend on more than whether the handed out sub-spec has a
value. -/
theorem openBranches?_map (hf : Judges f) (o : OneOf ν) :
    (o.map f).openBranches? = o.openBranches? := by
  unfold openBranches?
  rw [liveParameter?_map]
  cases o.liveParameter? with
  | none => rfl
  | some l =>
    obtain ⟨owner, p⟩ := l
    show (if (p.map f).hasValue then some ((o.map f).sharing p.name owner) else o.active) = _
    rw [Parameter.hasValue_map hf, sharing_map]

omit [Judged ν] [Judged μ] in
/-- Branches are mapped after the handed out sub-spec stands in, or before. -/
theorem branchParameters_map (f : ν → μ) (o : OneOf ν) (i : Nat) :
    (o.map f).branchParameters i = (o.branchParameters i).map (Parameter.map f) := by
  -- what a branch declares, before the sub-spec that was handed out stands in for a copy:
  have hown : (((o.map f).branches[i]?.map (·.parameters)).getD [])
      = ((o.branches[i]?.map (·.parameters)).getD []).map (Parameter.map f) := by
    unfold map
    rw [List.getElem?_map]
    cases o.branches[i]? <;> rfl
  unfold branchParameters
  rw [hown, liveParameter?_map]
  cases o.liveParameter? with
  | none => rfl
  | some l =>
    obtain ⟨owner, p⟩ := l
    show (if owner = i then _ else _) = _
    by_cases ho : owner = i
    · simp only [if_pos ho]
    · simp only [if_neg ho, List.map_map]
      apply List.map_congr_left
      intro q _
      show (if p.name = q.name ∧ p.type = q.type then p.map f else q.map f) = _
      simp only [Function.comp]
      split <;> rfl

/-- The same branches are shown, with their sub-specs mapped. -/
theorem visibleParameters_map (hf : Judges f) (o : OneOf ν) :
    (o.map f).visibleParameters = o.visibleParameters.map (List.map (Parameter.map f)) := by
  have hvisible : (o.map f).visible = o.visible := by
    unfold visible indices
    rw [openBranches?_map hf]
    unfold map
    rw [List.length_map]
  unfold visibleParameters
  rw [hvisible, List.map_map]
  exact List.map_congr_left fun i _ => branchParameters_map f o i

/-- Alternatives hold a value as before, once their sub-specs are judged alike. -/
theorem hasValue_map (hf : Judges f) (o : OneOf ν) : (o.map f).hasValue = o.hasValue := by
  unfold hasValue
  rw [visibleParameters_map hf, List.any_map]
  congr 1
  funext ps
  show (ps.map (Parameter.map f)).any _ = _
  rw [List.any_map]
  exact congrArg (ps.any ·) (funext (Parameter.hasValue_map hf))

/-- Alternatives are complete as before, once their sub-specs are judged alike. -/
theorem isComplete_map (hf : Judges f) (o : OneOf ν) : (o.map f).isComplete = o.isComplete := by
  unfold isComplete
  rw [visibleParameters_map hf, List.any_map]
  congr 1
  funext ps
  show (ps.map (Parameter.map f)).all _ = _
  rw [List.all_map]
  exact congrArg (ps.all ·) (funext (Parameter.isComplete_map hf))

end OneOf

namespace Conditional

omit [Judged ν] [Judged μ] in
/-- The case parameter is no sub-spec, so the same group is selected. -/
theorem selected?_map (f : ν → μ) (s : Conditional ν) :
    (s.map f).selected? = s.selected?.map (Collection.map f) := by
  have hindex : (s.map f).selectedIndex? = s.selectedIndex? := by
    unfold selectedIndex?
    show (s.case.get?.bind fun current => (s.map f).branches.findIdx? (·.1 == current)) = _
    congr 1
    funext current
    unfold map
    rw [List.findIdx?_map]
    rfl
  unfold selected?
  rw [hindex]
  cases s.selectedIndex? with
  | none => rfl
  | some i =>
    show (s.map f).branches[i]?.map (·.2) = (s.branches[i]?.map (·.2)).map _
    unfold map
    rw [List.getElem?_map]
    cases s.branches[i]? <;> rfl

theorem hasValue_map (hf : Judges f) (s : Conditional ν) : (s.map f).hasValue = s.hasValue := by
  unfold hasValue
  rw [selected?_map, Option.any_map]
  show ((s.case.map f).hasValue || ((s.case.map f).isComplete && _)) = _
  rw [Parameter.hasValue_map hf, Parameter.isComplete_map hf]
  congr 2
  exact congrArg (s.selected?.any ·) (funext (Collection.hasValue_map hf))

theorem isComplete_map (hf : Judges f) (s : Conditional ν) :
    (s.map f).isComplete = s.isComplete := by
  unfold isComplete
  rw [selected?_map, Option.any_map]
  show ((s.case.map f).isComplete && _) = _
  rw [Parameter.isComplete_map hf]
  congr 1
  exact congrArg (s.selected?.any ·) (funext (Collection.isComplete_map hf))

end Conditional

namespace Component

theorem hasValue_map (hf : Judges f) (c : Component ν) : (c.map f).hasValue = c.hasValue := by
  cases c with
  | collection c => exact Collection.hasValue_map hf c
  | oneOf o => exact OneOf.hasValue_map hf o
  | conditional s => exact Conditional.hasValue_map hf s

theorem isComplete_map (hf : Judges f) (c : Component ν) :
    (c.map f).isComplete = c.isComplete := by
  cases c with
  | collection c => exact Collection.isComplete_map hf c
  | oneOf o => exact OneOf.isComplete_map hf o
  | conditional s => exact Conditional.isComplete_map hf s

end Component

namespace Spec

theorem hasValue_map (hf : Judges f) (s : Spec ν) : (s.map f).hasValue = s.hasValue := by
  unfold hasValue map
  rw [List.any_map]
  exact congrArg (s.components.any ·) (funext (Component.hasValue_map hf))

theorem isComplete_map (hf : Judges f) (s : Spec ν) : (s.map f).isComplete = s.isComplete := by
  unfold isComplete map
  rw [List.all_map]
  exact congrArg (s.components.all ·) (funext (Component.isComplete_map hf))

end Spec

namespace EntryList

theorem hasValue_map (hf : Judges f) (l : EntryList ν) : (l.map f).hasValue = l.hasValue := by
  unfold hasValue map
  rw [List.any_map]
  exact congrArg (l.entries.any ·) (funext (Parameter.hasValue_map hf))

theorem isComplete_map (hf : Judges f) (l : EntryList ν) :
    (l.map f).isComplete = l.isComplete := by
  unfold isComplete map
  rw [List.isEmpty_map, List.all_map]
  congr 2
  exact funext (Parameter.isComplete_map hf)

end EntryList

namespace Judgement

variable {α : Type}

/-- A judgement without what else was computed. -/
def bare (j : Judgement α) : Judgement Unit := ⟨j.hasValue, j.isComplete, ()⟩

/-- Whatever else was computed, it makes no difference to the status. -/
theorem judges_bare : Judges (bare : Judgement α → Judgement Unit) :=
  ⟨fun _ => rfl, fun _ => rfl⟩

end Judgement

namespace Node

theorem judges_status : Judges status := ⟨fun _ => rfl, fun _ => rfl⟩

/-- The answer of the fold is that of the node. -/
theorem hasValue_eq (n : Node) : Judged.hasValue n = n.hasValue := by
  show n.status.hasValue = n.hasValue
  unfold status judge
  cases n with
  | spec s =>
    rw [fold_spec]
    exact Spec.hasValue_map judges_status s
  | list l =>
    rw [fold_list]
    exact EntryList.hasValue_map judges_status l
  | choice c =>
    rw [fold_choice]
    exact congrArg (_ || ·) (Spec.hasValue_map judges_status c.body)

/-- The node is complete exactly if the fold says so. -/
theorem isComplete_eq (n : Node) : Judged.isComplete n = n.isComplete := by
  show n.status.isComplete = n.isComplete
  unfold status judge
  cases n with
  | spec s =>
    rw [fold_spec]
    exact Spec.isComplete_map judges_status s
  | list l =>
    rw [fold_list]
    exact EntryList.isComplete_map judges_status l
  | choice c =>
    rw [fold_choice]
    exact congrArg (_ && ·) (Spec.isComplete_map judges_status c.body)

/-! ### Folds -/

section Fusion

variable {α β : Type} {spec : Spec α → α} {list : EntryList α → α} {choice : Choice α → α}
  {spec' : Spec β → β} {list' : EntryList β → β} {choice' : Choice β → β} {g : α → β}
  (hspec : ∀ s, g (spec s) = spec' (s.map g)) (hlist : ∀ l, g (list l) = list' (l.map g))
  (hchoice : ∀ c, g (choice c) = choice' (c.map g))

include hspec hlist hchoice

-- the hypotheses are used by `map_fold`, and by the others only through it:
set_option linter.unusedSectionVars false in
mutual

/-- A map of what a fold computes can be made a part of the fold. -/
theorem map_fold : ∀ n : Node, g (fold spec list choice n) = fold spec' list' choice' n
  | .spec s => (hspec _).trans (congrArg spec' (map_foldSpec s))
  | .list l => (hlist _).trans (congrArg list' (map_foldList l))
  | .choice c => (hchoice _).trans (congrArg choice' (map_foldChoice c))

/-- A fold of a spec takes the map with it, through its components. -/
theorem map_foldSpec : ∀ s : Spec Node,
    (foldSpec spec list choice s).map g = foldSpec spec' list' choice' s
  | ⟨_, components, _, _, _, _, _⟩ =>
    congrArg (Spec.mk _ · _ _ _ _ _) (map_foldComponents components)

theorem map_foldList : ∀ l : EntryList Node,
    (foldList spec list choice l).map g = foldList spec' list' choice' l
  | ⟨_, entries, _⟩ => congrArg (EntryList.mk _ · _) (map_foldParameters entries)

theorem map_foldChoice : ∀ c : Choice Node,
    (foldChoice spec list choice c).map g = foldChoice spec' list' choice' c
  | ⟨_, _, _, body, _⟩ => congrArg (Choice.mk _ _ _ · _) (map_foldSpec body)

theorem map_foldComponents : ∀ cs : List (Component Node),
    (foldComponents spec list choice cs).map (Component.map g)
      = foldComponents spec' list' choice' cs
  | [] => rfl
  | c :: cs => congrArg₂ List.cons (map_foldComponent c) (map_foldComponents cs)

/-- Each kind of component passes the map on to its parameters. -/
theorem map_foldComponent : ∀ c : Component Node,
    (foldComponent spec list choice c).map g = foldComponent spec' list' choice' c
  | .collection c => congrArg Component.collection (map_foldCollection c)
  | .oneOf o => congrArg Component.oneOf (map_foldOneOf o)
  | .conditional s => congrArg Component.conditional (map_foldConditional s)

theorem map_foldCollection : ∀ c : Collection Node,
    (foldCollection spec list choice c).map g = foldCollection spec' list' choice' c
  | ⟨parameters, _, _⟩ => congrArg (Collection.mk · _ _) (map_foldParameters parameters)

theorem map_foldOneOf : ∀ o : OneOf Node,
    (foldOneOf spec list choice o).map g = foldOneOf spec' list' choice' o
  | ⟨branches, _, _⟩ => congrArg (OneOf.mk · _ _) (map_foldCollections branches)

theorem map_foldConditional : ∀ s : Conditional Node,
    (foldConditional spec list choice s).map g = foldConditional spec' list' choice' s
  | ⟨case, branches⟩ =>
    congrArg₂ Conditional.mk (map_foldParameter case) (map_foldGroups branches)

theorem map_foldCollections : ∀ cs : List (Collection Node),
    (foldCollections spec list choice cs).map (Collection.map g)
      = foldCollections spec' list' choice' cs
  | [] => rfl
  | c :: cs => congrArg₂ List.cons (map_foldCollection c) (map_foldCollections cs)

theorem map_foldGroups : ∀ gs : List (Value × Collection Node),
    (foldGroups spec list choice gs).map (fun (value, c) => (value, c.map g))
      = foldGroups spec' list' choice' gs
  | [] => rfl
  | group :: gs => congrArg₂ List.cons (map_foldGroup group) (map_foldGroups gs)

theorem map_foldGroup : ∀ group : Value × Collection Node,
    (fun (value, c) => (value, c.map g) : Value × Collection α → _)
        (foldGroup spec list choice group) = foldGroup spec' list' choice' group
  | (_, c) => congrArg (Prod.mk _) (map_foldCollection c)

theorem map_foldParameters : ∀ ps : List (Parameter Node),
    (foldParameters spec list choice ps).map (Parameter.map g)
      = foldParameters spec' list' choice' ps
  | [] => rfl
  | p :: ps => congrArg₂ List.cons (map_foldParameter p) (map_foldParameters ps)

theorem map_foldParameter : ∀ p : Parameter Node,
    (foldParameter spec list choice p).map g = foldParameter spec' list' choice' p
  | ⟨_, _, _, _, _, node, _⟩ => congrArg (Parameter.mk _ _ _ _ _ · _) (map_foldSubSpec node)

theorem map_foldSubSpec : ∀ n : Option Node,
    (foldSubSpec spec list choice n).map g = foldSubSpec spec' list' choice' n
  | none => rfl
  | some n => congrArg some (map_fold n)

end

end Fusion

variable {α : Type} (spec : Spec (Judgement α) → α) (list : EntryList (Judgement α) → α)
  (choice : Choice (Judgement α) → α)

/-- Whatever else is computed of a tree, its status is the same. -/
theorem bare_judge (n : Node) : (judge spec list choice n).bare = n.status := by
  have hf {α : Type} : Judges (Judgement.bare : Judgement α → _) := Judgement.judges_bare
  refine map_fold (fun s => ?_) (fun l => ?_) (fun c => ?_) n
  · show Judgement.mk s.hasValue s.isComplete () = _
    rw [← Spec.hasValue_map hf s, ← Spec.isComplete_map hf s]
  · show Judgement.mk l.hasValue l.isComplete () = _
    rw [← EntryList.hasValue_map hf l, ← EntryList.isComplete_map hf l]
  · show Judgement.mk (_ || c.body.hasValue) (_ && c.body.isComplete) () = _
    rw [← Spec.hasValue_map hf c.body, ← Spec.isComplete_map hf c.body]
    rfl

/-- A judgement that computes more is judged like the node. -/
theorem judges_judge : Judges (judge spec list choice) where
  hasValue n := congrArg Judgement.hasValue (bare_judge spec list choice n)
  isComplete n := congrArg Judgement.isComplete (bare_judge spec list choice n)

end Node

end SpecTree
