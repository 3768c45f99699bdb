import SpecTree.Proofs.Course
import SpecTree.Proofs.Indistinct.Spec
import SpecTree.Proofs.Node
import SpecTree.Tree.Open
import SpecTree.Tree.Xml

/-!
# Trees that nobody can tell apart

If alternatives of a tree give way to others that are used alike, then everything that can be asked
of the tree is answered as before (`Node.Indistinct.sameAnswers`), and so is everything that is done
to it later (`Node.Indistinct.answersAll`). The reason is that no edit sees the difference: it fails
for both trees or for none, and leaves trees behind between which there is no other difference.
-/

namespace SpecTree

open Edit (Agree Blind)

variable {ν μ : Type} {R : OneOf ν → OneOf ν → Prop}

/-! ## Choices -/

namespace Choice

/-- The same choice, but for the alternatives in its body. -/
inductive Upto (R : OneOf ν → OneOf ν → Prop) (c : Choice ν) : Choice ν → Prop
  | of {body : Spec ν} (h : c.body.Upto R body) : Upto R c { c with body }

theorem Upto.map {R' : OneOf μ → OneOf μ → Prop} {f : ν → μ} {c c' : Choice ν}
    (hR : ∀ o o', R o o' → R' (o.map f) (o'.map f)) (h : c.Upto R c') :
    (c.map f).Upto R' (c'.map f) := by
  cases h with
  | of h => exact .of (c := c.map f) (h.map hR)

theorem Upto.withBody {c : Choice ν} {body body' : Spec ν} (h : body.Upto R body') :
    Upto R { c with body } { c with body := body' } :=
  .of (c := { c with body }) h

variable {R : OneOf Node → OneOf Node → Prop}

/-- A variant is put into both in the same way. -/
theorem Upto.chosen {body body' : Spec Node} (h : body.Upto R body') (c : Choice Node)
    (type variant : String) (node : Node) :
    (c.chosen type variant node body).Upto R (c.chosen type variant node body') := by
  obtain ⟨name, field, placement, own, selected⟩ := c
  cases placement with
  | standard => exact withBody (c := ⟨_, _, .standard, own, _⟩) (h.insertFixed _)
  | inline =>
    cases node with
    | spec s => exact withBody (c := ⟨_, _, .inline, own, _⟩) (h.merge s)
    | list l => exact withBody (c := ⟨_, _, .inline, own, _⟩) (h.insertFixed _)
    | choice d => exact withBody (c := ⟨_, _, .inline, own, _⟩) (h.insertFixed _)
  | sublist => exact withBody (c := ⟨_, _, .sublist, own, _⟩) (h.push _)
  | sublistDash => exact withBody (c := ⟨_, _, .sublistDash, own, _⟩) (h.push _)

/-- Writing the type sees no difference in the body. -/
theorem blind_writeType (c : Choice Node) (type : String) :
    Blind (Spec.Upto OneOf.Indistinct) (c.writeType type) := by
  unfold writeType
  split
  · exact Spec.blind_set _ _
  · exact .pure ()

/-- Choosing a type sees no difference in the body: the variant that is put in is the same. -/
theorem blind_setType (catalog : Catalog) (type : String) :
    Blind (Upto OneOf.Indistinct) (Choice.setType catalog type) := by
  intro c c' h
  cases h with
  | @of body h =>
    -- a variant is looked for without regard to the body:
    have hvariant : variantFor catalog type { c with body } = variantFor catalog type c := rfl
    cases hfound : variantFor catalog type c with
    | error e =>
      rw [setType_of_variantFor_error hfound, setType_of_variantFor_error (hvariant.trans hfound)]
      exact .error e (.of h)
    | ok found =>
      have hwrite : ({ c with body } : Choice Node).writeType type = c.writeType type := rfl
      rw [setType_of_variantFor hfound, setType_of_variantFor (hvariant.trans hfound), hwrite]
      rcases (blind_writeType c type c.body body h).cases with
        ⟨_, s, s', hs, hs', h⟩ | ⟨e, s, s', hs, hs', h⟩ <;> rw [hs, hs']
      · exact .ok () (.chosen h c type _ _)
      · exact .error e (.withBody h)

/-- Setting a key of a choice sees no difference, whether it is the selector or one of the body. -/
theorem blind_set (catalog : Catalog) (key : String) (value : Value) :
    Blind (Upto OneOf.Indistinct) (Choice.set catalog key value) := by
  intro c c' h
  by_cases hkey : key = c.selector
  · have hselector : c'.selector = c.selector := by
      cases h with
      | of h => rfl
    have hkey' := hkey.trans hselector.symm
    rw [hkey, set_selector, ← hkey, hkey', set_selector]
    exact blind_setType catalog _ c c' h
  · cases h with
    | @of body h =>
      rw [set_of_ne_selector hkey value, set_of_ne_selector (c := { c with body }) hkey value]
      exact (Spec.blind_set key value _ _ h).through fun _ _ h => .withBody h

end Choice

/-! ## Trees -/

namespace Node

/-- Trees with alternatives that are used alike, and no other difference. -/
inductive Indistinct : Node → Node → Prop
  | refl (n : Node) : Indistinct n n
  | spec {s s' : Spec Node} (h : s.Upto OneOf.Indistinct s') : Indistinct (.spec s) (.spec s')
  | choice {c c' : Choice Node} (h : c.Upto OneOf.Indistinct c') :
      Indistinct (.choice c) (.choice c')

/-! ### Questions -/

/-- Trees of which everything that can be asked is answered alike. -/
structure SameAnswers (catalog : Catalog) (n n' : Node) : Prop where
  typeName : n.typeName = n'.typeName
  contains : n.contains = n'.contains
  isSelector : n.isSelector = n'.isSelector
  parameter? : n.parameter? = n'.parameter?
  get? : n.get? = n'.get?
  isComplete : n.isComplete = n'.isComplete
  hasValue : n.hasValue = n'.hasValue
  isOptional : n.isOptional = n'.isOptional
  parameters : n.parameters = n'.parameters
  complete : n.complete = n'.complete
  valued : n.valued = n'.valued
  unfilled : n.unfilled = n'.unfilled
  optional : n.optional = n'.optional
  openAlternations : n.openAlternations catalog = n'.openAlternations catalog
  toXml : ∀ name, n.toXml name = n'.toXml name
  explain : n.explain catalog = n'.explain catalog

theorem SameAnswers.refl (catalog : Catalog) (n : Node) : SameAnswers catalog n n := by
  constructor <;> intros <;> rfl

namespace Indistinct

variable {n n' : Node}

/-- What is computed of a tree is the same, if on every level it is read off what is shown. -/
theorem result_judge {α : Type} {spec : Spec (Judgement α) → α}
    {list : EntryList (Judgement α) → α} {choice : Choice (Judgement α) → α}
    (hspec : ∀ s s', s.Upto OneOf.SameView s' → spec s = spec s')
    (hchoice : ∀ c c', c.Upto OneOf.SameView c' → choice c = choice c') (h : Indistinct n n') :
    (n.judge spec list choice).result = (n'.judge spec list choice).result := by
  have hview : ∀ o o' : OneOf Node, OneOf.Indistinct o o' →
      OneOf.SameView (o.map (judge spec list choice)) (o'.map (judge spec list choice)) :=
    fun _ _ ho => ho.view.map (judges_judge spec list choice)
  cases h with
  | refl => rfl
  | spec h =>
    unfold judge
    rw [fold_spec, fold_spec]
    exact hspec _ _ (h.map hview)
  | choice h =>
    unfold judge
    rw [fold_choice, fold_choice]
    exact hchoice _ _ (h.map hview)

theorem parameter? (h : Indistinct n n') : n.parameter? = n'.parameter? := by
  cases h with
  | refl => rfl
  | spec h => exact h.view.parameter?
  | choice h =>
    cases h with
    | of h => exact h.view.parameter?

theorem openAlternations (catalog : Catalog) (h : Indistinct n n') :
    n.openAlternations catalog = n'.openAlternations catalog := by
  refine result_judge (fun s s' hs => ?_) (fun c c' hc => ?_) h
  · rw [hs.openChoices, hs.complete, hs.unfilled]
  · cases hc with
    | of hbody => simp only [hbody.openChoices, hbody.complete, hbody.unfilled]

theorem toXml (name : String) (h : Indistinct n n') : n.toXml name = n'.toXml name := by
  have helements : n.xmlElements = n'.xmlElements := by
    refine result_judge (fun s s' hs => ?_) (fun c c' hc => ?_) h
    · rw [hs.valued]
    · cases hc with
      | of hbody => simp only [hbody.valued]
  rw [Node.toXml, helements, ← Node.toXml]

theorem explain (catalog : Catalog) (h : Indistinct n n') :
    n.explain catalog = n'.explain catalog := by
  refine result_judge (fun s s' hs => hs.explain _) (fun c c' hc => ?_) h
  cases hc with
  | of hbody =>
    unfold Explain.ofChoice
    rw [hbody.explain]
    rfl

/-- **Trees with alternatives that are used alike answer alike.** -/
theorem sameAnswers (catalog : Catalog) (h : Indistinct n n') : SameAnswers catalog n n' := by
  have hparameter := h.parameter?
  have hopen := h.openAlternations catalog
  have hxml := fun name => h.toXml name
  have hexplain := h.explain catalog
  cases h with
  | refl => exact .refl catalog _
  | spec h => exact {
      typeName := h.name
      contains := h.contains
      isSelector := h.isSelector
      parameter? := hparameter
      get? := h.view.get?
      isComplete := h.view.isComplete
      hasValue := h.view.hasValue
      isOptional := h.view.isOptional
      parameters := h.parameters
      complete := h.view.complete
      valued := h.view.valued
      unfilled := h.view.unfilled
      optional := h.view.optional
      openAlternations := hopen
      toXml := hxml
      explain := hexplain }
  -- a choice puts its selector in front of what the body answers:
  | @choice c _ h =>
    cases h with
    | of h => exact {
        typeName := rfl
        contains := funext fun key => congrArg (key = c.selector || ·) (congrFun h.contains key)
        isSelector := funext fun key =>
          congrArg (key = c.selector || ·) (congrFun h.isSelector key)
        parameter? := hparameter
        get? := funext fun key => by
          show (if key = c.selector then _ else _) = if key = c.selector then _ else _
          rw [h.view.get?]
        isComplete := congrArg (c.selected.isSome && ·) h.view.isComplete
        hasValue := congrArg (_ || ·) h.view.hasValue
        isOptional := h.view.isOptional
        parameters := h.parameters
        complete := h.view.complete
        valued := h.view.valued
        unfilled := h.view.unfilled
        optional := h.view.optional
        openAlternations := hopen
        toXml := hxml
        explain := hexplain }

/-- What the type of a value is to be is read off the parameter that is shown. -/
theorem hint? (h : Indistinct n n') : n.hint? = n'.hint? := by
  funext key
  have hhint : ∀ {n : Node}, (∀ l, n ≠ .list l) →
      n.hint? key = (n.parameter? key).bind (·.type.primitive?) := by
    intro n hn
    unfold Node.hint?
    cases (n.parameter? key).bind (·.type.primitive?) with
    | some p => rfl
    | none =>
      cases n with
      | list l => exact absurd rfl (hn l)
      | spec s => rfl
      | choice c => rfl
  have hparameter := h.parameter?
  cases h with
  | refl => rfl
  | spec => rw [hhint fun _ => Node.noConfusion, hhint fun _ => Node.noConfusion, hparameter]
  | choice => rw [hhint fun _ => Node.noConfusion, hhint fun _ => Node.noConfusion, hparameter]

end Indistinct

/-! ### Edits -/

theorem blind_set (catalog : Catalog) (key : String) (value : Value) :
    Blind Indistinct (Node.set catalog key value) := by
  intro n n' h
  cases h with
  | refl n => exact .refl .refl _
  | spec h =>
    rw [set_spec, set_spec]
    exact (Spec.blind_set key value _ _ h).through fun _ _ h => .spec h
  | choice h =>
    rw [set_choice, set_choice]
    exact (Choice.blind_set catalog key value _ _ h).through fun _ _ h => .choice h

theorem blind_appendEmpty (catalog : Catalog) (name : String) :
    Blind Indistinct (appendEmpty catalog name) := by
  intro n n' h
  cases h with
  | refl n => exact .refl .refl _
  | spec hs =>
    cases hs with
    | of hs => exact .error _ (.spec (.of hs))
  | choice hc =>
    cases hc with
    | of hc => exact .error _ (.choice (.of hc))

theorem blind_within {α : Type} (key : String) (act : Edit Node α) :
    Blind Indistinct (within key act) := by
  intro n n' h
  cases h with
  | refl n => exact .refl .refl _
  | spec h =>
    rw [within_spec, within_spec]
    exact (Spec.blind_within key act _ _ h).through fun _ _ h => .spec h
  | choice h =>
    cases h with
    | of h =>
      rw [within_choice, within_choice]
      exact (Spec.blind_within key act _ _ h).through fun _ _ h =>
        .choice (.withBody h)

/-! ### Filling -/

section Filling

variable {α : Type} {path key : String}

/-- An edit that sees no difference sees none when its failure is put down to a path. -/
theorem blind_filling {act : Edit Node α} (hact : Blind Indistinct act) :
    Blind Indistinct (filling path act) := by
  intro n n' h
  unfold filling
  rcases (hact n n' h).cases with ⟨a, m, m', hn, hn', hm⟩ | ⟨e, m, m', hn, hn', hm⟩ <;> rw [hn, hn']
  · exact .ok a hm
  · exact .error _ hm

/-- Only lists are given entries, and they are the same. -/
theorem blind_ensureEntry (catalog : Catalog) (key : String) :
    Blind Indistinct (ensureEntry catalog key) := by
  intro n n' h
  cases h with
  | refl => exact .refl .refl _
  | spec h => exact .ok () (.spec h)
  | choice h => exact .ok () (.choice h)

/-- A fill of a sub-spec sees no difference, whatever is filled in. -/
theorem blind_fillWithin (path key : String) (act : Fill Node α) :
    Blind Indistinct (fillWithin path key act) := by
  intro n n' h
  show Agree Indistinct (uncaught path (within key (caught act) n))
    (uncaught path (within key (caught act) n'))
  rcases (blind_within key (caught act) n n' h).cases with
    ⟨a, m, m', hn, hn', hm⟩ | ⟨e, m, m', hn, hn', hm⟩ <;> rw [hn, hn']
  · cases a with
    | ok a => exact .ok a hm
    | error e => exact .error e hm
  · exact .error _ hm

/-- Filling in a value sees no difference. -/
theorem blind_fillLeaf (catalog : Catalog) (path key : String) (json : Json) :
    Blind Indistinct (fillLeaf catalog path key json) := by
  refine Blind.get_bind (fun n n' h => by rw [h.hint?]) fun n => ?_
  split
  · exact blind_filling (blind_set catalog key _)
  · exact fun _ _ h => .error _ h

/-- Filling in a member sees no difference, whether it is an object, a list or a value. -/
theorem blind_fillMember (catalog : Catalog) (path : String) (member : String × Json) :
    Blind Indistinct (fillMember catalog path member) := by
  obtain ⟨key, json⟩ := member
  have hentry {next : Fill Node Unit} (hnext : Blind Indistinct next) :
      Blind Indistinct
        (filling (memberPath path key) (ensureEntry catalog key) >>= fun _ => next) :=
    (blind_filling (blind_ensureEntry catalog key)).bind fun _ => hnext
  cases json with
  | object members =>
    rw [fillMember]
    exact hentry (blind_fillWithin _ key _)
  | _ => exact hentry (blind_fillLeaf catalog _ key _)

/-- Filling in the members of a document sees no difference. The induction is on the members. -/
theorem blind_fillMembers (catalog : Catalog) (path : String) (isSelector : String → Bool)
    (selectors : Bool) : ∀ members : List (String × Json),
    Blind Indistinct (fillMembers catalog path isSelector selectors members)
  | [] => .pure ()
  | member :: members => by
    have hrest := blind_fillMembers catalog path isSelector selectors members
    rw [fillMembers]
    split
    · exact (blind_fillMember catalog path member).bind fun _ => hrest
    · exact hrest

/-- Filling in a whole document sees no difference. -/
theorem blind_fill (catalog : Catalog) (json : Json) : Blind Indistinct (fill catalog json) := by
  unfold fill
  cases json with
  | object members =>
    rw [fillFrom]
    refine Blind.get_bind (fun n n' h => by rw [(h.sameAnswers catalog).isSelector]) fun n => ?_
    exact (blind_fillMembers catalog "" _ true members).bind fun _ =>
      blind_fillMembers catalog "" _ false members
  | _ => exact fun _ _ h => .error _ h

end Filling

end Node

/-! ## Operations -/

/-- The answer of a fill. -/
def Fill.answer {σ α : Type} (act : Fill σ α) (s : σ) : Except FillError α :=
  match act s with
  | .ok a _ => .ok a
  | .error e _ => .error e

namespace Operation

mutual

/-- How an operation and those that are a part of it are answered. -/
def answers (catalog : Catalog) : Operation → Node → List (Except (TreeError ⊕ FillError) Unit)
  | set key value, n => [((Node.set catalog key value).answer n).mapError .inl]
  | append name, n => [((Node.appendEmpty catalog name).answer n).mapError .inl]
  | fill json, n => [((Node.fill catalog json).answer n).mapError .inr]
  | within key operations, n =>
    match (Node.within key get).answer n with
    | .ok m => .ok () :: answersAll catalog operations m
    | .error e => [.error (.inl e)]

/-- How operations are answered that are done one after the other. -/
def answersAll (catalog : Catalog) :
    List Operation → Node → List (Except (TreeError ⊕ FillError) Unit)
  | [], _ => []
  | o :: os, n => answers catalog o n ++ answersAll catalog os (apply catalog o n)

end

end Operation

namespace Node.Indistinct

variable {n n' : Node}

section Blind

variable {α : Type}

theorem answer {act : Edit Node α} (hact : Blind Indistinct act) (h : Indistinct n n') :
    act.answer n = act.answer n' := by
  unfold Edit.answer
  rcases (hact n n' h).cases with ⟨a, m, m', hn, hn', -⟩ | ⟨e, m, m', hn, hn', -⟩ <;> rw [hn, hn']

/-- An edit that sees no difference leaves alike what was alike. -/
theorem stateAfter {act : Edit Node α} (hact : Blind Indistinct act) (h : Indistinct n n') :
    Indistinct (act.stateAfter n) (act.stateAfter n') := by
  unfold Edit.stateAfter
  rcases (hact n n' h).cases with ⟨a, m, m', hn, hn', hm⟩ | ⟨e, m, m', hn, hn', hm⟩ <;>
    rw [hn, hn'] <;> exact hm

theorem answer_fill {act : Fill Node α} (hact : Blind Indistinct act) (h : Indistinct n n') :
    act.answer n = act.answer n' := by
  unfold Fill.answer
  rcases (hact n n' h).cases with ⟨a, m, m', hn, hn', -⟩ | ⟨e, m, m', hn, hn', -⟩ <;> rw [hn, hn']

/-- A fill that sees no difference leaves alike what was alike. -/
theorem stateAfter_fill {act : Fill Node α} (hact : Blind Indistinct act) (h : Indistinct n n') :
    Indistinct (act.stateAfter n) (act.stateAfter n') := by
  unfold Fill.stateAfter
  rcases (hact n n' h).cases with ⟨a, m, m', hn, hn', hm⟩ | ⟨e, m, m', hn, hn', hm⟩ <;>
    rw [hn, hn'] <;> exact hm

end Blind

variable (catalog : Catalog)

/-- An operation leaves trees behind that nobody can tell apart. -/
theorem apply (h : Indistinct n n') (o : Operation) :
    Indistinct (o.apply catalog n) (o.apply catalog n') := by
  cases o with
  | set key value => exact h.stateAfter (blind_set catalog key value)
  | append name => exact h.stateAfter (blind_appendEmpty catalog name)
  | fill json => exact h.stateAfter_fill (blind_fill catalog json)
  | within key operations =>
    unfold Operation.apply
    exact h.stateAfter (blind_within key _)

/-- Any list of operations leaves alike what was alike. -/
theorem applyAll (h : Indistinct n n') (os : List Operation) :
    Indistinct (Operation.applyAll catalog os n) (Operation.applyAll catalog os n') := by
  induction os generalizing n n' with
  | nil => exact h
  | cons o os ih => exact ih (h.apply catalog o)

/-- An operation is answered alike. The sub-spec that is handed out is the same. -/
theorem answers (h : Indistinct n n') (o : Operation) :
    o.answers catalog n = o.answers catalog n' := by
  cases o with
  | set key value =>
    rw [Operation.answers, Operation.answers, h.answer (blind_set catalog key value)]
  | append name =>
    rw [Operation.answers, Operation.answers, h.answer (blind_appendEmpty catalog name)]
  | fill json => rw [Operation.answers, Operation.answers, h.answer_fill (blind_fill catalog json)]
  | within key operations =>
    rw [Operation.answers, Operation.answers, h.answer (blind_within key get)]

/-- **Operations on trees that nobody can tell apart are answered alike.** -/
theorem answersAll (h : Indistinct n n') (os : List Operation) :
    Operation.answersAll catalog os n = Operation.answersAll catalog os n' := by
  induction os generalizing n n' with
  | nil => rfl
  | cons o os ih =>
    rw [Operation.answersAll, Operation.answersAll, h.answers catalog o, ih (h.apply catalog o)]

end Node.Indistinct

end SpecTree
