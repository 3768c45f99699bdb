import SpecTree.Proofs.OneOf.Indistinct
import SpecTree.Proofs.OneOf.Survival

/-!
# Settling cannot be observed

Which branches are open and what they show is either implied by the sub-spec that was handed out,
or committed and copied to the branches that share it. Every question is answered alike in both
cases, and what is committed is sound. Main statement: `answers_settle_of_accesses`, both for all
alternatives that accesses can lead to. The proof carries `Tidy` along the accesses.
-/

namespace SpecTree

variable {ν : Type}

namespace Collection

variable {c c' : Collection ν}

/-- No name comes twice. -/
def Distinct (c : Collection ν) : Prop := Parameter.Distinct c.parameters

theorem Distinct.insert (h : c.Distinct) (p : Parameter ν) : (c.insert p).Distinct :=
  Parameter.distinct_put h

/-- An assignment keeps the names of a collection distinct. -/
theorem Distinct.assigned (h : c.Distinct) (key : String) (value : Value) :
    (c.assigned key value).Distinct := by
  unfold Collection.assigned
  split
  · next hset =>
    obtain ⟨p, rfl⟩ := exists_insert_of_set hset
    exact h.insert p
  · exact h

end Collection

namespace OneOf

/-- What is stored of the open branches is sound: these are some of the branches, in increasing
order, and the owner of a handed-out sub-spec is one of them. -/
structure Committed (o : OneOf ν) (is : List Nat) : Prop where
  ne_nil : is ≠ []
  increasing : is.Pairwise (· < ·)
  valid : ∀ i ∈ is, i < o.branches.length
  owner : ∀ key i, o.live = some (key, i) → i ∈ is

/-! ## What accesses keep -/

/-- Alternatives as accesses leave them: in no branch does a name come twice, some branches are
committed, in order, and a handed-out sub-spec lives in the first of them that declares its key. -/
structure Tidy (o : OneOf ν) : Prop where
  distinct : ∀ b ∈ o.branches, b.Distinct
  ordered : o.Ordered
  ne_nil : o.committed ≠ []
  liveFirst : o.LiveFirst

namespace Tidy

variable {o : OneOf ν}

/-- Alternatives are tidy when they are built. -/
theorem of_ofBranches {branches : List (Collection ν)} (h : ofBranches branches = .ok o)
    (hdistinct : ∀ b ∈ branches, b.Distinct) : o.Tidy := by
  obtain ⟨henough, rfl⟩ := ofBranches_eq_ok.1 h
  have htwo : 2 ≤ branches.length := Nat.not_lt.1 fun hfew => henough (.inl hfew)
  have hne : List.range branches.length ≠ [] := by
    intro hnil
    rw [List.range_eq_nil.1 hnil] at htwo
    cases htwo
  exact ⟨hdistinct, ordered_of_active_eq_none rfl, hne, liveFirst_of_live_eq_none rfl⟩

/-- What is committed is sound, if anything is. -/
theorem committed (h : o.Tidy) {is : List Nat} (hactive : o.active = some is) :
    o.Committed is := by
  have heq : o.committed = is := by rw [OneOf.committed, hactive, Option.getD_some]
  have hsub : is.Sublist (List.range o.branches.length) := heq ▸ h.ordered
  constructor
  case ne_nil => exact heq ▸ h.ne_nil
  case increasing => exact List.pairwise_lt_range.sublist hsub
  case valid =>
    intro i hi
    exact List.mem_range.1 (hsub.subset hi)
  case owner =>
    intro key i hlive
    have hi : i ∈ o.candidates key := List.mem_of_head? (h.liveFirst key i hlive)
    exact heq ▸ (List.mem_filter.1 hi).1

/-- A sub-spec that is handed out where a reader looks first leaves alternatives tidy. -/
theorem lend (h : o.Tidy) {key : String} {i : Nat} {p p' : Parameter ν}
    (hi : (o.candidates key).head? = some i) (hp : o.declared? i key = some p)
    (hname : p'.name = p.name) (htype : p'.type = p.type) : (o.lend key i p').Tidy where
  distinct := forall_mem_foldl_modify (fun _ hb => Collection.Distinct.insert hb _) [i] h.distinct
  ordered := h.ordered.lend key i p'
  ne_nil := (committed_lend o key i p').symm ▸ h.ne_nil
  liveFirst := liveFirst_lend hi hp hname htype

variable [Judged ν]

/-- Settling leaves alternatives tidy. -/
theorem settle (h : o.Tidy) : o.settle.Tidy where
  distinct := by
    rcases settle_cases o with ⟨owner, p, hl, hv⟩ | ⟨heq, -⟩
    · rw [settle_of_hasValue hl hv]
      exact forall_mem_foldl_modify (fun _ hb => Collection.Distinct.insert hb _) _ h.distinct
    · rw [heq]
      exact h.distinct
  ordered := h.ordered.settle
  ne_nil := (committed_settle o).symm ▸ visible_ne_nil h.liveFirst h.ne_nil
  liveFirst := liveFirst_of_live_eq_none (live_settle o)

/-- **An access keeps alternatives tidy**, whether it succeeds or fails. -/
theorem after (h : o.Tidy) (a : Access ν) : (a.after o).Tidy := by
  have hs := h.settle
  have hlive := live_settle o
  -- a sub-spec is handed out from where a reader looks first
  have hfirst : ∀ {key i}, (o.writable key).head? = some i →
      (o.settle.candidates key).head? = some i := by
    intro key i hi
    rwa [← writable_of_live_eq_none hlive, writable_settle]
  have hdoes := a.does o
  generalize a.succeeds o = ok, a.after o = o' at hdoes
  cases hdoes with
  | refused => exact hs
  | @set key value next plan =>
    obtain ⟨-, hne, -⟩ := plan_eq_ok.1 plan
    constructor
    case distinct =>
      have hassigned : ∀ b : Collection ν, b.Distinct → (b.assigned key value).Distinct :=
        fun _ hb => hb.assigned key value
      exact forall_mem_foldl_modify hassigned next hs.distinct
    case ordered => exact h.ordered.set plan
    case ne_nil => exact (plan_eq_ok.1 plan).1 ▸ hne
    case liveFirst => exact liveFirst_of_live_eq_none hlive
  | select plan =>
    obtain ⟨hnext, hne, -⟩ := plan_eq_ok.1 plan
    exact ⟨hs.distinct, h.ordered.select plan, hnext ▸ hne, liveFirst_of_live_eq_none hlive⟩
  | missing owner slot => exact hs.lend (hfirst owner) slot rfl rfl
  | within owner slot => exact hs.lend (hfirst owner) slot rfl rfl

theorem accessed (h : o.Tidy) (as : List (Access ν)) : (o.accessed as).Tidy :=
  List.foldlRecOn (motive := Tidy) as _ h fun _ h a _ => h.after a

end Tidy

/-! ## Answers -/

variable [Judged ν]

/-- Alternatives that give the same answers. -/
structure SameAnswers (o o' : OneOf ν) : Prop where
  openBranches? : o.openBranches? = o'.openBranches?
  selected? : o.selected? = o'.selected?
  isOpen : o.isOpen = o'.isOpen
  parameter? : ∀ key, o.parameter? key = o'.parameter? key
  get? : ∀ key, o.get? key = o'.get? key
  isComplete : o.isComplete = o'.isComplete
  hasValue : o.hasValue = o'.hasValue
  isOptional : o.isOptional = o'.isOptional
  complete : o.complete = o'.complete
  valued : o.valued = o'.valued
  unfilled : o.unfilled = o'.unfilled
  optional : o.optional = o'.optional
  openNames : o.openNames = o'.openNames
  plan : ∀ key value, o.plan key value = o'.plan key value

/-- What no edit tells apart answers all questions alike. -/
theorem Indistinct.sameAnswers {o o' : OneOf ν} (h : o.Indistinct o') : o.SameAnswers o' where
  openBranches? := h.view.openBranches?
  selected? := h.view.selected?
  isOpen := h.view.isOpen
  parameter? key := congrFun h.view.parameter? key
  get? key := congrArg (Option.bind · Parameter.get?) (congrFun h.view.parameter? key)
  isComplete := h.view.isComplete
  hasValue := h.view.hasValue
  isOptional := h.view.isOptional
  complete := congrFun h.view.visibleWhere _
  valued := congrFun h.view.visibleWhere _
  unfilled := congrFun h.view.visibleWhere _
  optional := congrFun h.view.visibleWhere _
  openNames := h.view.openNames
  plan key value := congrFun (congrFun h.plan key) value

/-- Settling early gives no other answer. -/
theorem Tidy.sameAnswers_settle {o : OneOf ν} (h : o.Tidy) {owner : Nat} {p : Parameter ν}
    (hl : o.liveParameter? = some (owner, p)) (hv : p.hasValue = true) :
    o.SameAnswers o.settle := by
  -- a sub-spec without a value is none of what was handed out
  have hcalm : o.Calm := by
    intro owner' l hl' hv'
    rw [hl] at hl'
    cases hl'
    rw [hv] at hv'
    cases hv'
  exact (indistinct_settle h.distinct h.ordered h.liveFirst hcalm).sameAnswers

/-- **Settling cannot be observed.** After any accesses that succeed or fail, alternatives whose
handed-out sub-spec holds a value answer every question alike before and after they are settled;
and what is stored of the open branches is sound in any case. -/
theorem answers_settle_of_accesses {branches : List (Collection ν)} {start : OneOf ν}
    (hstart : ofBranches branches = .ok start)
    (hdistinct : ∀ b ∈ branches, b.Distinct) (as : List (Access ν)) :
    (∀ owner p, (start.accessed as).liveParameter? = some (owner, p) → p.hasValue = true →
      (start.accessed as).SameAnswers (start.accessed as).settle) ∧
    ∀ is, (start.accessed as).active = some is → (start.accessed as).Committed is := by
  have htidy := (Tidy.of_ofBranches hstart hdistinct).accessed as
  exact ⟨fun _ _ hl hv => htidy.sameAnswers_settle hl hv, fun _ => htidy.committed⟩

/-- A list that two branches share gets an entry with a value. -/
def exampleEntered : OneOf Node := exampleEmpty.accessed [.within "list" exampleEnter]

/-- The list stands in for that of the second branch, and then it is copied there. -/
theorem answers_settle_of_accesses_exampleEntered :
    ofBranches exampleLists = .ok exampleEmpty ∧
      (∀ b ∈ exampleLists, b.Distinct) ∧
      (exampleEntered.liveParameter?.map fun (owner, p) => (owner, p.hasValue)) = some (0, true) ∧
      exampleEntered.active = none ∧ exampleEntered.settle.active = some [0, 1] ∧
      exampleEntered.SameAnswers exampleEntered.settle ∧
      (exampleEmpty.accessed
        [.within "list" exampleEnter, .select "b", .within "list" id]).Committed [1] := by
  have hstart : ofBranches exampleLists = .ok exampleEmpty := rfl
  have hdistinct : ∀ b ∈ exampleLists, b.Distinct :=
    List.forall_mem_cons.2 ⟨Parameter.distinct_putAll _,
      List.forall_mem_singleton.2 (Parameter.distinct_putAll _)⟩
  have hlive : (exampleEntered.liveParameter?.map fun (owner, p) => (owner, p.hasValue))
      = some (0, true) := by decide +kernel
  obtain ⟨⟨owner, p⟩, hl, heq⟩ := Option.map_eq_some_iff.1 hlive
  have hsame := (answers_settle_of_accesses hstart hdistinct [.within "list" exampleEnter]).1
    owner p hl (congrArg Prod.snd heq)
  have hcommitted := (answers_settle_of_accesses hstart hdistinct
    [.within "list" exampleEnter, .select "b", .within "list" id]).2 [1] (by decide +kernel)
  exact ⟨hstart, hdistinct, hlive, by decide +kernel, by decide +kernel, hsame,
    hcommitted⟩

end OneOf

end SpecTree
