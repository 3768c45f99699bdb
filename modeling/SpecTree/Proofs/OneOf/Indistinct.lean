import SpecTree.Proofs.OneOf.Writing
import SpecTree.Proofs.Status

/-!
# Alternatives that nobody can tell apart

Settling changes what is stored, and with it nothing that can be asked of the alternatives and
nothing that a later edit does (`indistinct_settle`): every edit begins with settling, and what is
shown in the open branches is what is copied to them. That takes a sub-spec with a value, or one
that was handed out and not changed (`Calm`).

The branches that stay open are in increasing order (`Ordered`), and so the branch that a sub-spec
was handed out from is the first of all that declare its key, apart from closed ones.
-/

namespace SpecTree

variable {ν : Type}

/-! ## The first parameter of each name -/

namespace Parameter

/-- Parameters with those behind them that have a new name. -/
def extend (kept ps : List (Parameter ν)) : List (Parameter ν) :=
  ps.foldl (fun kept p => if kept.any (·.name = p.name) then kept else kept ++ [p]) kept

theorem extend_append (kept ps qs : List (Parameter ν)) :
    extend kept (ps ++ qs) = extend (extend kept ps) qs :=
  List.foldl_append

/-- A parameter is kept unless one of its name is. -/
theorem extend_cons (kept : List (Parameter ν)) (p : Parameter ν) (ps : List (Parameter ν)) :
    extend kept (p :: ps)
      = extend (if kept.any (·.name = p.name) then kept else kept ++ [p]) ps := rfl

/-- The names afterwards are those that were there and those that came. -/
theorem any_extend (kept ps : List (Parameter ν)) (k : String) :
    (extend kept ps).any (·.name = k) = (kept.any (·.name = k) || ps.any (·.name = k)) := by
  induction ps generalizing kept with
  | nil => exact (Bool.or_false _).symm
  | cons p ps ih =>
    rw [extend_cons, ih, List.any_cons, ← Bool.or_assoc]
    congr 1
    split
    · next hp =>
      -- a name that is there already brings nothing new
      by_cases hk : p.name = k
      · rw [hk] at hp
        rw [hp, Bool.true_or]
      · rw [decide_eq_false hk, Bool.or_false]
    · rw [List.any_append, List.any_cons, List.any_nil, Bool.or_false]

/-- A parameter of a name that is there is passed over, whatever else it is. -/
theorem extend_put {l : Parameter ν} {kept ps : List (Parameter ν)}
    (hkept : kept.any (·.name = l.name) = true) (hps : ps.any (·.name = l.name) = true) :
    extend kept (put l ps) = extend kept ps := by
  induction ps generalizing kept with
  | nil => cases hps
  | cons p ps ih =>
    rw [put]
    by_cases hp : p.name = l.name
    · rw [if_pos hp, extend_cons, extend_cons, if_pos hkept, if_pos (by rw [hp]; exact hkept)]
    · rw [List.any_cons, decide_eq_false hp, Bool.false_or] at hps
      rw [if_neg hp, extend_cons, extend_cons]
      apply ih
      · split
        · exact hkept
        · rw [List.any_append, hkept, Bool.true_or]
      · exact hps

/-- The same in a group of several. The name is there from the start or comes with a group in
front of it. -/
theorem extend_modify_insert {l : Parameter ν} {kept : List (Parameter ν)}
    {groups : List (Collection ν)} {j : Nat}
    (hkept : kept.any (·.name = l.name) = true ∨
      ∃ i < j, groups[i]?.any (·.contains l.name) = true)
    (hj : groups[j]?.any (·.contains l.name) = true) :
    extend kept ((groups.modify j (·.insert l)).flatMap (·.parameters))
      = extend kept (groups.flatMap (·.parameters)) := by
  have hnames : ∀ c : Collection ν, c.contains l.name = true →
      c.parameters.any (·.name = l.name) = true := by
    intro c hc
    obtain ⟨p, hp⟩ := Collection.contains_iff.1 hc
    exact List.any_eq_true.2 ⟨p, mem_of_find? hp, decide_eq_true (name_of_find? hp)⟩
  induction groups generalizing j kept with
  | nil => rw [List.modify_nil]
  | cons c groups ih =>
    cases j with
    | zero =>
      have hkept := hkept.resolve_right fun ⟨i, hi, _⟩ => Nat.not_lt_zero i hi
      show extend kept ((c.insert l :: groups).flatMap (·.parameters)) = _
      rw [List.flatMap_cons, List.flatMap_cons, extend_append, extend_append]
      show extend (extend kept (put l c.parameters)) _ = _
      rw [extend_put hkept (hnames c hj)]
    | succ j =>
      show extend kept ((c :: groups.modify j (·.insert l)).flatMap (·.parameters)) = _
      rw [List.flatMap_cons, List.flatMap_cons, extend_append, extend_append]
      refine ih ?_ hj
      -- the name is known from the front, from this branch or from a later one:
      rcases hkept with hkept | ⟨i, hij, hi⟩
      · exact .inl (by rw [any_extend, hkept, Bool.true_or])
      · cases i with
        | zero => exact .inl (by rw [any_extend, hnames c hi, Bool.or_true])
        | succ i => exact .inr ⟨i, Nat.lt_of_succ_lt_succ hij, hi⟩

/-- Of the parameters of several groups the first of each name stay the same, if one is put into
groups behind another that has its name. -/
theorem distinct_foldl_modify_insert {l : Parameter ν} {groups : List (Collection ν)} {i : Nat}
    {is : List Nat} (hi : groups[i]?.any (·.contains l.name) = true)
    (his : ∀ j ∈ is, i < j ∧ groups[j]?.any (·.contains l.name) = true) :
    distinct ((is.foldl (fun gs j => gs.modify j (·.insert l)) groups).flatMap (·.parameters))
      = distinct (groups.flatMap (·.parameters)) := by
  induction is generalizing groups with
  | nil => rfl
  | cons j is ih =>
    obtain ⟨⟨hij, hj⟩, his⟩ := List.forall_mem_cons.1 his
    have hcontains : ∀ k : Nat, groups[k]?.any (·.contains l.name) = true →
        (groups.modify j (·.insert l))[k]?.any (·.contains l.name) = true := by
      intro k hk
      rw [List.getElem?_modify]
      cases hg : groups[k]? with
      | none =>
        rw [hg] at hk
        cases hk
      | some g =>
        rw [hg] at hk
        show (if j = k then g.insert l else g).contains l.name = true
        split
        · rw [Collection.contains_insert hk]
          exact hk
        · exact hk
    rw [List.foldl_cons, ih (hcontains i hi) fun k hk => ⟨(his k hk).1, hcontains k (his k hk).2⟩]
    exact extend_modify_insert (.inr ⟨i, hij, hi⟩) hj

/-! ### A parameter in place of another -/

/-- Where one of the same type stands in for the parameter of its name, it is put in there. -/
theorem put_eq_map_of_type {l q : Parameter ν} {ps : List (Parameter ν)} (h : Distinct ps)
    (hq : find? ps l.name = some q) (htype : q.type = l.type) :
    put l ps = ps.map fun p => if l.name = p.name ∧ l.type = p.type then l else p := by
  have hname : l.name ∈ ps.map (·.name) :=
    List.mem_map.2 ⟨q, mem_of_find? hq, name_of_find? hq⟩
  rw [put_eq_map h hname]
  refine List.map_congr_left fun p hp => if_congr ?_ rfl rfl
  refine ⟨fun hpl => ⟨hpl.symm, ?_⟩, fun h => h.1.symm⟩
  have hpq := find?_of_mem h hp
  rw [hpl, hq] at hpq
  rw [← Option.some.inj hpq, htype]

/-- If it is the parameter that is there already, nothing changes. -/
theorem map_ite_eq_self {l : Parameter ν} {ps : List (Parameter ν)} (h : Distinct ps)
    (hsame : ∀ q, find? ps l.name = some q → q.type = l.type → q = l) :
    (ps.map fun p => if l.name = p.name ∧ l.type = p.type then l else p) = ps := by
  refine (List.map_congr_left fun p hp => ?_).trans (List.map_id' _)
  split
  · next hlp =>
    have hfound : find? ps l.name = some p := hlp.1 ▸ find?_of_mem h hp
    exact (hsame p hfound hlp.2.symm).symm
  · rfl

end Parameter

namespace OneOf

variable {o : OneOf ν}

/-! ## The order of open branches -/

/-- The branches that are committed are some of all, in increasing order. -/
def Ordered (o : OneOf ν) : Prop := o.committed.Sublist o.indices

/-- Branches that nothing has narrowed are open in their own order. -/
theorem ordered_of_active_eq_none (h : o.active = none) : o.Ordered := by
  unfold Ordered committed
  rw [h]
  exact List.Sublist.refl _

/-- Fewer branches in the same order are still in order. -/
theorem Ordered.narrow {o' : OneOf ν} (h : o.Ordered)
    (hlength : o'.branches.length = o.branches.length)
    (hcommitted : o'.committed.Sublist o.committed) : o'.Ordered := by
  unfold Ordered indices at h ⊢
  rw [hlength]
  exact hcommitted.trans h

/-- Handing out a sub-spec does not change the order. -/
theorem Ordered.lend (h : o.Ordered) (key : String) (i : Nat) (p : Parameter ν) :
    (o.lend key i p).Ordered :=
  h.narrow (length_lend o key i p) (committed_lend o key i p ▸ List.Sublist.refl _)

/-- The branches that share a sub-spec are behind its owner, if a reader looks there first. -/
theorem Ordered.lt_of_mem_sharing (h : o.Ordered) (hfirst : o.LiveFirst) {owner : Nat}
    {l : Parameter ν} (hl : o.liveParameter? = some (owner, l)) {i : Nat}
    (hi : i ∈ o.sharing l.name owner) (hne : i ≠ owner) : owner < i := by
  obtain ⟨hlive, hown⟩ := liveParameter?_eq_some.1 hl
  obtain ⟨hcommitted, q, hq, -⟩ := (mem_sharing hown).1 hi
  have hmem : i ∈ o.candidates l.name :=
    List.mem_filter.2 ⟨hcommitted, Option.isSome_iff_exists.2 ⟨q, hq⟩⟩
  have hhead := hfirst l.name owner hlive
  have hsorted : (o.candidates l.name).Pairwise (· < ·) :=
    List.pairwise_lt_range.sublist (List.filter_sublist.trans h)
  cases hc : o.candidates l.name with
  | nil =>
    rw [hc] at hmem
    cases hmem
  | cons j js =>
    rw [hc] at hmem hhead hsorted
    obtain rfl := Option.some.inj hhead
    exact (List.pairwise_cons.1 hsorted).1 i ((List.mem_cons.1 hmem).resolve_left hne)

variable [Judged ν]

/-- The branches that are shown are some of those that are open, in the same order. -/
theorem visible_sublist (o : OneOf ν) : o.visible.Sublist o.committed := by
  rcases settle_cases o with ⟨owner, l, hl, hv⟩ | ⟨-, hnot⟩
  · rw [visible, openBranches?_of_hasValue hl hv]
    exact List.filter_sublist
  · rw [visible, openBranches?_of_not_hasValue hnot]
    exact List.Sublist.refl _

/-- Settling keeps the open branches in order. -/
theorem Ordered.settle (h : o.Ordered) : o.settle.Ordered := by
  refine h.narrow (length_settle o) ?_
  rw [committed_settle]
  exact visible_sublist o

/-- The branches that a key is written to are some of those that are open. -/
theorem writable_sublist (o : OneOf ν) (key : String) : (o.writable key).Sublist o.committed :=
  List.filter_sublist.trans (visible_sublist o)

/-- Narrowing keeps the open branches in order. -/
theorem Ordered.select {key : String} {next : List Nat} (h : o.Ordered)
    (hplan : o.plan key none = .ok next) :
    Ordered { o.settle with active := some next } := by
  obtain ⟨rfl, -, -⟩ := plan_eq_ok.1 hplan
  exact h.narrow (length_settle o) (writable_sublist o key)

/-- A write keeps the open branches in order. -/
theorem Ordered.set {key : String} {value : Value} {next : List Nat} (h : o.Ordered)
    (hplan : o.plan key (some value) = .ok next) :
    Ordered { o.settle.assignedIn key value next with active := some next } := by
  obtain ⟨rfl, -, -⟩ := plan_eq_ok.1 hplan
  exact h.narrow ((length_assignedIn _ _ _ _).trans (length_settle o)) (writable_sublist o key)

/-! ## What settling leaves alone -/

/-- A sub-spec that was handed out and holds no value is what the other open branches declare. -/
def Calm (o : OneOf ν) : Prop :=
  ∀ owner l, o.liveParameter? = some (owner, l) → l.hasValue = false → ∀ i ∈ o.visible, ∀ q,
    o.declared? i l.name = some q → q.type = l.type → q = l

/-- Where no name comes twice, an open branch shows before settling what it shows afterwards. -/
theorem branchParameters_settle (hdistinct : ∀ b ∈ o.branches, Parameter.Distinct b.parameters)
    (hcalm : o.Calm) {i : Nat} (hi : i ∈ o.visible) :
    o.settle.branchParameters i = o.branchParameters i := by
  have hsettled : o.settle.branchParameters i
      = (o.settle.branches[i]?.map (·.parameters)).getD [] := by
    unfold branchParameters
    rw [liveParameter?_of_live_eq_none (live_settle o)]
  rw [hsettled]
  unfold branchParameters
  -- settling copies the sub-spec into the branch, or finds nothing to copy:
  rcases settle_cases o with ⟨owner, l, hl, hv⟩ | ⟨heq, hnot⟩
  · rw [visible, openBranches?_of_hasValue hl hv, Option.getD_some] at hi
    obtain ⟨-, q, hq, hqtype⟩ := (mem_sharing (liveParameter?_eq_some.1 hl).2).1 hi
    obtain ⟨b, hb, hbq⟩ := declared?_eq_some.1 hq
    simp only [getElem?_branches_settle hl hv, hl, hb]
    -- its owner holds it already:
    by_cases howner : owner = i
    · rw [if_pos howner, if_neg fun h => (of_decide_eq_true (List.mem_filter.1 h).2) howner.symm]
    · have hcopied : i ∈ (o.sharing l.name owner).filter (· ≠ owner) :=
        List.mem_filter.2 ⟨hi, decide_eq_true fun h => howner h.symm⟩
      rw [if_neg howner, if_pos hcopied]
      exact Parameter.put_eq_map_of_type (hdistinct b (List.mem_of_getElem? hb)) hbq hqtype
  · rw [heq]
    cases hl : o.liveParameter? with
    | none => rfl
    | some live =>
      obtain ⟨owner, l⟩ := live
      show _ = if owner = i then _ else _
      split
      · rfl
      · cases hb : o.branches[i]? with
        | none => rfl
        | some b =>
          refine (Parameter.map_ite_eq_self (hdistinct b (List.mem_of_getElem? hb)) ?_).symm
          exact fun q hbq =>
            hcalm owner l hl (hnot owner l hl) i hi q (declared?_eq_some.2 ⟨b, hb, hbq⟩)

/-- Settling does not show the branches differently. -/
theorem visibleParameters_settle
    (hdistinct : ∀ b ∈ o.branches, Parameter.Distinct b.parameters) (hcalm : o.Calm) :
    o.settle.visibleParameters = o.visibleParameters := by
  unfold visibleParameters
  rw [visible_settle]
  exact List.map_congr_left fun i hi => branchParameters_settle hdistinct hcalm hi

/-- The first parameter of each name is not one that settling puts in. -/
theorem parameters_settle (h : o.Ordered) (hfirst : o.LiveFirst) :
    o.settle.parameters = o.parameters := by
  rcases settle_cases o with ⟨owner, l, hl, hv⟩ | ⟨heq, -⟩
  · have hdeclares : ∀ {i q}, o.declared? i l.name = some q →
        o.branches[i]?.any (·.contains l.name) = true := by
      intro i q hq
      obtain ⟨b, hb, hbq⟩ := declared?_eq_some.1 hq
      rw [hb]
      exact Collection.contains_iff.2 ⟨q, hbq⟩
    have hbehind : ∀ i ∈ (o.sharing l.name owner).filter (· ≠ owner), owner < i ∧
        o.branches[i]?.any (·.contains l.name) = true := by
      intro i hi
      obtain ⟨hshare, hne⟩ := List.mem_filter.1 hi
      obtain ⟨-, q, hq, -⟩ := (mem_sharing (liveParameter?_eq_some.1 hl).2).1 hshare
      exact ⟨h.lt_of_mem_sharing hfirst hl hshare (of_decide_eq_true hne), hdeclares hq⟩
    rw [settle_of_hasValue hl hv]
    exact Parameter.distinct_foldl_modify_insert (hdeclares (liveParameter?_eq_some.1 hl).2) hbehind
  · rw [heq]
    rfl

/-! ## Alternatives that are used alike -/

/-- Alternatives with the same open branches, which show the same. -/
structure SameView (o o' : OneOf ν) : Prop where
  openBranches? : o.openBranches? = o'.openBranches?
  visibleParameters : o.visibleParameters = o'.visibleParameters

namespace SameView

variable {o' : OneOf ν}

/-- Alternatives that are shown alike are so with mapped sub-specs. -/
theorem map {μ : Type} [Judged μ] {f : ν → μ} (hf : Judges f) (h : SameView o o') :
    SameView (o.map f) (o'.map f) where
  openBranches? := by rw [openBranches?_map hf, openBranches?_map hf, h.openBranches?]
  visibleParameters := by
    rw [visibleParameters_map hf, visibleParameters_map hf, h.visibleParameters]

theorem selected? (h : SameView o o') : o.selected? = o'.selected? := by
  unfold OneOf.selected?
  rw [h.openBranches?]

theorem isOpen (h : SameView o o') : o.isOpen = o'.isOpen := by
  unfold OneOf.isOpen
  rw [h.openBranches?]

/-- The same parameter is shown under each key. -/
theorem parameter? (h : SameView o o') : o.parameter? = o'.parameter? := by
  funext key
  unfold OneOf.parameter?
  rw [h.visibleParameters]

theorem isComplete (h : SameView o o') : o.isComplete = o'.isComplete := by
  unfold OneOf.isComplete
  rw [h.visibleParameters]

theorem hasValue (h : SameView o o') : o.hasValue = o'.hasValue := by
  unfold OneOf.hasValue
  rw [h.visibleParameters]

theorem isOptional (h : SameView o o') : o.isOptional = o'.isOptional := by
  unfold OneOf.isOptional
  rw [h.visibleParameters]

/-- The same parameters are shown among those of a kind. -/
theorem visibleWhere (h : SameView o o') : o.visibleWhere = o'.visibleWhere := by
  funext keep
  unfold OneOf.visibleWhere
  rw [h.visibleParameters]

theorem openNames (h : SameView o o') : o.openNames = o'.openNames := by
  unfold OneOf.openNames
  rw [h.visibleParameters]

end SameView

/-- Alternatives that answer alike now, and are the same as soon as they are settled. -/
structure Indistinct (o o' : OneOf ν) : Prop where
  view : SameView o o'
  settle : o.settle = o'.settle
  parameters : o.parameters = o'.parameters

/-- Nothing tells alternatives from what they settle to. -/
theorem indistinct_settle (hdistinct : ∀ b ∈ o.branches, Parameter.Distinct b.parameters)
    (hordered : o.Ordered) (hfirst : o.LiveFirst) (hcalm : o.Calm) : Indistinct o o.settle where
  view := ⟨(openBranches?_settle o).symm, (visibleParameters_settle hdistinct hcalm).symm⟩
  settle := (settle_settle o).symm
  parameters := (parameters_settle hordered hfirst).symm

/-- Settling leaves the declared keys alone. -/
theorem contains_settle (o : OneOf ν) (key : String) : o.settle.contains key = o.contains key := by
  rw [Bool.eq_iff_iff, contains_iff_declared?, contains_iff_declared?]
  simp only [← Option.isSome_iff_exists, isSome_declared?_settle]

namespace Indistinct

variable {o' : OneOf ν}

theorem contains (h : o.Indistinct o') : o.contains = o'.contains := by
  funext key
  rw [← contains_settle, h.settle, contains_settle]

/-- The same branches would be written, or the same error would be given. -/
theorem plan (h : o.Indistinct o') : o.plan = o'.plan := by
  funext key value
  rw [← plan_settle, h.settle, plan_settle]

/-- A write settles first, so the same comes of it. -/
theorem set (h : o.Indistinct o') (key : String) (value : Value) :
    OneOf.set key value o = OneOf.set key value o' := by
  rw [← set_settle, h.settle, set_settle]

/-- Narrowing settles first, so the same comes of it. -/
theorem select (h : o.Indistinct o') (key : String) : OneOf.select key o = OneOf.select key o' := by
  rw [← select_settle, h.settle, select_settle]

/-- Handing out a sub-spec settles first, so the same comes of it. -/
theorem within {α : Type} (h : o.Indistinct o') (key : String) (act : Edit ν α) :
    OneOf.within key act o = OneOf.within key act o' := by
  rw [← within_settle, h.settle, within_settle]

end Indistinct

end OneOf

end SpecTree
