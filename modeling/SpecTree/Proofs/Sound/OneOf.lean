import SpecTree.Proofs.OneOf.Writing
import SpecTree.Proofs.Sound.Collection

/-!
# What writes to alternatives keep

Once the sub-spec that was handed out is copied, what is shown under a key is what all open
branches hold (`shown_iff`). A write closes branches, and to those that it leaves open it does
what it does to a collection; so alternatives stay fit and go on showing what they showed:

* `Fit.set`, `Fit.select`, `Fit.lend` with `keeps_set`, `keeps_select`, `keeps_lend`;
* `hasValue_iff`: alternatives hold a value if and only if they show one.
-/

namespace SpecTree

namespace OneOf

variable {ν : Type} {S : ν → Prop} {o : OneOf ν} {key : String}

/-! ## Branches -/

theorem fit_of_declared? (h : ∀ b ∈ o.branches, b.Fit S) {i : Nat} {k : String} {p : Parameter ν}
    (hp : o.declared? i k = some p) : p.Fit S := by
  obtain ⟨b, hb, hbp⟩ := declared?_eq_some.1 hp
  exact (h b (List.mem_of_getElem? hb)).parameter? hbp

variable [Judged ν]

/-- Settling puts only parameters that fit into the branches. -/
theorem branches_settle (h : ∀ b ∈ o.branches, b.Fit S) : ∀ b ∈ o.settle.branches, b.Fit S := by
  rcases settle_cases o with ⟨owner, p, hl, hv⟩ | ⟨heq, -⟩
  · rw [settle_of_hasValue hl hv]
    have hp : p.Fit S := fit_of_declared? h (liveParameter?_eq_some.1 hl).2
    exact forall_mem_foldl_modify (fun b hb => hb.insert hp) _ h
  · rw [heq]
    exact h

/-! ## What is shown -/

/-- All committed branches declare a key, and what they hold under it has a property. -/
def AllHold (Q : Parameter ν → Prop) (k : String) (o : OneOf ν) : Prop :=
  o.committed ≠ [] ∧ ∀ i ∈ o.committed, ∃ p, o.declared? i k = some p ∧ Q p

/-- Nothing is shown under a key exactly if no branch is a candidate for it. -/
theorem parameter?_eq_none_iff_candidates (k : String) :
    o.parameter? k = none ↔ o.settle.candidates k = [] := by
  rw [parameter?_eq_none_iff, ← writable_settle, writable_of_live_eq_none (live_settle o)]

/-- What is shown under a key is what the first candidate declares. -/
theorem parameter?_eq_candidates (h : o.LiveFirst) (k : String) :
    o.parameter? k = (o.settle.candidates k).head?.bind fun i => o.settle.declared? i k := by
  rw [← parameter?_settle h, parameter?_of_live_eq_none (live_settle o),
    writable_of_live_eq_none (live_settle o)]

variable {Q : Parameter ν → Prop}

/-- What is shown under a key is what all open branches hold. -/
theorem shown_iff (h : o.Fit S) (hQ : Parameter.Persistent S Q) (k : String) :
    (∃ p ∈ o.parameter? k, Q p) ↔ AllHold Q k o.settle := by
  have hfit : ∀ {i p}, o.settle.declared? i k = some p → p.Fit S :=
    fun hp => fit_of_declared? (branches_settle h.branches) hp
  rw [parameter?_eq_candidates h.liveFirst]
  constructor
  · rintro ⟨p, hp, hQp⟩
    obtain ⟨i, hi, hip⟩ := Option.bind_eq_some_iff.1 hp
    have hmem : i ∈ o.settle.committed := (List.mem_filter.1 (List.mem_of_head? hi)).1
    refine ⟨List.ne_nil_of_mem hmem, fun j hj => ?_⟩
    obtain ⟨q, hq, hqv, heq | ⟨hpprim, hqprim⟩⟩ :=
      h.uniform i hmem j hj k p hip (hQ.valued p (hfit hip) hQp)
    · exact ⟨q, hq, heq ▸ hQp⟩
    · exact ⟨q, hq, hQ.primitive p q (hfit hip) hQp hpprim hqprim hqv⟩
  · rintro ⟨hne, hall⟩
    -- all committed branches declare the key, and so the first of them is shown:
    have hcandidates : o.settle.candidates k = o.settle.committed := by
      apply List.filter_eq_self.2
      intro i hi
      obtain ⟨p, hp, -⟩ := hall i hi
      rw [hp]
      rfl
    rw [hcandidates]
    cases hhead : o.settle.committed.head? with
    | none => exact absurd (List.head?_eq_none_iff.1 hhead) hne
    | some i =>
      obtain ⟨p, hp, hQp⟩ := hall i (List.mem_of_head? hhead)
      exact ⟨p, hp, hQp⟩

/-- Settled alternatives of which some branches are closed. -/
structure Narrowed (s s' : OneOf ν) : Prop where
  committed : ∀ i ∈ s'.committed, i ∈ s.committed
  ne_nil : s'.committed ≠ []
  declares : ∀ i k, (s'.declared? i k).isSome = (s.declared? i k).isSome

/-- Closing branches keeps what is shown, if the change in those left open does. -/
theorem keeps_of_narrowed {o' : OneOf ν} (h : o.Fit S) (h' : o'.Fit S)
    (hQ : Parameter.Persistent S Q) (hn : Narrowed o.settle o'.settle) {k : String}
    (hkeep : ∀ i ∈ o'.settle.committed, ∀ p p', o.settle.declared? i k = some p →
      o'.settle.declared? i k = some p' → Q p → Q p') :
    Parameter.Keeps Q (o.parameter? k) (o'.parameter? k) := by
  constructor
  · rw [parameter?_eq_none_iff_candidates, parameter?_eq_none_iff_candidates, candidates,
      candidates, List.filter_eq_nil_iff, List.filter_eq_nil_iff]
    intro hnone i hi
    rw [hn.declares]
    exact hnone i (hn.committed i hi)
  · rw [shown_iff h hQ, shown_iff h' hQ]
    rintro ⟨-, hall⟩
    refine ⟨hn.ne_nil, fun i hi => ?_⟩
    obtain ⟨p, hp, hQp⟩ := hall i (hn.committed i hi)
    have hsome : (o'.settle.declared? i k).isSome := by
      rw [hn.declares, hp]
      rfl
    obtain ⟨p', hp'⟩ := Option.isSome_iff_exists.1 hsome
    exact ⟨p', hp', hkeep i hi p p' hp hp' hQp⟩

/-! ## Settling -/

/-- Alternatives that fit do so when they have settled. -/
theorem Fit.settle (h : o.Fit S) : o.settle.Fit S where
  branches := branches_settle h.branches
  liveFirst := liveFirst_of_live_eq_none (live_settle o)
  uniform := by
    rw [settle_settle]
    exact h.uniform

/-- Settling keeps what is shown under each key. -/
theorem keeps_settle (h : o.Fit S) (Q : Parameter ν → Prop) (k : String) :
    Parameter.Keeps Q (o.parameter? k) (o.settle.parameter? k) := by
  rw [parameter?_settle h.liveFirst]
  exact .refl Q _

/-! ## Setting a key -/

/-- What setting a key makes of settled alternatives. -/
structure Assigned (key : String) (value : Value) (s s' : OneOf ν) : Prop where
  live : s'.live = none
  narrowed : Narrowed s s'
  written : ∀ i ∈ s'.committed, ∃ p w, s.declared? i key = some p ∧ p.check value = .ok w ∧
    s'.declared? i key = some { p with value := some w }
  others : ∀ i k, key ≠ k → s'.declared? i k = s.declared? i k

/-- A write that succeeds narrows the branches, and assigns the key in those that stay open. -/
theorem assigned_of_set_eq_ok {value : Value} {o' : OneOf ν}
    (h : OneOf.set key value o = .ok () o') : Assigned key value o.settle o' := by
  obtain ⟨next, hplan, rfl⟩ := set_eq_ok.1 h
  obtain ⟨hnext, hne, -⟩ := plan_eq_ok.1 hplan
  have hcheck := check_of_plan_eq_ok ((plan_settle o key (some value)).trans hplan)
  have hdecl := declared?_assignedIn hcheck
  constructor
  case live => exact live_settle o
  case narrowed =>
    constructor
    case committed =>
      intro i hi
      have hmem : i ∈ o.writable key := hnext ▸ hi
      rw [committed_settle]
      exact (List.mem_filter.1 hmem).1
    case ne_nil =>
      show next ≠ []
      rwa [hnext]
    -- a value leaves the declared keys alone:
    case declares =>
      intro i k
      show ((o.settle.assignedIn key value next).declared? i k).isSome = _
      rw [hdecl]
      split
      · rename_i hik
        obtain ⟨p, w, hp, hw⟩ := hcheck i hik.1
        rw [← hik.2, hp, Option.bind_some, hw]
        rfl
      · rfl
  case written =>
    intro i hi
    obtain ⟨p, w, hp, hw⟩ := hcheck i hi
    refine ⟨p, w, hp, hw, ?_⟩
    show (o.settle.assignedIn key value next).declared? i key = _
    rw [hdecl, if_pos ⟨hi, rfl⟩, hp, Option.bind_some, hw]
    rfl
  case others =>
    intro i k hk
    show (o.settle.assignedIn key value next).declared? i k = _
    rw [hdecl, if_neg fun h => hk h.2]

theorem branches_of_set_eq_ok {value : Value} {o' : OneOf ν} (h : ∀ b ∈ o.branches, b.Fit S)
    (hset : OneOf.set key value o = .ok () o') : ∀ b ∈ o'.branches, b.Fit S := by
  obtain ⟨next, hplan, rfl⟩ := set_eq_ok.1 hset
  refine forall_mem_foldl_modify (fun b hb => ?_) next (branches_settle h)
  unfold Collection.assigned
  split
  · rename_i b' hb'
    exact hb.set hb'
  · exact hb

/-- A write leaves alternatives fit. -/
theorem Fit.set {value : Value} {o' : OneOf ν} (h : o.Fit S)
    (hset : OneOf.set key value o = .ok () o') : o'.Fit S := by
  have ha := assigned_of_set_eq_ok hset
  refine ⟨branches_of_set_eq_ok h.branches hset, liveFirst_of_live_eq_none ha.live, ?_⟩
  rw [settle_of_live_eq_none ha.live]
  intro i hi j hj k p hp hv
  by_cases hk : key = k
  · -- every open branch holds the value that was set
    subst hk
    obtain ⟨q, w, -, hw, hq⟩ := ha.written i hi
    obtain ⟨q', w', -, hw', hq'⟩ := ha.written j hj
    rw [hq] at hp
    cases hp
    exact ⟨_, hq', Parameter.hasValue_of_check hw',
      Or.inr ⟨Parameter.isPrimitive_of_check hw, Parameter.isPrimitive_of_check hw'⟩⟩
  · rw [ha.others i k hk] at hp
    rw [ha.others j k hk]
    exact h.uniform i (ha.narrowed.committed i hi) j (ha.narrowed.committed j hj) k p hp hv

/-- A write keeps what is shown under each key, in the branches that it leaves open. -/
theorem keeps_set {value : Value} {o' : OneOf ν} (h : o.Fit S) (hQ : Parameter.Persistent S Q)
    (hset : OneOf.set key value o = .ok () o') (k : String) :
    Parameter.Keeps Q (o.parameter? k) (o'.parameter? k) := by
  have ha := assigned_of_set_eq_ok hset
  have hsettled : o'.settle = o' := settle_of_live_eq_none ha.live
  apply keeps_of_narrowed h (h.set hset) hQ
  · rw [hsettled]
    exact ha.narrowed
  · rw [hsettled]
    intro i hi p p' hp hp' hQp
    by_cases hk : key = k
    · subst hk
      obtain ⟨q, w, hq, hw, hq'⟩ := ha.written i hi
      rw [hp] at hq
      cases hq
      rw [hp'] at hq'
      cases hq'
      exact hQ.set (fit_of_declared? (branches_settle h.branches) hp) hw hQp
    · rw [ha.others i k hk, hp] at hp'
      cases hp'
      exact hQp

/-! ## Narrowing -/

/-- Narrowing changes no branch, and hands out nothing. -/
theorem narrowed_of_select_eq_ok {o' : OneOf ν} (h : OneOf.select key o = .ok () o') :
    o'.live = none ∧ Narrowed o.settle o' ∧ o'.branches = o.settle.branches := by
  obtain ⟨next, hplan, rfl⟩ := select_eq_ok.1 h
  obtain ⟨hnext, hne, -⟩ := plan_eq_ok.1 hplan
  refine ⟨live_settle o, ⟨?_, ?_, fun _ _ => rfl⟩, rfl⟩
  · intro i hi
    have hmem : i ∈ o.writable key := hnext ▸ hi
    rw [committed_settle]
    exact (List.mem_filter.1 hmem).1
  · show next ≠ []
    rwa [hnext]

theorem Fit.select {o' : OneOf ν} (h : o.Fit S) (hselect : OneOf.select key o = .ok () o') :
    o'.Fit S := by
  obtain ⟨hlive, hn, hbranches⟩ := narrowed_of_select_eq_ok hselect
  refine ⟨?_, liveFirst_of_live_eq_none hlive, ?_⟩
  · rw [hbranches]
    exact branches_settle h.branches
  · rw [settle_of_live_eq_none hlive]
    intro i hi j hj k p hp hv
    rw [declared?_congr hbranches] at hp ⊢
    exact h.uniform i (hn.committed i hi) j (hn.committed j hj) k p hp hv

/-- Narrowing keeps what is shown under each key, in the branches that it leaves open. -/
theorem keeps_select {o' : OneOf ν} (h : o.Fit S) (hQ : Parameter.Persistent S Q)
    (hselect : OneOf.select key o = .ok () o') (k : String) :
    Parameter.Keeps Q (o.parameter? k) (o'.parameter? k) := by
  obtain ⟨hlive, hn, hbranches⟩ := narrowed_of_select_eq_ok hselect
  have hsettled : o'.settle = o' := settle_of_live_eq_none hlive
  apply keeps_of_narrowed h (h.select hselect) hQ
  · rw [hsettled]
    exact hn
  · rw [hsettled]
    intro i hi p p' hp hp' hQp
    rw [declared?_congr hbranches, hp] at hp'
    cases hp'
    exact hQp

/-! ## Handing out a sub-spec -/

section Lend

variable {s : OneOf ν} {i : Nat} {p p' : Parameter ν}

/-- Once the sub-spec holds a value, the branches that share it are the open ones, and hold it. -/
theorem settle_lend_of_hasValue (hi : (s.candidates key).head? = some i)
    (hp : s.declared? i key = some p) (hname : p'.name = p.name) (htype : p'.type = p.type)
    (hv : p'.hasValue = true) :
    Narrowed s (s.lend key i p').settle ∧
      ∀ j ∈ (s.lend key i p').settle.committed, ∀ k,
        (s.lend key i p').settle.declared? j k = if key = k then some p' else s.declared? j k := by
  have hkey : p'.name = key := hname.trans (name_of_declared? hp)
  have hl := liveParameter?_lend hp hname
  have hown := (liveParameter?_eq_some.1 hl).2
  have hcommitted : (s.lend key i p').settle.committed = (s.lend key i p').sharing p'.name i := by
    rw [committed_settle, visible, openBranches?_of_hasValue hl hv, Option.getD_some]
  have hmem : ∀ j ∈ (s.lend key i p').settle.committed, j ∈ s.committed := by
    intro j hj
    rw [hcommitted] at hj
    rw [← committed_lend s key i p']
    exact ((mem_sharing hown).1 hj).1
  -- the owner shares with itself:
  have hfirst : i ∈ (s.lend key i p').sharing p'.name i := by
    apply (mem_sharing hown).2
    rw [committed_lend]
    exact ⟨(List.mem_filter.1 (List.mem_of_head? hi)).1, p', hown, rfl⟩
  refine ⟨⟨hmem, ?_, ?_⟩, ?_⟩
  · rw [hcommitted]
    exact List.ne_nil_of_mem hfirst
  · intro j k
    rw [isSome_declared?_settle, isSome_declared?_lend hp hname htype]
  · intro j hj k
    rw [hcommitted] at hj
    rw [declared?_settle_of_hasValue hl hv, declared?_lend, hkey]
    by_cases hk : key = k
    · rw [if_pos ⟨hkey ▸ hj, hk⟩, if_pos hk]
    · rw [if_neg fun h => hk h.2, if_neg fun h => hk h.2.1, if_neg hk]

/-- While the sub-spec holds no value, no branch is closed, and only its owner holds it. -/
theorem settle_lend_of_not_hasValue (hp : s.declared? i key = some p)
    (hname : p'.name = p.name) (hv : p'.hasValue = false) :
    (s.lend key i p').settle.committed = s.committed ∧
      ∀ j k, (s.lend key i p').settle.declared? j k
        = if i = j ∧ key = k then some p' else s.declared? j k := by
  have hkey : p'.name = key := hname.trans (name_of_declared? hp)
  have hl := liveParameter?_lend hp hname
  have hsettle : (s.lend key i p').settle = { s.lend key i p' with live := none } := by
    apply settle_of_not_hasValue
    intro owner q hq
    rw [hl] at hq
    cases hq
    exact hv
  constructor
  · rw [hsettle]
    exact committed_lend s key i p'
  · intro j k
    rw [hsettle]
    show (s.lend key i p').declared? j k = _
    rw [declared?_lend, hkey]
    by_cases hik : i = j ∧ key = k
    · rw [if_pos hik, if_pos ⟨hik.1, hik.2, hik.1 ▸ lt_of_declared? hp⟩]
    · rw [if_neg hik, if_neg fun h => hik ⟨h.1, h.2.1⟩]

/-- Alternatives stay fit when a sub-spec of theirs is changed, as long as it keeps its value. -/
theorem Fit.lend (h : s.Fit S) (hlive : s.live = none) (hi : (s.candidates key).head? = some i)
    (hp : s.declared? i key = some p) (hname : p'.name = p.name) (htype : p'.type = p.type)
    (hfit : p'.Fit S) (hmono : p.hasValue = true → p'.hasValue = true) :
    (s.lend key i p').Fit S := by
  have hu : s.Uniform := by
    have hu := h.uniform
    rwa [settle_of_live_eq_none hlive] at hu
  refine ⟨?_, liveFirst_lend hi hp hname htype, ?_⟩
  · exact forall_mem_foldl_modify (fun b hb => hb.insert hfit) [i] h.branches
  · intro j hj j' hj' k q hq hqv
    -- with a value the sub-spec is copied, and without one it is not looked at:
    cases hv : p'.hasValue with
    | true =>
      obtain ⟨hn, hdecl⟩ := settle_lend_of_hasValue hi hp hname htype hv
      rw [hdecl j hj] at hq
      rw [hdecl j' hj']
      by_cases hk : key = k
      · rw [if_pos hk] at hq ⊢
        cases hq
        exact ⟨p', rfl, hv, Or.inl rfl⟩
      · rw [if_neg hk] at hq ⊢
        exact hu j (hn.committed j hj) j' (hn.committed j' hj') k q hq hqv
    | false =>
      have hpv : p.hasValue = false := by
        cases hpv : p.hasValue with
        | false => rfl
        | true => rw [hmono hpv] at hv; cases hv
      obtain ⟨hcommitted, hdecl⟩ := settle_lend_of_not_hasValue hp hname hv
      rw [hcommitted] at hj hj'
      rw [hdecl] at hq
      split at hq
      · cases hq
        rw [hv] at hqv
        cases hqv
      · obtain ⟨r, hr, hrv, hrq⟩ := hu j hj j' hj' k q hq hqv
        refine ⟨r, ?_, hrv, hrq⟩
        rw [hdecl, if_neg]
        · exact hr
        · -- the owner would have held a value before
          rintro ⟨rfl, rfl⟩
          rw [hp] at hr
          cases hr
          rw [hpv] at hrv
          cases hrv

/-- Handing out a sub-spec keeps what is shown, if what is done to it does. -/
theorem keeps_lend (h : s.Fit S) (hQ : Parameter.Persistent S Q) (hlive : s.live = none)
    (hi : (s.candidates key).head? = some i) (hp : s.declared? i key = some p)
    (hprim : p.isPrimitive = false) (hname : p'.name = p.name) (htype : p'.type = p.type)
    (hfit : p'.Fit S) (hmono : p.hasValue = true → p'.hasValue = true) (k : String)
    (hkeep : key = k → Q p → Q p') :
    Parameter.Keeps Q (s.parameter? k) ((s.lend key i p').parameter? k) := by
  have hsettled : s.settle = s := settle_of_live_eq_none hlive
  have hmem : i ∈ s.committed := (List.mem_filter.1 (List.mem_of_head? hi)).1
  have hlend := h.lend hlive hi hp hname htype hfit hmono
  cases hv : p'.hasValue with
  | true =>
    obtain ⟨hn, hdecl⟩ := settle_lend_of_hasValue hi hp hname htype hv
    apply keeps_of_narrowed h hlend hQ
    · rw [hsettled]
      exact hn
    · rw [hsettled]
      intro j hj q q' hq hq' hQq
      rw [hdecl j hj] at hq'
      by_cases hk : key = k
      · rw [if_pos hk] at hq'
        cases hq'
        subst hk
        -- what a branch held was what the owner held
        have hu := h.uniform
        rw [hsettled] at hu
        have hqv := hQ.valued q (fit_of_declared? h.branches hq) hQq
        obtain ⟨r, hr, -, heq | ⟨-, hrprim⟩⟩ := hu j (hn.committed j hj) i hmem key q hq hqv
        · rw [hp] at hr
          cases hr
          exact hkeep rfl (heq ▸ hQq)
        · rw [hp] at hr
          cases hr
          rw [hprim] at hrprim
          cases hrprim
      · rw [if_neg hk, hq] at hq'
        cases hq'
        exact hQq
  | false =>
    obtain ⟨hcommitted, hdecl⟩ := settle_lend_of_not_hasValue hp hname hv
    apply keeps_of_narrowed h hlend hQ
    · rw [hsettled]
      refine ⟨fun j hj => hcommitted ▸ hj, ?_, ?_⟩
      · rw [hcommitted]
        exact List.ne_nil_of_mem hmem
      · intro j k
        rw [isSome_declared?_settle, isSome_declared?_lend hp hname htype]
    · rw [hsettled]
      intro j hj q q' hq hq' hQq
      rw [hdecl] at hq'
      split at hq'
      · -- the owner held no value, and so nothing that is to be kept
        rename_i hik
        obtain ⟨rfl, rfl⟩ := hik
        rw [hp] at hq
        cases hq
        have hpv := hmono (hQ.valued p (fit_of_declared? h.branches hp) hQq)
        rw [hv] at hpv
        cases hpv
      · rw [hq] at hq'
        cases hq'
        exact hQq

/-- A sub-spec that was handed out is shown, whatever became of it. -/
theorem parameter?_lend (hi : (s.candidates key).head? = some i) (hp : s.declared? i key = some p)
    (hname : p'.name = p.name) (htype : p'.type = p.type) :
    (s.lend key i p').parameter? key = some p' := by
  rw [parameter?_eq_candidates (liveFirst_lend hi hp hname htype)]
  -- with a value every branch that stays open has the parameter, else only its owner:
  cases hv : p'.hasValue with
  | true =>
    obtain ⟨hn, hdecl⟩ := settle_lend_of_hasValue hi hp hname htype hv
    have hall : (s.lend key i p').settle.candidates key = (s.lend key i p').settle.committed := by
      apply List.filter_eq_self.2
      intro j hj
      rw [hdecl j hj, if_pos rfl]
      rfl
    rw [hall]
    cases hhead : (s.lend key i p').settle.committed.head? with
    | none => exact absurd (List.head?_eq_none_iff.1 hhead) hn.ne_nil
    | some j => rw [Option.bind_some, hdecl j (List.mem_of_head? hhead), if_pos rfl]
  | false =>
    obtain ⟨hcommitted, hdecl⟩ := settle_lend_of_not_hasValue hp hname hv
    have hsame : (s.lend key i p').settle.candidates key = s.candidates key := by
      unfold candidates
      rw [hcommitted]
      apply List.filter_congr
      intro j _
      rw [isSome_declared?_settle, isSome_declared?_lend hp hname htype]
    rw [hsame, hi, Option.bind_some, hdecl, if_pos ⟨rfl, rfl⟩]

end Lend

/-! ## Values -/

/-- A value that an open branch shows is there once the alternatives are settled. -/
theorem declared?_settle_of_shown (h : o.Fit S) {i : Nat} (hi : i ∈ o.visible) {p : Parameter ν}
    (hp : p ∈ o.branchParameters i) (hv : p.hasValue = true) :
    ∃ q, o.settle.declared? i p.name = some q ∧ q.hasValue = true := by
  -- every parameter of a branch is found under its name:
  have hown : ∀ q ∈ (o.branches[i]?.map (·.parameters)).getD [],
      o.declared? i q.name = some q := by
    intro q hq
    cases hb : o.branches[i]? with
    | none =>
      rw [hb] at hq
      cases hq
    | some b =>
      rw [hb] at hq
      exact declared?_eq_some.2
        ⟨b, hb, Parameter.find?_of_mem (h.branches b (List.mem_of_getElem? hb)).distinct hq⟩
  -- settling puts something with a value in the place of what is there, or nothing
  have hsettled : o.declared? i p.name = some p →
      ∃ q, o.settle.declared? i p.name = some q ∧ q.hasValue = true := by
    intro hd
    rcases settle_cases o with ⟨owner, l, hl, hlv⟩ | ⟨heq, -⟩
    · rw [declared?_settle_of_hasValue hl hlv]
      split
      · exact ⟨l, rfl, hlv⟩
      · exact ⟨p, hd, hv⟩
    · rw [heq]
      exact ⟨p, hd, hv⟩
  unfold branchParameters at hp
  split at hp
  · rename_i owner l hl
    split at hp
    · exact hsettled (hown p hp)
    · obtain ⟨q, hq, hqp⟩ := List.mem_map.1 hp
      split at hqp
      · -- the branch shows the sub-spec that was handed out, and gets a copy of it
        subst hqp
        rename_i hlq
        refine ⟨l, ?_, hv⟩
        rw [visible, openBranches?_of_hasValue hl hv, Option.getD_some] at hi
        rw [declared?_settle_of_hasValue hl hv, if_pos ⟨hi, rfl⟩]
      · subst hqp
        exact hsettled (hown q hq)
  · exact hsettled (hown p hp)

/-- Alternatives hold a value if and only if they show one. -/
theorem hasValue_iff (h : o.Fit S) :
    o.hasValue = true ↔ ∃ k, ∃ p ∈ o.parameter? k, p.hasValue = true := by
  unfold hasValue visibleParameters
  rw [List.any_map, List.any_eq_true]
  constructor
  · rintro ⟨i, hi, hany⟩
    obtain ⟨p, hp, hv⟩ := List.any_eq_true.1 hany
    obtain ⟨q, hq, hqv⟩ := declared?_settle_of_shown h hi hp hv
    have hmem : i ∈ o.settle.committed := (committed_settle o).symm ▸ hi
    refine ⟨p.name, (shown_iff h Parameter.persistent_hasValue p.name).2 ⟨?_, ?_⟩⟩
    · exact List.ne_nil_of_mem hmem
    · intro j hj
      obtain ⟨r, hr, hrv, -⟩ := h.uniform i hmem j hj p.name q hq hqv
      exact ⟨r, hr, hrv⟩
  · rintro ⟨k, p, hp, hv⟩
    rw [parameter?_eq] at hp
    obtain ⟨i, hi, hip⟩ := Option.bind_eq_some_iff.1 hp
    have hmem := (List.mem_filter.1 (List.mem_of_head? hi)).1
    exact ⟨i, hmem, List.any_eq_true.2 ⟨p, Parameter.mem_of_find? hip, hv⟩⟩

end OneOf

end SpecTree
