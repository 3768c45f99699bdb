import SpecTree.Proofs.OneOf.Access
import SpecTree.Proofs.Sound.Collection

/-!
# What becomes of a sub-spec that was changed

A sub-spec that is handed out lives in one branch, and the next access copies it to the others if
it holds a value by then. From then on no access to another key touches it, and none that fails does
(`Holds.after`). Main statement: `exists_shown_of_later`, the changed sub-spec is shown in all open
branches that share it if it holds a value, and in the branch that it was handed out from in any
case. A change that leaves it without a value is not copied (`entries_lost_of_later`).
-/

namespace SpecTree

namespace OneOf

variable {ν : Type} [Judged ν] {o o' : OneOf ν} {key : String} {S : Nat → Prop} {m : ν}

/-- Every access begins with settling. -/
theorem Access.act_settle (a : Access ν) (o : OneOf ν) : a.act o.settle = a.act o := by
  cases a with
  | set key value => exact set_settle key value o
  | select key => exact select_settle key o
  | within key change => exact within_settle key _ o

/-- The open branches among those in `S` that were not closed since hold the sub-spec `m` under a
key, and one of them would be the next to hand it out. What was handed out last is of another key,
unless all branches in `S` are closed. -/
structure Holds (o : OneOf ν) (key : String) (S : Nat → Prop) (m : ν) : Prop where
  live : ∀ owner, o.live = some (key, owner) → ∀ j ∈ o.visible, ¬ S j
  held : ∀ j ∈ o.visible, S j → ∃ q, o.declared? j key = some q ∧ q.node = some m
  first : ∀ f : Nat → Bool, (∃ j ∈ o.visible, f j = true ∧ S j) →
    ∃ i, ((o.writable key).filter f).head? = some i ∧ S i

namespace Holds

/-- Closing branches leaves the others as they were. -/
theorem narrow (h : Holds o key S m) (g : Nat → Bool) (hvisible : o'.visible = o.visible.filter g)
    (hdeclared : ∀ j, o'.declared? j key = o.declared? j key)
    (hlive : ∀ owner, o'.live ≠ some (key, owner)) : Holds o' key S m where
  live owner hl := absurd hl (hlive owner)
  held j hj hS := by
    rw [hvisible] at hj
    rw [hdeclared]
    exact h.held j (List.mem_filter.1 hj).1 hS
  first f := by
    rintro ⟨j, hj, hf, hS⟩
    rw [hvisible] at hj
    obtain ⟨hj, hg⟩ := List.mem_filter.1 hj
    have hwritable : (o'.writable key).filter f = (o.writable key).filter fun i => f i && g i := by
      unfold writable
      rw [hvisible]
      simp only [hdeclared, List.filter_filter]
      exact List.filter_congr fun i _ => by ac_rfl
    rw [hwritable]
    exact h.first _ ⟨j, hj, by rw [hf, hg]; rfl, hS⟩

/-- A sub-spec of another key that is copied closes branches, and that is all. -/
theorem settle (h : Holds o key S m) : Holds o.settle key S m where
  live owner hl := by
    rw [live_settle] at hl
    cases hl
  held j hj hS := by
    rw [visible_settle] at hj
    rcases settle_cases o with ⟨owner, p, hl, hv⟩ | ⟨heq, -⟩
    · rw [declared?_settle_of_hasValue hl hv, if_neg]
      · exact h.held j hj hS
      · rintro ⟨-, hname⟩
        exact h.live owner (hname ▸ (liveParameter?_eq_some.1 hl).1) j hj hS
    · rw [heq]
      exact h.held j hj hS
  first f hf := by
    rw [writable_settle]
    rw [visible_settle] at hf
    exact h.first f hf

end Holds

/-! ## Handing out -/

section Lend

variable {k : String} {i : Nat} {p p' : Parameter ν}

/-- A sub-spec without a value closes no branch. -/
theorem visible_lend_of_not_hasValue (hlive : o.live = none) (hp : o.declared? i k = some p)
    (hname : p'.name = p.name) (hv : p'.hasValue = false) :
    (o.lend k i p').visible = o.visible := by
  have hopen : (o.lend k i p').openBranches? = (o.lend k i p').active := by
    refine openBranches?_of_not_hasValue fun owner q hq => ?_
    rw [liveParameter?_lend hp hname] at hq
    cases hq
    exact hv
  rw [visible_of_live_eq_none hlive, ← committed_lend o k i p', visible, hopen]
  rfl

/-- Handing out a sub-spec opens no branch. -/
theorem visible_lend (hlive : o.live = none) (hp : o.declared? i k = some p)
    (hname : p'.name = p.name) :
    ∃ g : Nat → Bool, (o.lend k i p').visible = o.visible.filter g := by
  cases hv : p'.hasValue with
  | true =>
    rw [visible_of_live_eq_none hlive, ← committed_lend o k i p', visible,
      openBranches?_of_hasValue (liveParameter?_lend hp hname) hv]
    exact ⟨_, rfl⟩
  | false =>
    refine ⟨fun _ => true, (visible_lend_of_not_hasValue hlive hp hname hv).trans ?_⟩
    exact (List.filter_eq_self.2 fun _ _ => rfl).symm

omit [Judged ν] in
/-- Right after it was handed out, a sub-spec is shown in all branches that share it. -/
theorem shown?_of_live {owner : Nat} {l q : Parameter ν} (hl : o.liveParameter? = some (owner, l))
    (hq : o.declared? i l.name = some q) (htype : q.type = l.type) :
    o.shown? i l.name = some l := by
  rw [shown?_of_liveParameter? hl]
  split
  · next hi => exact hi ▸ (liveParameter?_eq_some.1 hl).2
  · rw [hq, Option.map_some, if_pos ⟨(name_of_declared? hq).symm, htype.symm⟩]

end Lend

namespace Holds

/-- If all branches in `S` are closed there is nothing to keep. -/
theorem of_closed (h : ∀ j ∈ o.visible, ¬ S j) : Holds o key S m where
  live _ _ := h
  held j hj hS := absurd hS (h j hj)
  first f := by
    rintro ⟨j, hj, -, hS⟩
    exact absurd hS (h j hj)

/-- A key is written that is another than that of the sub-spec. -/
theorem commit (h : Holds o key S m) {k : String} {o' : OneOf ν} (hlive : o'.live = none)
    (hactive : o'.active = some (o.writable k))
    (hdeclared : ∀ j, o'.declared? j key = o.declared? j key) : Holds o' key S m := by
  refine h.narrow (fun i => (o.declared? i k).isSome) ?_ hdeclared ?_
  · rw [visible_of_live_eq_none hlive, committed, hactive]
    rfl
  · intro owner hl
    rw [hlive] at hl
    cases hl

theorem lend (h : Holds o key S m) (hlive : o.live = none) {k : String} {i : Nat}
    {p p' : Parameter ν} (hne : k ≠ key) (hp : o.declared? i k = some p)
    (hname : p'.name = p.name) : Holds (o.lend k i p') key S m := by
  obtain ⟨g, hvisible⟩ := visible_lend hlive hp hname
  have hk : p'.name = k := hname.trans (name_of_declared? hp)
  refine h.narrow g hvisible (fun j => ?_) fun owner hl => ?_
  · rw [declared?_lend, if_neg fun h => hne (hk.symm.trans h.2.1)]
  · cases hl
    exact hne rfl

/-- While a branch is open that holds the sub-spec, the slot that is handed out next is not
empty. -/
theorem closed_of_empty (h : Holds o key S m) {i : Nat} {p : Parameter ν}
    (hi : (o.writable key).head? = some i) (hp : o.declared? i key = some p)
    (hempty : p.node = none) : ∀ j ∈ o.visible, ¬ S j := by
  intro j hj hS
  obtain ⟨i', hi', hS'⟩ := h.first (fun _ => true) ⟨j, hj, rfl, hS⟩
  rw [List.filter_eq_self.2 fun _ _ => rfl, hi] at hi'
  obtain rfl := Option.some.inj hi'
  obtain ⟨q, hq, hnode⟩ := h.held i (List.mem_filter.1 (List.mem_of_head? hi)).1 hS'
  rw [hp] at hq
  rw [← Option.some.inj hq, hempty] at hnode
  cases hnode

/-- What an access keeps that fails or is to another key. -/
theorem after (h : Holds o key S m) (a : Access ν)
    (hother : a.succeeds o = true → a.key ≠ key) : Holds (a.after o) key S m := by
  have hs := h.settle
  have hlive := live_settle o
  have hdoes := a.does o
  generalize a.succeeds o = ok, a.after o = o' at hdoes hother
  cases hdoes with
  | refused => exact hs
  | @set k value next plan =>
    have hne : k ≠ key := hother rfl
    have hcheck := check_of_plan_eq_ok ((plan_settle o k (some value)).trans plan)
    obtain ⟨rfl, -, -⟩ := plan_eq_ok.1 plan
    refine hs.commit (k := k) hlive (congrArg some (writable_settle o k).symm) fun j => ?_
    exact (declared?_assignedIn hcheck j key).trans (if_neg fun h => hne h.2)
  | @select k next plan =>
    obtain ⟨rfl, -, -⟩ := plan_eq_ok.1 plan
    exact hs.commit (k := k) hlive (congrArg some (writable_settle o k).symm) fun _ => rfl
  | @missing k change i p owner slot derived empty =>
    -- an empty slot for the key itself leaves no branch open that holds the sub-spec:
    by_cases hk : k = key
    · subst hk
      rw [← writable_settle] at owner
      have hclosed := hs.closed_of_empty owner slot empty
      obtain ⟨g, hvisible⟩ := visible_lend hlive slot (rfl : p.name = p.name)
      refine of_closed fun j hj => hclosed j ?_
      rw [hvisible] at hj
      exact (List.mem_filter.1 hj).1
    · exact hs.lend hlive hk slot rfl
  | @within k change i p m' owner slot derived held =>
    have hne : k ≠ key := hother rfl
    exact hs.lend hlive hne slot rfl

/-- What the branches hold they show. -/
theorem shown (h : Holds o key S m) {j : Nat} (hj : j ∈ o.visible) (hS : S j) :
    ∃ r, o.shown? j key = some r ∧ r.node = some m := by
  obtain ⟨q, hq, hnode⟩ := h.held j hj hS
  cases hl : o.liveParameter? with
  | none =>
    rw [shown?_of_liveParameter?_eq_none hl]
    exact ⟨q, hq, hnode⟩
  | some live =>
    obtain ⟨owner, l⟩ := live
    rw [shown?_of_liveParameter? hl, hq, Option.map_some]
    -- what was handed out last is of another key, and takes the place of nothing under this one
    have hname : ¬ (l.name = q.name ∧ l.type = q.type) := by
      rintro ⟨hname, -⟩
      have hkey : l.name = key := hname.trans (name_of_declared? hq)
      exact h.live owner (hkey ▸ (liveParameter?_eq_some.1 hl).1) j hj hS
    rw [if_neg hname]
    exact ⟨q, by split <;> rfl, hnode⟩

section Live

variable {owner : Nat} {l : Parameter ν}

/-- A sub-spec with a value is copied to all branches that stay open. -/
theorem of_hasValue (hl : o.liveParameter? = some (owner, l)) (hv : l.hasValue = true)
    (hnode : l.node = some m) : Holds o.settle l.name (fun _ => True) m where
  live i hi := by
    rw [live_settle] at hi
    cases hi
  held j hj _ := by
    rw [visible_settle, visible, openBranches?_of_hasValue hl hv, Option.getD_some] at hj
    rw [declared?_settle_of_hasValue hl hv, if_pos ⟨hj, rfl⟩]
    exact ⟨l, rfl, hnode⟩
  first f := by
    rintro ⟨j, hj, hf, -⟩
    -- settling put the sub-spec into every open branch:
    have hdeclares : (o.settle.declared? j l.name).isSome = true := by
      rw [visible_settle, visible, openBranches?_of_hasValue hl hv, Option.getD_some] at hj
      rw [declared?_settle_of_hasValue hl hv, if_pos ⟨hj, rfl⟩]
      rfl
    have hmem : j ∈ (o.settle.writable l.name).filter f :=
      List.mem_filter.2 ⟨List.mem_filter.2 ⟨hj, hdeclares⟩, hf⟩
    cases hhead : ((o.settle.writable l.name).filter f).head? with
    | none =>
      rw [List.head?_eq_none_iff.1 hhead] at hmem
      cases hmem
    | some i => exact ⟨i, rfl, trivial⟩

/-- A sub-spec without a value stays where it is. -/
theorem of_not_hasValue (hl : o.liveParameter? = some (owner, l)) (hv : l.hasValue = false)
    (hnode : l.node = some m) (hfirst : (o.writable l.name).head? = some owner) :
    Holds o.settle l.name (· = owner) m where
  live i hi := by
    rw [live_settle] at hi
    cases hi
  held j _ hj := by
    have hsettle : o.settle = { o with live := none } := by
      refine settle_of_not_hasValue fun i q hq => ?_
      rw [hl] at hq
      cases hq
      exact hv
    rw [hsettle, hj]
    exact ⟨l, (liveParameter?_eq_some.1 hl).2, hnode⟩
  first f := by
    rintro ⟨j, -, hf, rfl⟩
    rw [writable_settle]
    cases hw : o.writable l.name with
    | nil =>
      rw [hw] at hfirst
      cases hfirst
    | cons i is =>
      rw [hw, List.head?_cons] at hfirst
      obtain rfl := Option.some.inj hfirst
      exact ⟨i, by rw [List.filter_cons_of_pos hf]; rfl, rfl⟩

end Live

end Holds

/-! ## Runs -/

/-- `Later key o o'`: accesses that each failed, or succeeded under another key, have led from `o`
to `o'`. -/
inductive Later (key : String) (o : OneOf ν) : OneOf ν → Prop
  | refl : Later key o o
  | step {o' : OneOf ν} (h : Later key o o') (a : Access ν)
      (hother : a.succeeds o' = true → a.key ≠ key) : Later key o (a.after o')

/-- What holds as soon as the alternatives are settled holds after the first access. -/
theorem Later.holds (h : Holds o.settle key S m) (hlater : Later key o o') :
    o' = o ∨ Holds o' key S m := by
  induction hlater with
  | refl => exact .inl rfl
  | step _ a hother ih =>
    refine .inr ?_
    rcases ih with rfl | ih
    · have hact := Access.act_settle a
      unfold Access.succeeds Edit.answer at hother
      rw [← hact] at hother
      have hafter := h.after a hother
      unfold Access.after Edit.stateAfter at hafter ⊢
      rwa [hact] at hafter
    · exact ih.after a hother

theorem Later.exists_shown {i : Nat} {p l : Parameter ν} (hlive : o.live = none)
    (hi : (o.writable key).head? = some i) (hp : o.declared? i key = some p)
    (hname : l.name = p.name) (htype : l.type = p.type) (hnode : l.node = some m)
    (hlater : Later key (o.lend key i l) o') {j : Nat} (hj : j ∈ o'.visible) {q : Parameter ν}
    (hq : o'.declared? j key = some q) (hqtype : q.type = p.type)
    (hkept : j = i ∨ l.hasValue = true) : ∃ r, o'.shown? j key = some r ∧ r.node = some m := by
  obtain rfl : l.name = key := hname.trans (name_of_declared? hp)
  have hl := liveParameter?_lend hp hname
  -- before the first access the sub-spec stands in for those of the other branches:
  have hfresh : o' = o.lend l.name i l → ∃ r, o'.shown? j l.name = some r ∧ r.node = some m := by
    rintro rfl
    exact ⟨l, shown?_of_live hl hq (hqtype.trans htype.symm), hnode⟩
  cases hv : l.hasValue with
  | true =>
    rcases hlater.holds (Holds.of_hasValue hl hv hnode) with hsame | hholds
    · exact hfresh hsame
    · exact hholds.shown hj trivial
  | false =>
    have hwritable : (o.lend l.name i l).writable l.name = o.writable l.name := by
      unfold writable
      rw [visible_lend_of_not_hasValue hlive hp hname hv]
      exact List.filter_congr fun j _ => isSome_declared?_lend hp hname htype j l.name
    rcases hlater.holds (Holds.of_not_hasValue hl hv hnode (hwritable ▸ hi)) with hsame | hholds
    · exact hfresh hsame
    · refine hholds.shown hj (hkept.resolve_right ?_)
      rw [hv]
      exact Bool.false_ne_true

/-- **What becomes of a sub-spec that was changed.** After any accesses that fail or are to other
keys, the changed sub-spec is shown in all open branches that share it, if it holds a value; if not,
it is shown in the branch that it was handed out from. -/
theorem exists_shown_of_later {key : String} {change : ν → ν}
    (h : (Access.within key change).succeeds o = true)
    (hlater : Later key ((Access.within key change).after o) o') :
    ∃ i p m, o.owner key = .ok i ∧ o.settle.declared? i key = some p ∧ p.node = some m ∧
      ∀ j ∈ o'.visible, ∀ q, o'.declared? j key = some q → q.type = p.type →
        (j = i ∨ Judged.hasValue (change m) = true) →
        ∃ r, o'.shown? j key = some r ∧ r.node = some (change m) := by
  have hdoes := (Access.within key change).does o
  rw [h] at hdoes
  generalize (Access.within key change).after o = lent at hdoes hlater
  cases hdoes with
  | @within _ _ i p m hi hp hprim hm =>
    have hprim' : ({ p with node := some (change m) } : Parameter ν).isPrimitive = false := hprim
    refine ⟨i, p, m, owner_eq_ok.2 hi, hp, hm, fun j hj q hq hqtype hkept => ?_⟩
    rw [← writable_settle] at hi
    rw [← Parameter.hasValue_of_node hprim' rfl] at hkept
    exact Later.exists_shown (l := { p with node := some (change m) }) (live_settle o) hi hp rfl rfl
      rfl hlater hj hq hqtype hkept

/-- Two branches that share a list of numbers. -/
def exampleLists : List (Collection Node) :=
  let list := Parameter.derived "list" "int-list" (.list (.ofElement (.primitive (.scalar .int))))
  [.ofList [list, .primitive "a" (.scalar .int)], .ofList [list, .primitive "b" (.scalar .int)]]

def exampleEmpty : OneOf Node := ⟨exampleLists, none, none⟩

/-- An entry is appended to the list. -/
def exampleAppend : Node → Node := (Node.appendEmpty .empty "e").stateAfter

/-- An entry is appended to the list, and gets a value. -/
def exampleEnter (m : Node) : Node := (Node.set .empty "e" (.int 1)).stateAfter (exampleAppend m)

/-- The entries of the list that a branch shows. -/
def exampleEntries (o : OneOf Node) (i : Nat) : Option (List String) :=
  ((o.shown? i "list").bind (·.node)).map fun m => m.parameters.map (·.name)

/-- The list is changed, and then the second branch is chosen. -/
def exampleChosen (change : Node → Node) : OneOf Node :=
  (Access.set "b" (.int 2)).after ((Access.within "list" change).after exampleEmpty)

theorem later_exampleChosen (change : Node → Node) :
    Later "list" ((Access.within "list" change).after exampleEmpty) (exampleChosen change) :=
  .step .refl (.set "b" (.int 2)) fun _ => by decide

theorem exists_shown_of_later_exampleLists :
    (exampleChosen exampleEnter).visible = [1] ∧
      exampleEntries (exampleChosen exampleEnter) 1 = some ["e"] ∧
      ∃ m r, (exampleChosen exampleEnter).shown? 1 "list" = some r ∧
        r.node = some (exampleEnter m) := by
  have hvisible : (exampleChosen exampleEnter).visible = [1] := by decide +kernel
  have htype : ((exampleChosen exampleEnter).declared? 1 "list").map (·.type)
      = some (.spec "int-list") := by decide +kernel
  obtain ⟨q, hq, hqtype⟩ := Option.map_eq_some_iff.1 htype
  obtain ⟨i, p, m, howner, hp, hm, hshown⟩ :=
    exists_shown_of_later (by decide +kernel) (later_exampleChosen exampleEnter)
  -- the list is handed out from the first branch, and declared alike in the second
  obtain rfl : 0 = i := Except.ok.inj howner
  cases hp
  cases hm
  have hone : 1 ∈ (exampleChosen exampleEnter).visible := by
    rw [hvisible]
    exact List.mem_singleton.2 rfl
  exact ⟨hvisible, by decide +kernel, _, hshown 1 hone q hq hqtype (.inr (by decide +kernel))⟩

/-- A list to which an entry without a value was appended is shown as it was before, once the
branch is closed that it was handed out from. -/
theorem entries_lost_of_later :
    (Access.within "list" exampleAppend).succeeds exampleEmpty = true ∧
      exampleEntries ((Access.within "list" exampleAppend).after exampleEmpty) 1 = some ["e"] ∧
      Later "list" ((Access.within "list" exampleAppend).after exampleEmpty)
        (exampleChosen exampleAppend) ∧
      (exampleChosen exampleAppend).visible = [1] ∧
      exampleEntries (exampleChosen exampleAppend) 1 = some [] :=
  ⟨by decide +kernel, by decide +kernel, later_exampleChosen exampleAppend, by decide +kernel,
    by decide +kernel⟩

end OneOf

end SpecTree
