import SpecTree.Proofs.OneOf.Settling

/-!
# Reading alternatives

What is shown under a key is the parameter of the first open branch that declares it, with the
handed-out sub-spec in place of its copies. Main statement: `parameter?_settle`, settling is
not seen by a reader, provided that the handed-out sub-spec lives in the first committed branch
that declares its key (`LiveFirst`). Without that proviso a sub-spec that holds no value would
be shown before settling and another one afterwards.
-/

namespace SpecTree

/-- The first result of a search is that of the first item that has one. -/
private theorem findSome?_eq_head?_filter {α β : Type} (f : α → Option β) (l : List α) :
    l.findSome? f = (l.filter fun a => (f a).isSome).head?.bind f := by
  induction l with
  | nil => rfl
  | cons a l ih =>
    rw [List.findSome?_cons]
    cases ha : f a with
    | some b =>
      rw [List.filter_cons_of_pos (by rw [ha]; rfl), List.head?_cons, Option.bind_some, ha]
    | none => rw [List.filter_cons_of_neg (by rw [ha]; exact Bool.false_ne_true), ih]

namespace Parameter

variable {ν : Type}

/-- A change that keeps names is seen under the same name. -/
theorem find?_map {f : Parameter ν → Parameter ν} (hf : ∀ p, (f p).name = p.name)
    (ps : List (Parameter ν)) (k : String) : find? (ps.map f) k = (find? ps k).map f := by
  induction ps with
  | nil => rfl
  | cons p ps ih =>
    rw [List.map_cons, find?_cons, find?_cons, hf, ih]
    split <;> rfl

end Parameter

namespace OneOf

variable {ν : Type}

/-- The committed branches that declare a key. -/
def candidates (o : OneOf ν) (key : String) : List Nat :=
  o.committed.filter fun i => (o.declared? i key).isSome

/-- The handed-out sub-spec lives in the first committed branch that declares its key. -/
def LiveFirst (o : OneOf ν) : Prop :=
  ∀ key i, o.live = some (key, i) → (o.candidates key).head? = some i

theorem liveFirst_of_live_eq_none {o : OneOf ν} (h : o.live = none) : o.LiveFirst := by
  intro key i hlive
  rw [h] at hlive
  cases hlive

/-- The parameter that a branch shows under a key. -/
def shown? (o : OneOf ν) (i : Nat) (key : String) : Option (Parameter ν) :=
  Parameter.find? (o.branchParameters i) key

theorem find?_own (o : OneOf ν) (i : Nat) (k : String) :
    Parameter.find? ((o.branches[i]?.map (·.parameters)).getD []) k = o.declared? i k := by
  unfold declared?
  cases o.branches[i]? <;> rfl

theorem shown?_of_liveParameter?_eq_none {o : OneOf ν} (h : o.liveParameter? = none) (i : Nat)
    (k : String) : o.shown? i k = o.declared? i k := by
  unfold shown? branchParameters
  rw [h]
  exact find?_own o i k

theorem shown?_of_live_eq_none {o : OneOf ν} (h : o.live = none) (i : Nat) (k : String) :
    o.shown? i k = o.declared? i k :=
  shown?_of_liveParameter?_eq_none (liveParameter?_of_live_eq_none h) i k

/-- With a sub-spec handed out, the other branches show it in place of what they declare under
its name with its type. -/
theorem shown?_of_liveParameter? {o : OneOf ν} {owner : Nat} {p : Parameter ν}
    (h : o.liveParameter? = some (owner, p)) (i : Nat) (k : String) :
    o.shown? i k
      = if owner = i then o.declared? i k
        else (o.declared? i k).map fun q => if p.name = q.name ∧ p.type = q.type then p else q := by
  unfold shown? branchParameters
  simp only [h]
  split
  · exact find?_own o i k
  · rw [Parameter.find?_map, find?_own]
    intro q
    split
    · rename_i hq
      exact hq.1
    · rfl

theorem isSome_shown? (o : OneOf ν) (i : Nat) (k : String) :
    (o.shown? i k).isSome = (o.declared? i k).isSome := by
  cases hl : o.liveParameter? with
  | some l =>
    obtain ⟨owner, p⟩ := l
    rw [shown?_of_liveParameter? hl]
    split
    · rfl
    · rw [Option.isSome_map]
  | none => rw [shown?_of_liveParameter?_eq_none hl]

variable [Judged ν]

/-- What is shown under a key is what the first branch shows that could be written. -/
theorem parameter?_eq (o : OneOf ν) (k : String) :
    o.parameter? k = (o.writable k).head?.bind fun i => o.shown? i k := by
  unfold parameter? visibleParameters writable
  rw [List.findSome?_map, findSome?_eq_head?_filter]
  show ((o.visible.filter fun i => (o.shown? i k).isSome).head?.bind fun i => o.shown? i k) = _
  rw [List.filter_congr fun i _ => isSome_shown? o i k]

theorem parameter?_of_live_eq_none {o : OneOf ν} (h : o.live = none) (k : String) :
    o.parameter? k = (o.writable k).head?.bind fun i => o.declared? i k := by
  rw [parameter?_eq]
  simp only [shown?_of_live_eq_none h]

theorem writable_of_live_eq_none {o : OneOf ν} (h : o.live = none) (k : String) :
    o.writable k = o.candidates k := by
  rw [writable, candidates, visible_of_live_eq_none h]

/-- A key is shown if and only if it could be written. -/
theorem parameter?_eq_none_iff {o : OneOf ν} {k : String} :
    o.parameter? k = none ↔ o.writable k = [] := by
  rw [parameter?_eq]
  cases hw : o.writable k with
  | nil => simp
  | cons i is =>
    have hi : i ∈ o.writable k := hw ▸ List.mem_cons_self
    have hsome : (o.shown? i k).isSome := (isSome_shown? o i k).trans (List.mem_filter.1 hi).2
    obtain ⟨p, hp⟩ := Option.isSome_iff_exists.1 hsome
    simp [hp]

/-- A reader sees the same parameters before and after settling. -/
theorem parameter?_settle {o : OneOf ν} (h : o.LiveFirst) (k : String) :
    o.settle.parameter? k = o.parameter? k := by
  rw [parameter?_of_live_eq_none (live_settle o), parameter?_eq, writable_settle]
  cases hw : o.writable k with
  | nil => rfl
  | cons i is =>
    have hi : i ∈ o.writable k := hw ▸ List.mem_cons_self
    obtain ⟨hvis, hsome⟩ := List.mem_filter.1 hi
    obtain ⟨q, hq⟩ := Option.isSome_iff_exists.1 hsome
    show o.settle.declared? i k = o.shown? i k
    rcases settle_cases o with ⟨owner, p, hl, hv⟩ | ⟨heq, hnot⟩
    · -- the open branches are those that share the sub-spec, and all of them show it
      rw [visible, openBranches?_of_hasValue hl hv, Option.getD_some] at hvis
      rw [declared?_settle_of_hasValue hl hv, shown?_of_liveParameter? hl]
      have hown : o.declared? owner p.name = some p := (liveParameter?_eq_some.1 hl).2
      obtain ⟨-, r, hr, htype⟩ := (mem_sharing hown).1 hvis
      by_cases hk : p.name = k
      · rw [if_pos ⟨hvis, hk⟩, ← hk]
        split
        · rename_i ho
          rw [← ho, hown]
        · rw [hr, Option.map_some, if_pos ⟨(name_of_declared? hr).symm, htype.symm⟩]
      · rw [if_neg fun h => hk h.2]
        split
        · rfl
        · rw [hq, Option.map_some, if_neg fun h => hk (h.1.trans (name_of_declared? hq))]
    · rw [heq]
      show o.declared? i k = o.shown? i k
      cases hl : o.liveParameter? with
      | none => exact (shown?_of_liveParameter?_eq_none hl i k).symm
      | some l =>
        obtain ⟨owner, p⟩ := l
        rw [shown?_of_liveParameter? hl]
        split
        · rfl
        · rename_i ho
          -- the first branch that declares the key of the sub-spec is its owner
          rw [hq, Option.map_some, if_neg]
          rintro ⟨hname, -⟩
          have hk : p.name = k := hname.trans (name_of_declared? hq)
          have hcommitted : o.writable k = o.candidates k := by
            rw [writable, candidates, visible, openBranches?_of_not_hasValue hnot, committed]
          have hfirst := h p.name owner (liveParameter?_eq_some.1 hl).1
          rw [hk, ← hcommitted, hw] at hfirst
          exact ho (Option.some.inj hfirst).symm

/-- As long as a branch is committed, one is open. -/
theorem visible_ne_nil {o : OneOf ν} (hlive : o.LiveFirst) (h : o.committed ≠ []) :
    o.visible ≠ [] := by
  unfold visible
  rcases settle_cases o with ⟨owner, p, hl, hv⟩ | ⟨-, hnot⟩
  · -- the branch that a sub-spec lives in shares it:
    rw [openBranches?_of_hasValue hl hv, Option.getD_some]
    obtain ⟨hkey, hp⟩ := liveParameter?_eq_some.1 hl
    have howner := List.mem_of_head? (hlive _ _ hkey)
    exact List.ne_nil_of_mem ((mem_sharing hp).2 ⟨(List.mem_filter.1 howner).1, p, hp, rfl⟩)
  · rw [openBranches?_of_not_hasValue hnot]
    exact h

end OneOf

end SpecTree
