import Mathlib.Tactic.Common
import SpecTree.Proofs.Edit
import SpecTree.Proofs.Parameter
import SpecTree.Result
import SpecTree.Tree.OneOf

/-!
# Settling alternatives

Every write begins by copying the handed-out sub-spec to the branches that share it. Nothing
that is asked of the alternatives before a write can tell whether that has been done:

* `declared?_settle_of_hasValue`, `settle_of_not_hasValue`: what settling does;
* `visible_settle`, `plan_settle`: the open branches and the plans for a write stay the same.
-/

namespace SpecTree

namespace OneOf

variable {ν : Type}

/-! ## What the branches declare -/

/-- Alternatives are made of enough branches, and nothing is written to them yet. -/
theorem ofBranches_eq_ok {branches : List (Collection ν)} {o : OneOf ν} :
    ofBranches branches = .ok o ↔
      ¬ (branches.length < 2 ∨ branches.any Collection.isEmpty = true) ∧
        o = ⟨branches, none, none⟩ := by
  unfold ofBranches
  split
  · next hfew => exact iff_of_false nofun fun h => h.1 hfew
  · next henough => exact ⟨fun h => ⟨henough, (Except.ok.inj h).symm⟩, fun h => by rw [h.2]⟩

/-- A branch declares what is in its collection. -/
theorem declared?_eq_some {o : OneOf ν} {i : Nat} {k : String} {p : Parameter ν} :
    o.declared? i k = some p ↔ ∃ b, o.branches[i]? = some b ∧ b.parameter? k = some p := by
  rw [declared?, Option.bind_eq_some_iff]

/-- A key is declared if some branch declares it. -/
theorem contains_iff_declared? {o : OneOf ν} {k : String} :
    o.contains k = true ↔ ∃ i p, o.declared? i k = some p := by
  unfold contains
  rw [List.any_eq_true]
  constructor
  · rintro ⟨b, hb, hk⟩
    obtain ⟨i, hi⟩ := List.mem_iff_getElem?.1 hb
    obtain ⟨p, hp⟩ := Collection.contains_iff.1 hk
    exact ⟨i, p, declared?_eq_some.2 ⟨b, hi, hp⟩⟩
  · rintro ⟨i, p, hp⟩
    obtain ⟨b, hb, hbp⟩ := declared?_eq_some.1 hp
    exact ⟨b, List.mem_of_getElem? hb, Collection.contains_iff.2 ⟨p, hbp⟩⟩

theorem name_of_declared? {o : OneOf ν} {i : Nat} {k : String} {p : Parameter ν}
    (h : o.declared? i k = some p) : p.name = k := by
  obtain ⟨b, -, hb⟩ := declared?_eq_some.1 h
  exact Collection.name_of_parameter? hb

theorem lt_of_declared? {o : OneOf ν} {i : Nat} {k : String} {p : Parameter ν}
    (h : o.declared? i k = some p) : i < o.branches.length := by
  obtain ⟨b, hb, -⟩ := declared?_eq_some.1 h
  exact (List.getElem?_eq_some_iff.1 hb).1

theorem declared?_congr {o o' : OneOf ν} (h : o.branches = o'.branches) (i : Nat) (k : String) :
    o.declared? i k = o'.declared? i k := by
  unfold declared?
  rw [h]

/-- A parameter that is put into a branch is declared there, and nowhere else. -/
theorem declared?_modifyBranch (o : OneOf ν) (i : Nat) (p : Parameter ν) (j : Nat) (k : String) :
    (o.modifyBranch i (·.insert p)).declared? j k
      = if i = j ∧ p.name = k ∧ j < o.branches.length then some p else o.declared? j k := by
  unfold declared? modifyBranch
  by_cases hij : i = j
  · subst hij
    rw [List.getElem?_modify_eq]
    cases hb : o.branches[i]? with
    | none =>
      have hlen : ¬ i < o.branches.length := Nat.not_lt.2 (List.getElem?_eq_none_iff.1 hb)
      rw [if_neg fun h => hlen h.2.2]
      rfl
    | some b =>
      have hlen : i < o.branches.length := (List.getElem?_eq_some_iff.1 hb).1
      show (b.insert p).parameter? k = _
      rw [Collection.parameter?_insert]
      by_cases hk : p.name = k
      · rw [if_pos hk, if_pos ⟨rfl, hk, hlen⟩]
      · rw [if_neg hk, if_neg fun h => hk h.2.1]
        rfl
  · rw [List.getElem?_modify_ne _ _ hij, if_neg fun h => hij h.1]

/-- A sub-spec is handed out if a branch is marked for its key, and declares it. -/
theorem liveParameter?_eq_some {o : OneOf ν} {owner : Nat} {p : Parameter ν} :
    o.liveParameter? = some (owner, p) ↔
      o.live = some (p.name, owner) ∧ o.declared? owner p.name = some p := by
  unfold liveParameter?
  rw [Option.bind_eq_some_iff]
  constructor
  · rintro ⟨⟨k, i⟩, hlive, hmap⟩
    obtain ⟨q, hq, heq⟩ := Option.map_eq_some_iff.1 hmap
    cases heq
    rw [name_of_declared? hq]
    exact ⟨hlive, hq⟩
  · rintro ⟨hlive, hp⟩
    refine ⟨(p.name, owner), hlive, ?_⟩
    show (o.declared? owner p.name).map (owner, ·) = some (owner, p)
    rw [hp]
    rfl

theorem liveParameter?_of_live_eq_none {o : OneOf ν} (h : o.live = none) :
    o.liveParameter? = none := by
  rw [liveParameter?, h]
  rfl

/-- The branches that share a sub-spec are the committed ones that declare it alike. -/
theorem mem_sharing {o : OneOf ν} {owner : Nat} {p : Parameter ν}
    (h : o.declared? owner p.name = some p) {i : Nat} :
    i ∈ o.sharing p.name owner ↔
      i ∈ o.committed ∧ ∃ q, o.declared? i p.name = some q ∧ q.type = p.type := by
  unfold sharing
  rw [List.mem_filter, h, decide_eq_true_iff, Option.map_some, Option.map_eq_some_iff]

section Settle

variable [Judged ν] {o : OneOf ν} {owner : Nat} {p : Parameter ν}

/-! ## What settling does -/

/-- Without a sub-spec that holds a value, settling forgets what was handed out, and that
is all. -/
theorem settle_of_not_hasValue
    (h : ∀ owner p, o.liveParameter? = some (owner, p) → p.hasValue = false) :
    o.settle = { o with live := none } := by
  unfold settle
  split
  · rename_i owner p hlive
    rw [h owner p hlive]
    rfl
  · rfl

/-- Without a mark there is nothing to settle. -/
theorem settle_of_live_eq_none (h : o.live = none) : o.settle = o := by
  rw [settle_of_not_hasValue fun owner p hl => by
    rw [liveParameter?_of_live_eq_none h] at hl; cases hl]
  cases o
  cases h
  rfl

/-- A handed out sub-spec with a value is copied to the branches that share it, which alone stay
open. -/
theorem settle_of_hasValue (h : o.liveParameter? = some (owner, p)) (hv : p.hasValue = true) :
    o.settle =
      { branches := ((o.sharing p.name owner).filter (· ≠ owner)).foldl
          (fun bs i => bs.modify i (·.insert p)) o.branches
        active := some (o.sharing p.name owner)
        live := none } := by
  -- leaving out the owner in the loop is filtering it out before:
  have hfold : ∀ (is : List Nat) (a : OneOf ν),
      (is.foldl (fun o i => if i = owner then o else o.modifyBranch i (·.insert p)) a).branches
        = (is.filter (· ≠ owner)).foldl (fun bs i => bs.modify i (·.insert p)) a.branches := by
    intro is
    induction is with
    | nil => exact fun _ => rfl
    | cons i is ih =>
      intro a
      rw [List.foldl_cons, ih]
      by_cases hi : i = owner
      · rw [if_pos hi, List.filter_cons_of_neg (by simpa using hi)]
      · rw [if_neg hi, List.filter_cons_of_pos (by simpa using hi), List.foldl_cons]
        rfl
  unfold settle
  simp only [h, hv, if_true, hfold]

/-- The branches that a sub-spec with a value is copied to. -/
theorem getElem?_branches_settle (h : o.liveParameter? = some (owner, p))
    (hv : p.hasValue = true) (i : Nat) :
    o.settle.branches[i]?
      = if i ∈ (o.sharing p.name owner).filter (· ≠ owner) then o.branches[i]?.map (·.insert p)
        else o.branches[i]? := by
  rw [settle_of_hasValue h hv]
  exact getElem?_foldl_modify (Or.inr fun b => Collection.insert_insert rfl b) o.branches i

/-- A sub-spec with a value is copied to every branch that shares it, and nothing else changes
in the branches. -/
theorem declared?_settle_of_hasValue (h : o.liveParameter? = some (owner, p))
    (hv : p.hasValue = true) (i : Nat) (k : String) :
    o.settle.declared? i k
      = if i ∈ o.sharing p.name owner ∧ p.name = k then some p else o.declared? i k := by
  have hown : o.declared? owner p.name = some p := (liveParameter?_eq_some.1 h).2
  unfold declared?
  rw [getElem?_branches_settle h hv]
  -- the branches that get a copy, and those that do not:
  by_cases hi : i ∈ (o.sharing p.name owner).filter (· ≠ owner)
  · have hshare := (List.mem_filter.1 hi).1
    obtain ⟨-, q, hq, -⟩ := (mem_sharing hown).1 hshare
    obtain ⟨b, hb, -⟩ := declared?_eq_some.1 hq
    rw [if_pos hi, hb]
    show (b.insert p).parameter? k = _
    rw [Collection.parameter?_insert]
    by_cases hk : p.name = k
    · rw [if_pos hk, if_pos ⟨hshare, hk⟩]
    · rw [if_neg hk, if_neg fun h => hk h.2]
      rfl
  · rw [if_neg hi]
    split
    · rename_i hik
      -- a branch that shares the sub-spec without a copy made can only be the owner
      have hio : i = owner := by
        by_contra hne
        exact hi (List.mem_filter.2 ⟨hik.1, by simpa using hne⟩)
      rw [← hik.2, hio]
      exact hown
    · rfl

/-- After settling, no sub-spec is handed out. -/
@[simp] theorem live_settle (o : OneOf ν) : o.settle.live = none := by
  unfold settle
  split
  · split <;> rfl
  · rfl

/-- Settling twice is settling once. -/
@[simp] theorem settle_settle (o : OneOf ν) : o.settle.settle = o.settle :=
  settle_of_live_eq_none (live_settle o)

/-! ## What settling leaves alone -/

/-- Either the handed-out sub-spec holds a value, or settling only forgets it. -/
theorem settle_cases (o : OneOf ν) :
    (∃ owner p, o.liveParameter? = some (owner, p) ∧ p.hasValue = true) ∨
      o.settle = { o with live := none } ∧
        ∀ owner p, o.liveParameter? = some (owner, p) → p.hasValue = false := by
  by_cases h : ∃ owner p, o.liveParameter? = some (owner, p) ∧ p.hasValue = true
  · exact Or.inl h
  · have hnot : ∀ owner p, o.liveParameter? = some (owner, p) → p.hasValue = false := by
      intro owner p hl
      by_contra hv
      exact h ⟨owner, p, hl, by simpa using hv⟩
    exact Or.inr ⟨settle_of_not_hasValue hnot, hnot⟩

/-- A handed out sub-spec that holds a value leaves open the branches that share it. -/
theorem openBranches?_of_hasValue (h : o.liveParameter? = some (owner, p))
    (hv : p.hasValue = true) : o.openBranches? = some (o.sharing p.name owner) := by
  simp only [openBranches?, h, hv, if_true]

/-- One that holds none leaves the branches open that were. -/
theorem openBranches?_of_not_hasValue
    (h : ∀ owner p, o.liveParameter? = some (owner, p) → p.hasValue = false) :
    o.openBranches? = o.active := by
  unfold openBranches?
  split
  · rename_i owner p hl
    rw [h owner p hl]
    rfl
  · rfl

/-- Without a mark, those branches are open that were left open. -/
theorem openBranches?_of_live_eq_none (h : o.live = none) : o.openBranches? = o.active :=
  openBranches?_of_not_hasValue fun owner p hl => by
    rw [liveParameter?_of_live_eq_none h] at hl; cases hl

/-- Settling does not open or close a branch. -/
theorem openBranches?_settle (o : OneOf ν) : o.settle.openBranches? = o.openBranches? := by
  rw [openBranches?_of_live_eq_none (live_settle o)]
  rcases settle_cases o with ⟨owner, p, hl, hv⟩ | ⟨heq, hnot⟩
  · rw [openBranches?_of_hasValue hl hv, settle_of_hasValue hl hv]
  · rw [openBranches?_of_not_hasValue hnot, heq]

/-- Settling does not add a branch. -/
theorem length_settle (o : OneOf ν) : o.settle.branches.length = o.branches.length := by
  rcases settle_cases o with ⟨owner, p, hl, hv⟩ | ⟨heq, -⟩
  · rw [settle_of_hasValue hl hv]
    exact length_foldl_modify _ _ _
  · rw [heq]

theorem visible_settle (o : OneOf ν) : o.settle.visible = o.visible := by
  unfold visible indices
  rw [openBranches?_settle, length_settle]

/-- Without a mark, all open branches are shown. -/
theorem visible_of_live_eq_none (h : o.live = none) : o.visible = o.committed := by
  rw [visible, openBranches?_of_live_eq_none h, committed]

/-- A branch is selected if it is all that is visible. -/
theorem visible_of_selected? {i : Nat} (h : o.selected? = some i) : o.visible = [i] := by
  unfold selected? at h
  unfold visible
  split at h
  · next hopen =>
    rw [hopen, ← Option.some.inj h]
    rfl
  · cases h

/-- Settling commits to what was shown. -/
theorem committed_settle (o : OneOf ν) : o.settle.committed = o.visible := by
  rw [← visible_of_live_eq_none (live_settle o), visible_settle]

/-- Settling changes no name and no type. -/
theorem type_declared?_settle (o : OneOf ν) (i : Nat) (k : String) :
    (o.settle.declared? i k).map (·.type) = (o.declared? i k).map (·.type) := by
  rcases settle_cases o with ⟨owner, p, hl, hv⟩ | ⟨heq, -⟩
  · rw [declared?_settle_of_hasValue hl hv]
    split
    · rename_i hik
      obtain ⟨-, q, hq, htype⟩ := (mem_sharing (liveParameter?_eq_some.1 hl).2).1 hik.1
      rw [← hik.2, hq, Option.map_some, Option.map_some, htype]
    · rfl
  · rw [heq]
    rfl

theorem isSome_declared?_settle (o : OneOf ν) (i : Nat) (k : String) :
    (o.settle.declared? i k).isSome = (o.declared? i k).isSome := by
  have h := congrArg Option.isSome (type_declared?_settle o i k)
  rwa [Option.isSome_map, Option.isSome_map] at h

/-! ## Plans -/

/-- The open branches that declare a key. -/
def writable (o : OneOf ν) (key : String) : List Nat :=
  o.visible.filter fun i => (o.declared? i key).isSome

/-- A key is written to the same branches. -/
theorem writable_settle (o : OneOf ν) (key : String) : o.settle.writable key = o.writable key := by
  unfold writable
  rw [visible_settle]
  exact List.filter_congr fun i _ => isSome_declared?_settle o i key

/-- Fail if a branch does not take the value. -/
def checkBranch (o : OneOf ν) (key : String) (value : Value) (i : Nat) : Except TreeError Unit :=
  match o.declared? i key with
  | some p => (p.check value).map fun _ => ()
  | none => .ok ()

/-- A plan without a value fails only if no open branch declares the key. -/
theorem plan_none (o : OneOf ν) (key : String) :
    o.plan key none
      = if o.writable key = [] then .error (.prunedBranch key) else .ok (o.writable key) := by
  unfold plan
  show (if o.writable key = [] then _ else _) = _
  split <;> rfl

/-- A plan with a value asks every branch that would be written. -/
theorem plan_some (o : OneOf ν) (key : String) (value : Value) :
    o.plan key (some value)
      = if o.writable key = [] then .error (.prunedBranch key)
        else ((o.writable key).forM (o.checkBranch key value)).map fun _ => o.writable key := by
  -- the branches that are asked exist, and declare the key:
  have hchecks : ∀ i ∈ o.writable key, ∃ b, o.branches[i]? = some b ∧
      o.checkBranch key value i = b.checkSet key value := by
    intro i hi
    obtain ⟨p, hp⟩ := Option.isSome_iff_exists.1 (List.mem_filter.1 hi).2
    obtain ⟨b, hb, hbp⟩ := declared?_eq_some.1 hp
    refine ⟨b, hb, ?_⟩
    rw [checkBranch, hp, Collection.checkSet_of_parameter? hbp]
  unfold plan
  show (if o.writable key = [] then _ else _) = _
  split
  · rfl
  · show (forIn (o.writable key) PUnit.unit _ >>= fun _ => pure (o.writable key)
      : Except TreeError (List Nat)) = _
    rw [forIn_eq_forM (g := o.checkBranch key value)]
    · cases (o.writable key).forM (o.checkBranch key value) <;> rfl
    · intro i hi
      obtain ⟨b, hb, hcheck⟩ := hchecks i hi
      rw [hb, hcheck]
      rfl

/-- A plan lists the branches that declare the key, if there are any, and if all of them take
the value. -/
theorem plan_eq_ok {o : OneOf ν} {key : String} {value : Option Value} {next : List Nat} :
    o.plan key value = .ok next ↔
      next = o.writable key ∧ o.writable key ≠ [] ∧
        ∀ v, value = some v → ∀ i ∈ o.writable key, o.checkBranch key v i = .ok () := by
  cases value with
  | none =>
    rw [plan_none]
    split
    · rename_i h
      simp [h]
    · rename_i h
      simp [h, eq_comm]
  | some v =>
    rw [plan_some]
    split
    · rename_i h
      simp [h]
    · rename_i h
      -- with a value, every open branch that declares the key has to accept it:
      have hall : (o.writable key).forM (o.checkBranch key v) = .ok () ↔ _ := forM_eq_ok
      constructor
      · intro hmap
        obtain ⟨u, hc, rfl⟩ := map_eq_ok.1 hmap
        exact ⟨rfl, h, fun w hw => by cases hw; exact hall.1 hc⟩
      · rintro ⟨rfl, -, hcheck⟩
        rw [hall.2 (hcheck v rfl)]
        rfl

/-- A branch takes the same values after settling: only a sub-spec was replaced, by one of its type.
-/
theorem checkBranch_settle (o : OneOf ν) (key : String) (value : Value) (i : Nat) :
    o.settle.checkBranch key value i = o.checkBranch key value i := by
  unfold checkBranch
  have htype := type_declared?_settle o i key
  cases hq : o.settle.declared? i key with
  | none =>
    rw [hq, Option.map_none, eq_comm, Option.map_eq_none_iff] at htype
    rw [htype]
  | some q =>
    rw [hq, Option.map_some, eq_comm, Option.map_eq_some_iff] at htype
    obtain ⟨p, hp, hpq⟩ := htype
    rw [hp]
    show (q.check value).map _ = (p.check value).map _
    rw [Parameter.check_congr ((name_of_declared? hp).trans (name_of_declared? hq).symm) hpq]

/-- What a write would do is planned alike before and after settling. -/
theorem plan_settle (o : OneOf ν) (key : String) (value : Option Value) :
    o.settle.plan key value = o.plan key value := by
  cases value with
  | none => rw [plan_none, plan_none, writable_settle]
  | some v =>
    rw [plan_some, plan_some, writable_settle,
      forM_congr fun i _ => checkBranch_settle o key v i]

end Settle

end OneOf

end SpecTree
