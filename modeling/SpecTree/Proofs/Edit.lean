import SpecTree.Tree.Edit

/-!
# What edits leave behind

Edits are state transformers that may fail part of the way. Collected here:

* what the building blocks `replace` and `zoom` leave behind, failed or not;
* `each`, the loop over a list as a recursion (`forIn_eq_each`);
* `getElem?_foldl_modify`, what a list is after the items at several places were changed.
-/

namespace SpecTree

namespace Edit

variable {σ τ α β ι : Type}

/-! ## Building blocks -/

/-- An edit that looks at the state goes on with it. -/
theorem get_bind {ε : Type} (f : σ → EStateM ε σ α) (s : σ) :
    (get >>= f : EStateM ε σ α) s = f s s := rfl

/-- An edit that changes the state goes on in the changed one. -/
theorem modify_bind {ε : Type} (f : σ → σ) (act : EStateM ε σ α) (s : σ) :
    (modify f >>= fun _ => act : EStateM ε σ α) s = act (f s) := rfl

theorem stateAfter_of_ok {act : Edit σ α} {s s' : σ} {a : α} (h : act s = .ok a s') :
    act.stateAfter s = s' := by
  rw [stateAfter, h]

theorem stateAfter_of_error {act : Edit σ α} {s s' : σ} {e : TreeError} (h : act s = .error e s') :
    act.stateAfter s = s' := by
  rw [stateAfter, h]

/-- A replacement succeeds exactly if there is something to replace the state with. -/
theorem replace_eq_ok {change : σ → Except TreeError σ} {s s' : σ} {u : Unit} :
    replace change s = .ok u s' ↔ change s = .ok s' := by
  unfold replace
  constructor
  · intro h
    split at h
    · rename_i t ht
      cases h
      exact ht
    · cases h
  · intro h
    rw [h]

/-- A refused replacement changes nothing. -/
theorem replace_eq_error {change : σ → Except TreeError σ} {s s' : σ} {e : TreeError} :
    replace change s = .error e s' ↔ change s = .error e ∧ s' = s := by
  unfold replace
  cases hc : change s with
  | ok t => simp
  | error f => simp [eq_comm]

/-- A look that succeeds changes nothing. -/
theorem inspect_eq_ok {look : σ → Except TreeError α} {s s' : σ} {a : α} :
    inspect look s = .ok a s' ↔ look s = .ok a ∧ s' = s := by
  unfold inspect
  cases hl : look s with
  | ok b => simp [eq_comm]
  | error f => simp

/-- A look that fails changes nothing either. -/
theorem inspect_eq_error {look : σ → Except TreeError α} {s s' : σ} {e : TreeError} :
    inspect look s = .error e s' ↔ look s = .error e ∧ s' = s := by
  unfold inspect
  cases hl : look s with
  | ok b => simp
  | error f => simp [eq_comm]

/-- What comes after a look that succeeds starts where the look did. -/
theorem inspect_bind_of_ok {look : σ → Except TreeError α} {s : σ} {a : α} (h : look s = .ok a)
    (next : α → Edit σ β) : (inspect look >>= next) s = next a s := by
  show EStateM.bind (inspect look) next s = _
  simp only [EStateM.bind, inspect, h]

/-- Nothing comes after a look that fails. -/
theorem inspect_bind_of_error {look : σ → Except TreeError α} {s : σ} {e : TreeError}
    (h : look s = .error e) (next : α → Edit σ β) : (inspect look >>= next) s = .error e s := by
  show EStateM.bind (inspect look) next s = _
  simp only [EStateM.bind, inspect, h]

/-- Edit a part and put it back into the whole, also if the edit fails. -/
def through (put : τ → σ) (act : Edit τ α) (t : τ) : EStateM.Result TreeError σ α :=
  match act t with
  | .ok a t' => .ok a (put t')
  | .error e t' => .error e (put t')

/-- An edit in a part succeeds exactly if the edit of the part does, and the part is put back. -/
theorem through_eq_ok {put : τ → σ} {act : Edit τ α} {t : τ} {a : α} {s' : σ} :
    through put act t = .ok a s' ↔ ∃ t', act t = .ok a t' ∧ s' = put t' := by
  unfold through
  constructor
  · intro h
    split at h
    · rename_i b t' ht
      cases h
      exact ⟨t', ht, rfl⟩
    · cases h
  · rintro ⟨t', ht, rfl⟩
    rw [ht]

/-- If the edit of the part fails, the part is put back as it was left. -/
theorem through_eq_error {put : τ → σ} {act : Edit τ α} {t : τ} {e : TreeError} {s' : σ} :
    through put act t = .error e s' ↔ ∃ t', act t = .error e t' ∧ s' = put t' := by
  unfold through
  constructor
  · intro h
    split at h
    · cases h
    · rename_i f t' ht
      cases h
      exact ⟨t', ht, rfl⟩
  · rintro ⟨t', ht, rfl⟩
    rw [ht]

/-- A part of a part is a part. -/
theorem through_through {put : τ → σ} {act : Edit τ α} {put' : β → τ} {act' : Edit β α} {t : τ}
    {b : β} (h : act t = through put' act' b) :
    through put act t = through (fun b => put (put' b)) act' b := by
  unfold through at h ⊢
  rw [h]
  cases act' b <;> rfl

/-- What is left of the whole is what is left of the part, put back. -/
theorem stateAfter_of_through {act : Edit σ α} {act' : Edit τ α} {put : τ → σ} {s : σ} {t : τ}
    (h : act s = through put act' t) : act.stateAfter s = put (act'.stateAfter t) := by
  unfold stateAfter
  rw [h]
  unfold through
  cases act' t <;> rfl

/-- A part that is in view is edited and stored. -/
theorem zoom_of_view {view : σ → Except TreeError τ} {store : τ → σ → σ} {act : Edit τ α} {s : σ}
    {t : τ} (h : view s = .ok t) : zoom view store act s = through (store · s) act t := by
  simp only [zoom, h]
  rfl

theorem zoom_of_view_error {view : σ → Except TreeError τ} {store : τ → σ → σ} {act : Edit τ α}
    {s : σ} {e : TreeError} (h : view s = .error e) : zoom view store act s = .error e s := by
  simp only [zoom, h]

/-- Two edits succeed together if the second one does in the state that the first one leaves. -/
theorem bind_eq_ok {ε : Type} {act : EStateM ε σ α} {next : α → EStateM ε σ β} {s s' : σ} {b : β} :
    (act >>= next) s = .ok b s' ↔ ∃ a t, act s = .ok a t ∧ next a t = .ok b s' := by
  show EStateM.bind act next s = .ok b s' ↔ _
  unfold EStateM.bind
  constructor
  · intro h
    split at h
    · rename_i a t ha
      exact ⟨a, t, ha, h⟩
    · cases h
  · rintro ⟨a, t, ha, hn⟩
    simp only [ha, hn]

/-- Two edits fail if the first one does, or the second one in the state that the first one leaves.
-/
theorem bind_eq_error {act : Edit σ α} {next : α → Edit σ β} {s s' : σ} {e : TreeError} :
    (act >>= next) s = .error e s' ↔
      act s = .error e s' ∨ ∃ a t, act s = .ok a t ∧ next a t = .error e s' := by
  show EStateM.bind act next s = .error e s' ↔ _
  unfold EStateM.bind
  constructor
  · intro h
    split at h
    · rename_i a t ha
      exact Or.inr ⟨a, t, ha, h⟩
    · rename_i ha
      cases h
      exact Or.inl ha
  · rintro (he | ⟨a, t, ha, hn⟩)
    · simp only [he]
    · simp only [ha, hn]

/-! ## Parts that are reached

An operation may offer to edit a part, if it finds one. What it comes to must not depend on the
edit. -/

/-- Whatever the edit of a part would be, there is none to be edited. -/
def Refuses (within : {α : Type} → Edit τ α → Edit σ α) (s s' : σ) : Prop :=
  ∃ e, ∀ {α : Type} (act : Edit τ α), within act s = .error e s'

/-- Whatever the edit is, it is that of one part, which is then put back. -/
def Reaches (within : {α : Type} → Edit τ α → Edit σ α) (s : σ) (t : τ) (put : τ → σ) : Prop :=
  ∀ {α : Type} (act : Edit τ α), within act s = through put act t

section Reach

variable {υ : Type} {within : {α : Type} → Edit υ α → Edit σ α}
  {inner : {α : Type} → Edit υ α → Edit τ α} {put : τ → σ} {s : σ} {t : τ}

/-- If no edit of the part is possible, none is possible through the whole. -/
theorem Refuses.through {t' : τ} (h : Refuses inner t t')
    (hwithin : ∀ {α : Type} (act : Edit υ α), within act s = through put (inner act) t) :
    Refuses within s (put t') := by
  obtain ⟨e, he⟩ := h
  exact ⟨e, fun act => (hwithin act).trans (through_eq_error.2 ⟨t', he act, rfl⟩)⟩

/-- What is reached in a part is reached through the whole, and put back twice. -/
theorem Reaches.through {put' : υ → τ} {u : υ} (h : Reaches inner t u put')
    (hwithin : ∀ {α : Type} (act : Edit υ α), within act s = through put (inner act) t) :
    Reaches within s u fun u => put (put' u) :=
  fun act => (hwithin act).trans (through_through (h act))

end Reach

/-! ## Loops -/

/-- Edits made one after the other. -/
def each (act : ι → Edit σ Unit) : List ι → Edit σ Unit
  | [] => pure ()
  | i :: is => do act i; each act is

/-- A loop over a list makes its edits one after the other. -/
theorem forIn_eq_each (act : ι → Edit σ Unit) (is : List ι) :
    (forIn is PUnit.unit fun i _ => do act i; pure (ForInStep.yield PUnit.unit))
      = each act is := by
  induction is with
  | nil => rfl
  | cons i is ih =>
    rw [List.forIn_cons, each]
    simp only [bind_assoc, pure_bind]
    rw [ih]

end Edit

/-! ## Items changed one after the other -/

variable {α : Type}

/-- An item that is there may be set or changed. -/
theorem set_eq_modify {xs : List α} {i : Nat} {x : α} (h : xs[i]? = some x) (f : α → α) :
    xs.set i (f x) = xs.modify i f := by
  apply List.ext_getElem?
  intro j
  rw [List.getElem?_set, List.getElem?_modify]
  -- the place itself, and all others:
  by_cases hij : i = j
  · subst hij
    rw [if_pos rfl, h, if_pos (List.getElem?_eq_some_iff.1 h).1]
    simp
  · rw [if_neg hij]
    simp [hij]

/-- A change that leaves an item as it is leaves the list as it is. -/
theorem modify_of_getElem? {xs : List α} {i : Nat} {x : α} {f : α → α} (h : xs[i]? = some x)
    (hf : f x = x) : xs.modify i f = xs := by
  obtain ⟨hi, hx⟩ := List.getElem?_eq_some_iff.1 h
  rw [← set_eq_modify h, hf, ← hx, List.set_getElem_self]

/-- Changes of items leave the length alone. -/
theorem length_foldl_modify (f : α → α) (is : List Nat) (xs : List α) :
    (is.foldl (fun xs i => xs.modify i f) xs).length = xs.length := by
  induction is generalizing xs with
  | nil => rfl
  | cons i is ih => exact (ih _).trans (List.length_modify f xs i)

/-- Changing the items at several places changes each of them once, if no place comes twice or
a second change does nothing. -/
theorem getElem?_foldl_modify {f : α → α} {is : List Nat}
    (h : is.Nodup ∨ ∀ x, f (f x) = f x) (xs : List α) (j : Nat) :
    (is.foldl (fun xs i => xs.modify i f) xs)[j]? = if j ∈ is then xs[j]?.map f else xs[j]? := by
  induction is generalizing xs with
  | nil => simp
  | cons i is ih =>
    have htail : is.Nodup ∨ ∀ x, f (f x) = f x := h.imp_left fun h => (List.nodup_cons.1 h).2
    rw [List.foldl_cons, ih htail]
    -- the place that is changed first may come again, and then a second change does nothing:
    by_cases hij : i = j
    · subst hij
      rw [List.getElem?_modify_eq, if_pos (List.mem_cons_self : i ∈ i :: is), Option.map_eq_map]
      by_cases hi : i ∈ is
      · have hf : ∀ x, f (f x) = f x := h.resolve_left fun h => (List.nodup_cons.1 h).1 hi
        rw [if_pos hi, Option.map_map]
        exact congrArg (Option.map · xs[i]?) (funext hf)
      · rw [if_neg hi]
    · have hmem : j ∈ i :: is ↔ j ∈ is := by
        rw [List.mem_cons]
        exact ⟨fun hj => hj.resolve_left fun he => hij he.symm, Or.inr⟩
      rw [List.getElem?_modify_ne f xs hij]
      simp only [hmem]

/-- What holds of all items and is kept by a change holds of all items after changes. -/
theorem forall_mem_foldl_modify {P : α → Prop} {f : α → α} (hf : ∀ x, P x → P (f x))
    (is : List Nat) {xs : List α} (h : ∀ x ∈ xs, P x) :
    ∀ x ∈ is.foldl (fun xs i => xs.modify i f) xs, P x := by
  induction is generalizing xs with
  | nil => exact h
  | cons i is ih =>
    refine ih fun x hx => ?_
    obtain ⟨j, hj⟩ := List.mem_iff_getElem?.1 hx
    rw [List.getElem?_modify] at hj
    obtain ⟨y, hy, hyx⟩ := Option.map_eq_some_iff.1 hj
    have hP := h y (List.mem_of_getElem? hy)
    rw [← hyx]
    split
    · exact hf y hP
    · exact hP

end SpecTree
