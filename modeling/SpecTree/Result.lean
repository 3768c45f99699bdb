/-!
# Results

A computation that may fail succeeds if and only if all its steps do.
-/

namespace SpecTree

theorem bind_eq_ok {ε α β : Type} {x : Except ε α} {f : α → Except ε β} {b : β} :
    (x >>= f) = .ok b ↔ ∃ a, x = .ok a ∧ f a = .ok b := by
  cases x <;> simp [bind, Except.bind]

theorem bind_eq_error {ε α β : Type} {x : Except ε α} {f : α → Except ε β} {e : ε} :
    (x >>= f) = .error e ↔ x = .error e ∨ ∃ a, x = .ok a ∧ f a = .error e := by
  cases x <;> simp [bind, Except.bind]

/-- A step that succeeds hands on what it gives. -/
theorem ok_bind {ε α β : Type} (a : α) (f : α → Except ε β) : (Except.ok a >>= f) = f a := rfl

theorem pure_eq_ok {ε α : Type} {a b : α} : (pure a : Except ε α) = .ok b ↔ a = b := by
  simp [pure, Except.pure]

theorem map_eq_ok {ε α β : Type} {x : Except ε α} {f : α → β} {b : β} :
    x.map f = .ok b ↔ ∃ a, x = .ok a ∧ f a = b := by
  cases x <;> simp [Except.map]

theorem map_eq_error {ε α β : Type} {x : Except ε α} {f : α → β} {e : ε} :
    x.map f = .error e ↔ x = .error e := by
  cases x <;> simp [Except.map]

/-- A computation whose error is put in other words succeeds as it did. -/
theorem mapError_eq_ok {ε ε' α : Type} {x : Except ε α} {f : ε → ε'} {a : α} :
    x.mapError f = .ok a ↔ x = .ok a := by
  cases x with
  | ok b => constructor <;> (intro h; cases h; rfl)
  | error fault => constructor <;> (intro h; cases h)

/-- A computation whose error is put in other words fails as it did. -/
theorem mapError_eq_error {ε ε' α : Type} {x : Except ε α} {f : ε → ε'} {e : ε'} :
    x.mapError f = .error e ↔ ∃ fault, x = .error fault ∧ f fault = e := by
  cases x with
  | ok b =>
    constructor
    · intro h
      cases h
    · rintro ⟨fault, h, -⟩
      cases h
  | error fault =>
    constructor
    · intro h
      cases h
      exact ⟨fault, rfl, rfl⟩
    · rintro ⟨fault', h, rfl⟩
      cases h
      rfl

theorem toOption_eq_some {ε α : Type} {x : Except ε α} {a : α} :
    x.toOption = some a ↔ x = .ok a := by
  cases x <;> simp [Except.toOption]

/-- A sequence of checks succeeds if and only if each of them does. -/
theorem forM_eq_ok {ε ι : Type} {check : ι → Except ε Unit} {is : List ι} :
    is.forM check = .ok () ↔ ∀ i ∈ is, check i = .ok () := by
  induction is with
  | nil => simp [List.forM, pure, Except.pure]
  | cons i is ih =>
    rw [List.forM, bind_eq_ok, List.forall_mem_cons]
    constructor
    · rintro ⟨_, hi, his⟩
      exact ⟨hi, ih.1 his⟩
    · rintro ⟨hi, his⟩
      exact ⟨(), hi, ih.2 his⟩

theorem forM_congr {ε ι : Type} {check check' : ι → Except ε Unit} {is : List ι}
    (h : ∀ i ∈ is, check i = check' i) : is.forM check = is.forM check' := by
  induction is with
  | nil => rfl
  | cons i is ih =>
    rw [List.forM, List.forM, h i List.mem_cons_self,
      ih fun j hj => h j (List.mem_cons_of_mem _ hj)]

/-- A sequence of checks fails only if one of them does. -/
theorem exists_of_forM_eq_error {ε ι : Type} {check : ι → Except ε Unit} {is : List ι} {e : ε}
    (h : is.forM check = .error e) : ∃ i ∈ is, check i = .error e := by
  induction is with
  | nil => cases h
  | cons i is ih =>
    rw [List.forM] at h
    cases hi : check i with
    | error e' =>
      rw [hi] at h
      cases h
      exact ⟨i, List.mem_cons_self, hi⟩
    | ok u =>
      rw [hi] at h
      obtain ⟨j, hj, hcheck⟩ := ih h
      exact ⟨j, List.mem_cons_of_mem _ hj, hcheck⟩

/-- A loop whose steps give nothing to the next is a sequence of checks. -/
theorem forIn_eq_forM {ε ι : Type} {f : ι → PUnit → Except ε (ForInStep PUnit)}
    {g : ι → Except ε Unit} {is : List ι}
    (h : ∀ i ∈ is, f i PUnit.unit = (g i).map fun _ => .yield PUnit.unit) :
    forIn is PUnit.unit f = is.forM g := by
  induction is with
  | nil => rfl
  | cons i is ih =>
    rw [List.forIn_cons, List.forM, h i List.mem_cons_self,
      ← ih fun j hj => h j (List.mem_cons_of_mem _ hj)]
    cases g i <;> rfl

/-- What every step of a run keeps holds at its end. -/
theorem foldlM_eq_ok_induction {ε α β : Type} {f : β → α → Except ε β} {P : β → Prop}
    (hstep : ∀ b a c, P b → f b a = .ok c → P c) {xs : List α} {first last : β} (hfirst : P first)
    (h : xs.foldlM f first = .ok last) : P last := by
  induction xs generalizing first with
  | nil =>
    cases h
    exact hfirst
  | cons x xs ih =>
    rw [List.foldlM_cons] at h
    obtain ⟨next, hnext, h⟩ := bind_eq_ok.1 h
    exact ih (hstep _ _ _ hfirst hnext) h

/-- Computations that are run one after the other fail only if one of them does. -/
theorem exists_of_mapM_eq_error {ε α β : Type} {f : α → Except ε β} {xs : List α} {e : ε}
    (h : xs.mapM f = .error e) : ∃ x ∈ xs, f x = .error e := by
  induction xs with
  | nil => cases h
  | cons x xs ih =>
    rw [List.mapM_cons] at h
    rcases bind_eq_error.1 h with hx | ⟨y, -, h⟩
    · exact ⟨x, List.mem_cons_self, hx⟩
    · rcases bind_eq_error.1 h with hxs | ⟨ys, -, hpure⟩
      · obtain ⟨x', hx', hf⟩ := ih hxs
        exact ⟨x', List.mem_cons_of_mem _ hx', hf⟩
      · cases hpure

theorem length_of_mapM {ε α β : Type} {f : α → Except ε β} {xs : List α} {ys : List β}
    (h : xs.mapM f = .ok ys) : ys.length = xs.length := by
  induction xs generalizing ys with
  | nil =>
    cases h
    rfl
  | cons x xs ih =>
    rw [List.mapM_cons, bind_eq_ok] at h
    obtain ⟨y, -, h⟩ := h
    obtain ⟨zs, hzs, hys⟩ := bind_eq_ok.1 h
    cases hys
    exact congrArg (· + 1) (ih hzs)

/-- What a list of computations gives is given by one of them. -/
theorem exists_of_mem_mapM {ε α β : Type} {f : α → Except ε β} {xs : List α} {ys : List β}
    (h : xs.mapM f = .ok ys) {y : β} (hy : y ∈ ys) : ∃ x ∈ xs, f x = .ok y := by
  induction xs generalizing ys with
  | nil =>
    cases h
    cases hy
  | cons x xs ih =>
    rw [List.mapM_cons, bind_eq_ok] at h
    obtain ⟨z, hz, h⟩ := h
    obtain ⟨zs, hzs, hys⟩ := bind_eq_ok.1 h
    cases hys
    rcases List.mem_cons.1 hy with rfl | hy
    · exact ⟨x, List.mem_cons_self, hz⟩
    · obtain ⟨x', hx', hf⟩ := ih hzs hy
      exact ⟨x', List.mem_cons_of_mem _ hx', hf⟩

end SpecTree
