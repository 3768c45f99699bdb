import SpecTree.Proofs.Atomicity

/-!
# Why writes are refused

A write to a spec may be refused, but it builds nothing, and so it never fails because something
could not be built. Trees are built when an entry is appended and when a variant is chosen. Main
statements: `Spec.set_notBuildFailure`, `Node.set_notBuildFailure`, `Node.appendEmpty_eq_error`.
-/

namespace SpecTree

/-- Could something not be built? -/
def TreeError.isBuildFailure : TreeError → Bool
  | unknownSpec _ | cycle _ | malformedOneOf => true
  | _ => false

/-- A computation that does not fail because something could not be built. -/
def NotBuildFailure {α : Type} (x : Except TreeError α) : Prop :=
  ∀ e, x = .error e → e.isBuildFailure = false

namespace NotBuildFailure

variable {α β : Type}

theorem ok (a : α) : NotBuildFailure (.ok a) := nofun

theorem error {e : TreeError} (h : e.isBuildFailure = false) :
    NotBuildFailure (.error e : Except TreeError α) := by
  intro e' he
  cases he
  exact h

/-- Steps that never fail in building do so one after the other. -/
theorem bind {x : Except TreeError α} {f : α → Except TreeError β} (hx : NotBuildFailure x)
    (hf : ∀ a, NotBuildFailure (f a)) : NotBuildFailure (x >>= f) := by
  cases x with
  | error e => exact error (hx e rfl)
  | ok a => exact hf a

theorem map {x : Except TreeError α} (hx : NotBuildFailure x) (f : α → β) :
    NotBuildFailure (x.map f) :=
  fun e he => hx e (map_eq_error.1 he)

/-- A list of checks never fails in building, if none of them does. -/
theorem forM {ι : Type} {check : ι → Except TreeError Unit} (h : ∀ i, NotBuildFailure (check i))
    (is : List ι) : NotBuildFailure (is.forM check) := by
  intro e he
  obtain ⟨i, -, hi⟩ := exists_of_forM_eq_error he
  exact h i e hi

end NotBuildFailure

/-! ## Specs -/

variable {ν : Type}

/-- A value is refused because of its type only. -/
theorem Parameter.check_notBuildFailure (p : Parameter ν) (value : Value) :
    NotBuildFailure (p.check value) := by
  unfold check
  split
  · split
    · exact .ok _
    · exact .error rfl
  · exact .error rfl

theorem Parameter.set_notBuildFailure (p : Parameter ν) (value : Value) :
    NotBuildFailure (p.set value) :=
  (p.check_notBuildFailure value).bind fun _ => .ok _

theorem Collection.checkSet_notBuildFailure (c : Collection ν) (key : String) (value : Value) :
    NotBuildFailure (c.checkSet key value) := by
  unfold checkSet
  split
  · exact (Parameter.check_notBuildFailure _ value).map _
  · split
    · exact .error rfl
    · exact .ok _

/-- A plan of a conditional fails only because of the case or of a value. -/
theorem Conditional.plan_notBuildFailure (s : Conditional ν) (key : String)
    (value : Option Value) : NotBuildFailure (s.plan key value) := by
  have hcase : (s.caseError key).isBuildFailure = false := by
    unfold caseError
    split <;> rfl
  unfold plan
  split
  · split
    · exact .ok _
    · refine (Parameter.check_notBuildFailure _ _).bind fun v => ?_
      split
      · exact .ok _
      · exact .error rfl
  · split
    · split
      · split
        · exact .ok _
        · exact (Collection.checkSet_notBuildFailure _ _ _).map _
      · exact .error hcase
    · exact .error hcase

variable [Judged ν]

/-- A plan of alternatives fails only because of the branches or of a value. -/
theorem OneOf.plan_notBuildFailure (o : OneOf ν) (key : String) (value : Option Value) :
    NotBuildFailure (o.plan key value) := by
  cases value with
  | none =>
    rw [plan_none]
    split
    · exact .error rfl
    · exact .ok _
  | some v =>
    rw [plan_some]
    split
    · exact .error rfl
    · refine (NotBuildFailure.forM (fun i => ?_) _).map _
      unfold checkBranch
      split
      · exact (Parameter.check_notBuildFailure _ v).map _
      · exact .ok _

/-- A component refuses a value without building anything. -/
theorem Component.checkSet_notBuildFailure (c : Component ν) (key : String) (value : Value) :
    NotBuildFailure (c.checkSet key value) := by
  cases c with
  | collection c => exact c.checkSet_notBuildFailure key value
  | oneOf o => exact (o.plan_notBuildFailure key (some value)).map _
  | conditional s => exact (s.plan_notBuildFailure key (some value)).map _

/-- Writing to a spec builds nothing. -/
theorem Spec.set_notBuildFailure {s s' : Spec ν} {key : String} {value : Value} {e : TreeError}
    (h : Spec.set key value s = .error e s') : e.isBuildFailure = false := by
  cases hkey : s.contains key with
  | false =>
    rw [set_of_not_contains hkey] at h
    obtain ⟨hadd, -⟩ := Edit.replace_eq_error.1 h
    split at hadd
    · cases hadd
      rfl
    · exact (Parameter.set_notBuildFailure _ value).map _ e hadd
  | true =>
    rw [set_of_contains hkey] at h
    rcases Edit.bind_eq_error.1 h with hcheck | ⟨u, t, hcheck, hset⟩
    · refine NotBuildFailure.forM (fun i => ?_) _ e (Edit.inspect_eq_error.1 hcheck).1
      split
      · exact Component.checkSet_notBuildFailure _ key value
      · exact .ok _
    · -- once all components have accepted the value, nothing fails any more:
      obtain ⟨haccepted, rfl⟩ := Edit.inspect_eq_ok.1 hcheck
      rw [each_set_of_checkTargets haccepted] at hset
      cases hset

/-! ## Lists -/

namespace EntryList

variable {l l' : EntryList ν} {make : String → Except TreeError ν} {name : String} {e : TreeError}

omit [Judged ν] in
/-- An entry is refused if there is one of its name, or if it cannot be built. -/
theorem append_eq_error (h : append make name l = .error e l') :
    e = .duplicateEntry name ∨ ∃ s, l.element = .spec s ∧ make s = .error e := by
  obtain ⟨hchange, -⟩ := Edit.replace_eq_error.1 h
  split at hchange
  · cases hchange
    exact .inl rfl
  · have hentry := map_eq_error.1 hchange
    unfold newEntry at hentry
    split at hentry
    · cases hentry
    · next s helement => exact .inr ⟨s, helement, map_eq_error.1 hentry⟩

omit [Judged ν] in
/-- A write to a list fails only because of its entry. -/
theorem set_notBuildFailure (l : EntryList ν) (name : String) (value : Value) :
    NotBuildFailure (l.set name value) := by
  unfold set
  split
  · exact (Parameter.set_notBuildFailure _ value).map _
  · exact .error rfl

end EntryList

/-! ## Nodes -/

namespace Node

variable {catalog : Catalog} {n n' : Node} {name : String} {e : TreeError}

/-- An entry is refused if the node is no list, if there is one of its name, or if it cannot be
built. -/
theorem appendEmpty_eq_error (h : appendEmpty catalog name n = .error e n') :
    e = .notAList n.typeName ∨ e = .duplicateEntry name ∨
      ∃ l s, n = .list l ∧ l.element = .spec s ∧ catalog.build s = .error e := by
  cases n with
  | spec s =>
    cases h
    exact .inl rfl
  | choice c =>
    cases h
    exact .inl rfl
  | list l =>
    rw [appendEmpty_list] at h
    obtain ⟨l', hpart, -⟩ := Edit.through_eq_error.1 h
    rcases EntryList.append_eq_error hpart with he | ⟨s, helement, hmake⟩
    · exact .inr (.inl he)
    · exact .inr (.inr ⟨l, s, rfl, helement, hmake⟩)

/-- Setting a key builds nothing, unless it chooses a variant. -/
theorem set_notBuildFailure {key : String} {value : Value}
    (hvariant : ∀ c, n = .choice c → NotBuildFailure (Choice.variantFor catalog value.toText c))
    (h : Node.set catalog key value n = .error e n') : e.isBuildFailure = false := by
  cases n with
  | spec s =>
    rw [set_spec] at h
    obtain ⟨s', hpart, -⟩ := Edit.through_eq_error.1 h
    exact Spec.set_notBuildFailure hpart
  | list l =>
    rw [set_list] at h
    obtain ⟨l', hpart, -⟩ := Edit.through_eq_error.1 h
    exact l.set_notBuildFailure key value e (Edit.replace_eq_error.1 hpart).1
  | choice c =>
    rw [set_choice] at h
    obtain ⟨c', hpart, -⟩ := Edit.through_eq_error.1 h
    -- a type may fail with the lookup of its variant, anything else in the body only:
    by_cases hkey : key = c.selector
    · rw [hkey, Choice.set_selector] at hpart
      rcases Choice.setType_eq_error hpart with ⟨hnone, -⟩ | ⟨body, hwrite, -⟩
      · exact hvariant c rfl e hnone
      · exact Spec.set_notBuildFailure (Choice.set_of_writeType_eq_error hwrite)
    · rw [Choice.set_of_ne_selector hkey] at hpart
      obtain ⟨body, hset, -⟩ := Edit.through_eq_error.1 hpart
      exact Spec.set_notBuildFailure hset

end Node

end SpecTree
