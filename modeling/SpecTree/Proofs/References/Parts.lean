import SpecTree.Proofs.OneOf.Settling
import SpecTree.Proofs.Scan.WellFormed
import SpecTree.Tree.Build

/-!
# Where building fails

A well-formed definition describes a spec. Its defaults are of their types, its alternatives are
enough and not empty, and its conditions are of type bool, so that only its sub-specs can fail to be
built. Main statements: `Definition.exists_of_build_eq_error`, where the error of a definition comes
from; `Definition.exists_build`, a definition is built as soon as its sub-specs are.
-/

namespace SpecTree

variable {ν : Type} {make : String → Except TreeError ν} {e : TreeError}

namespace Parameter

theorem put_ne_nil (p : Parameter ν) (ps : List (Parameter ν)) : put p ps ≠ [] := by
  cases ps with
  | nil => exact List.cons_ne_nil _ _
  | cons q ps =>
    unfold put
    split <;> exact List.cons_ne_nil _ _

theorem putAll_ne_nil {ps : List (Parameter ν)} (h : ps ≠ []) : putAll ps ≠ [] := by
  cases ps with
  | nil => contradiction
  | cons p ps =>
    have hstart : put p [] ≠ [] := put_ne_nil p []
    exact List.foldlRecOn (motive := fun kept => kept ≠ []) ps _ hstart fun kept _ q _ =>
      put_ne_nil q kept

/-- A value of the declared type is taken as a default. -/
theorem exists_withDefault {p : Parameter ν} {v : Value} (h : p.type = .primitive v.type) :
    ∃ q, p.withDefault v = .ok q := by
  have hcoerce : v.coerce v.type = .ok v := by
    unfold Value.coerce
    rw [if_pos rfl]
  have hcheck : p.check v = .ok v := by
    unfold check
    simp only [h, hcoerce]
  refine ⟨{ p with default := some v, isOptional := true }, ?_⟩
  unfold withDefault
  rw [hcheck]
  rfl

end Parameter

namespace Declaration

theorem type_of_build {d : Declaration} {p : Parameter ν} (h : d.build make = .ok p) :
    p.type = d.type := by
  unfold build at h
  split at h
  · next t ht =>
    split at h
    · obtain ⟨q, hq, hpure⟩ := bind_eq_ok.1 h
      cases hpure
      obtain ⟨w, -, hpure⟩ := bind_eq_ok.1 hq
      cases hpure
      exact ht.symm
    · cases h
      exact ht.symm
  · next s hs =>
    obtain ⟨q, hq, hpure⟩ := bind_eq_ok.1 h
    cases hpure
    obtain ⟨m, -, rfl⟩ := map_eq_ok.1 hq
    exact hs.symm

/-- A slot is not built only if the sub-spec in it is not. -/
theorem exists_of_build_eq_error {d : Declaration} (h : d.WellTyped)
    (herror : d.build make = .error e) : ∃ s, d.type = .spec s ∧ make s = .error e := by
  unfold build at herror
  split at herror
  · next t ht =>
    split at herror
    · next v hv =>
      have htype := h v hv
      rw [ht] at htype
      obtain ⟨q, hq⟩ := Parameter.exists_withDefault (p := Parameter.primitive (ν := ν) d.name t) htype
      rw [hq] at herror
      cases herror
    · cases herror
  · next s hs =>
    rcases bind_eq_error.1 herror with hmake | ⟨q, -, hpure⟩
    · exact ⟨s, hs, map_eq_error.1 hmake⟩
    · cases hpure

theorem exists_of_buildAll_eq_error {ds : List Declaration} (h : ∀ d ∈ ds, d.WellTyped)
    (herror : buildAll make ds = .error e) : ∃ d ∈ ds, ∃ s, d.type = .spec s ∧ make s = .error e := by
  rcases bind_eq_error.1 herror with hds | ⟨ps, -, hpure⟩
  · obtain ⟨d, hd, hbuild⟩ := exists_of_mapM_eq_error hds
    exact ⟨d, hd, exists_of_build_eq_error (h d hd) hbuild⟩
  · cases hpure

/-- What is built of declarations is empty only if there are none. -/
theorem isEmpty_of_buildAll {ds : List Declaration} {c : Collection ν} (hne : ds ≠ [])
    (h : buildAll make ds = .ok c) : c.isEmpty = false := by
  obtain ⟨ps, hps, hpure⟩ := bind_eq_ok.1 h
  cases hpure
  have hlength := length_of_mapM hps
  have hps' : ps ≠ [] := by
    rintro rfl
    exact hne (List.eq_nil_of_length_eq_zero hlength.symm)
  simpa [Collection.isEmpty, Collection.ofList] using Parameter.putAll_ne_nil hps'

end Declaration

/-- Branches that are not empty make alternatives. -/
theorem OneOf.exists_ofBranches {branches : List (List Declaration)} {built : List (Collection ν)}
    (hfew : 2 ≤ branches.length) (hempty : [] ∉ branches)
    (hbuilt : branches.mapM (Declaration.buildAll make) = .ok built) :
    ∃ o, OneOf.ofBranches built = .ok o := by
  refine ⟨_, ofBranches_eq_ok.2 ⟨?_, rfl⟩⟩
  rw [not_or, length_of_mapM hbuilt, Nat.not_lt, List.any_eq_true]
  refine ⟨hfew, ?_⟩
  rintro ⟨c, hc, hnone⟩
  obtain ⟨b, hb, hcb⟩ := exists_of_mem_mapM hbuilt hc
  have hne : b ≠ [] := fun hnil => hempty (hnil ▸ hb)
  rw [Declaration.isEmpty_of_buildAll hne hcb] at hnone
  cases hnone

/-- A condition of type bool and two groups make a conditional. -/
theorem Conditional.ifThenElse_eq {case : Parameter ν} (whenTrue whenFalse : Collection ν)
    (h : case.type = .primitive (.scalar .bool)) :
    Conditional.ifThenElse case whenTrue whenFalse
      = .ok ⟨case, [(.bool true, { whenTrue with emptyIsComplete := true }),
          (.bool false, { whenFalse with emptyIsComplete := true })]⟩ := by
  have hcheck : ∀ b, case.check (.bool b) = .ok (.bool b) := by
    intro b
    unfold Parameter.check
    simp only [h]
    rfl
  simp only [ifThenElse, ofBranches, if_pos (Or.inl h), List.mapM_cons, hcheck, List.mapM_nil]
  rfl

/-- A well-formed part is not built only if a sub-spec in it is not. -/
theorem Part.exists_of_build_eq_error {part : Part} (h : part.WellFormed)
    (herror : part.build make = .error e) :
    ∃ d ∈ part.declarations, ∃ s, d.type = .spec s ∧ make s = .error e := by
  cases part with
  | parameters ds =>
    rcases bind_eq_error.1 herror with hds | ⟨c, -, hpure⟩
    · exact Declaration.exists_of_buildAll_eq_error h.wellTyped hds
    · cases hpure
  | oneOf branches =>
    rcases bind_eq_error.1 herror with hbranches | ⟨built, hbuilt, herror⟩
    · obtain ⟨b, hb, hfails⟩ := exists_of_mapM_eq_error hbranches
      have hmem : ∀ d ∈ b, d ∈ (Part.oneOf branches).declarations :=
        fun d hd => List.mem_flatten.2 ⟨b, hb, hd⟩
      obtain ⟨d, hd, hmake⟩ := Declaration.exists_of_buildAll_eq_error
        (fun d hd => h.wellTyped d (hmem d hd)) hfails
      exact ⟨d, hmem d hd, hmake⟩
    · -- branches that could be built make alternatives, if the part is well formed:
      have hshaped : 2 ≤ branches.length ∧ [] ∉ branches := h.shaped
      obtain ⟨o, ho⟩ := OneOf.exists_ofBranches hshaped.1 hshaped.2 hbuilt
      rw [ho] at herror
      cases herror
  | conditional condition whenTrue whenFalse =>
    obtain ⟨wcondition, wgroups⟩ := List.forall_mem_cons.1 h.wellTyped
    obtain ⟨wtrue, wfalse⟩ := List.forall_mem_append.1 wgroups
    rcases bind_eq_error.1 herror with hcondition | ⟨case, hcase, herror⟩
    · exact ⟨condition, List.mem_cons_self,
        Declaration.exists_of_build_eq_error wcondition hcondition⟩
    rcases bind_eq_error.1 herror with htrue | ⟨yes, -, herror⟩
    · obtain ⟨d, hd, hmake⟩ := Declaration.exists_of_buildAll_eq_error wtrue htrue
      exact ⟨d, List.mem_cons_of_mem _ (List.mem_append_left _ hd), hmake⟩
    rcases bind_eq_error.1 herror with hfalse | ⟨no, -, herror⟩
    · obtain ⟨d, hd, hmake⟩ := Declaration.exists_of_buildAll_eq_error wfalse hfalse
      exact ⟨d, List.mem_cons_of_mem _ (List.mem_append_right _ hd), hmake⟩
    · rw [Conditional.ifThenElse_eq yes no ((Declaration.type_of_build hcase).trans h.shaped)] at herror
      cases herror

/-- **A well-formed definition is not built only if a sub-spec in it is not.** -/
theorem Definition.exists_of_build_eq_error {d : Definition} (h : d.WellFormed)
    (herror : d.build make = .error e) :
    ∃ p ∈ d.declarations, ∃ s, p.type = .spec s ∧ make s = .error e := by
  rcases bind_eq_error.1 herror with hparts | ⟨components, -, hpure⟩
  · obtain ⟨part, hpart, hbuild⟩ := exists_of_mapM_eq_error hparts
    obtain ⟨p, hp, hmake⟩ := Part.exists_of_build_eq_error (h part hpart) hbuild
    exact ⟨p, List.mem_flatMap.2 ⟨part, hpart, hp⟩, hmake⟩
  · cases hpure

/-- A well-formed definition is built as soon as its sub-specs are. -/
theorem Definition.exists_build {d : Definition} (h : d.WellFormed)
    (hmake : ∀ part ∈ d.parts, ∀ p ∈ part.declarations, ∀ s, p.type = .spec s →
      ∃ m, make s = .ok m) : ∃ s, d.build make = .ok s := by
  cases hbuild : d.build make with
  | ok s => exact ⟨s, rfl⟩
  | error e =>
    obtain ⟨p, hp, s, hs, hfails⟩ := Definition.exists_of_build_eq_error h hbuild
    obtain ⟨part, hpart, hp⟩ := List.mem_flatMap.1 hp
    obtain ⟨m, hm⟩ := hmake part hpart p hp s hs
    rw [hm] at hfails
    cases hfails

end SpecTree
