import SpecTree.Proofs.Loading
import SpecTree.Proofs.References.Building

/-!
# Names that no tree is built of

Building comes to an end with every name, be there circles of references or dangling ones, and it
fails for one of two reasons: the definition of the name leads to one that holds itself, or to a
name that cannot be resolved. Main statements: `Catalog.fails_of_buildBelow`, the reason of a
failure below a path of definitions; `Index.build_of_wasRead`, what building comes to.
-/

namespace SpecTree

namespace Catalog

/-- Does the definition that is looked up for a name have a parameter of the spec of the other? -/
def Requests (catalog : Catalog) (a b : String) : Prop :=
  (SpecForm.ofName a).isLookedUp = true ∧
    ∃ d, catalog.index.find? a = some d ∧ ∃ p ∈ d.declarations, p.type = .spec b

/-- Why no tree is built of a name. -/
inductive Fails (catalog : Catalog) (name : String) : TreeError → Prop
  /-- Definitions hold one another in a circle. -/
  | cycle {names : List String} (walk : ClosedWalk catalog.index.Holds names) :
    Fails catalog name (.cycle names)
  /-- A name that is asked for on the way, or that of the elements of such a list, cannot be
  resolved. -/
  | unknownSpec {asked missing : String}
    (reached : Relation.ReflTransGen catalog.Requests name asked)
    (named : missing = asked ∨ SpecForm.ofName asked = .list missing)
    (unresolvable : catalog.resolvable missing = false) :
    Fails catalog name (.unknownSpec missing)

variable {catalog : Catalog} {name s : String} {e : TreeError}

theorem Requests.holds {a b : String} (h : catalog.Requests a b)
    (hb : catalog.index.isEager b = true) : catalog.index.Holds a b :=
  h.2.imp fun _ hd => ⟨hd.1, hd.2, hb⟩

/-- What keeps a part from being built keeps the whole from it. -/
theorem Fails.of_requests (hstep : catalog.Requests name s) (h : catalog.Fails s e) :
    catalog.Fails name e := by
  cases h with
  | cycle walk => exact .cycle walk
  | unknownSpec reached named unresolvable =>
    exact .unknownSpec (.head hstep reached) named unresolvable

/-- A list is not built only if its elements cannot be resolved. -/
theorem fails_of_list {element : String} (hform : SpecForm.ofName name = .list element)
    {path : List String} (h : catalog.buildBelow path name = .error e) : catalog.Fails name e := by
  rw [buildBelow] at h
  simp only [hform] at h
  split at h
  · cases h
  · split at h
    · cases h
    · next hunresolvable =>
      cases h
      exact .unknownSpec .refl (.inr hform) (Bool.eq_false_iff.2 hunresolvable)

/-- Without a definition, a name is not built only if it is that of a spec. -/
theorem fails_of_find?_eq_none (hname : (SpecForm.ofName name).isLookedUp = true)
    (hnone : catalog.index.find? name = none) {path : List String}
    (h : catalog.buildBelow path name = .error e) : catalog.Fails name e := by
  rw [buildBelow] at h
  cases hform : SpecForm.ofName name with
  | generic | list element =>
    rw [hform] at hname
    cases hname
  | typed field placement =>
    simp only [hform] at h
    split at h
    · next d hd => simp [hnone] at hd
    · cases h
  | plain =>
    simp only [hform] at h
    split at h
    · next d hd => simp [hnone] at hd
    · cases h
      refine .unknownSpec .refl (.inl rfl) ?_
      rw [resolvable, Naming.resolvable_eq, hform]
      simp [contains, Index.contains, hnone]

/-- A definition on the path to itself closes a circle. -/
theorem buildBelow_eq_cycle {d : Definition} (hname : (SpecForm.ofName name).isLookedUp = true)
    (hd : catalog.index.find? name = some d) {path : List String} (hpath : name ∈ path) :
    catalog.buildBelow path name = .error (.cycle (path.dropWhile (· ≠ name) ++ [name])) := by
  rw [buildBelow]
  cases hform : SpecForm.ofName name with
  | generic | list element =>
    rw [hform] at hname
    cases hname
  | plain | typed field placement =>
    simp only
    split
    · rw [dif_pos hpath]
    · next hnone => simp [hd] at hnone

/-- **Why no tree is built below a path of definitions that hold one another.** -/
theorem fails_of_buildBelow
    (hwf : ∀ name d, catalog.index.find? name = some d → d.WellFormed) {path : List String}
    (hpath : path.IsChain catalog.index.Holds)
    (hlast : ∀ a ∈ path.getLast?, catalog.Requests a name)
    (h : catalog.buildBelow path name = .error e) : catalog.Fails name e := by
  induction hn : remaining catalog.index.names path using Nat.strongRecOn
    generalizing path name with
  | _ n ih =>
  cases hname : (SpecForm.ofName name).isLookedUp with
  | false =>
    cases hform : SpecForm.ofName name with
    | generic =>
      rw [buildBelow] at h
      simp only [hform] at h
      cases h
    | list element => exact fails_of_list hform h
    | plain | typed field placement =>
      rw [hform] at hname
      cases hname
  | true =>
    cases hd : catalog.index.find? name with
    | none => exact fails_of_find?_eq_none hname hd h
    | some d =>
      have heager : catalog.index.isEager name = true := by
        rw [Index.isEager_eq, hname, Index.contains, hd]
        rfl
      -- the path to the name itself is one of definitions that hold one another
      have hlonger : (path ++ [name]).IsChain catalog.index.Holds := by
        refine List.isChain_append.2 ⟨hpath, List.isChain_singleton name, ?_⟩
        intro a ha b hb
        obtain rfl : name = b := by simpa using hb
        exact (hlast a ha).holds heager
      by_cases hmem : name ∈ path
      · rw [buildBelow_eq_cycle hname hd hmem] at h
        cases h
        exact .cycle (.of_mem hlonger hmem)
      · rw [buildBelow_eq_ofSpec hname hd hmem] at h
        obtain ⟨p, hp, s, hs, hbelow⟩ :=
          Definition.exists_of_build_eq_error (hwf name d hd) (map_eq_error.1 h)
        have hrequests : catalog.Requests name s := ⟨hname, d, hd, p, hp, hs⟩
        have hshort := remaining_append_lt (Index.name_of_find? hd).2 hmem
        refine .of_requests hrequests (ih _ (hn ▸ hshort) hlonger ?_ hbelow rfl)
        rw [List.getLast?_concat]
        rintro a ⟨⟩
        exact hrequests

end Catalog

namespace Index

/-- **Building comes to an end and fails only for a reason.** No path of definitions that are built
within one another goes on for ever, and where there is no tree of a name there is a circle below it
or a name that cannot be resolved. -/
theorem build_of_wasRead {index : Index} (hread : ∀ d ∈ index.definitions, d.WasRead) :
    (WellFounded fun next path => index.catalog.index.Extends path next) ∧
      ∀ name, (∃ n, index.catalog.build name = .ok n) ∨
        ∃ e, index.catalog.build name = .error e ∧ index.catalog.Fails name e := by
  refine ⟨wellFounded_extends _, fun name => ?_⟩
  cases hbuild : index.catalog.build name with
  | ok n => exact .inl ⟨n, rfl⟩
  | error e =>
    have hwf : ∀ name d, index.catalog.index.find? name = some d → d.WellFormed :=
      fun name d hd => wellFormed_expanded (fun d hd => (hread d hd).wellFormed) hd
    exact .inr ⟨e, rfl, Catalog.fails_of_buildBelow hwf .nil (by simp) hbuild⟩

/-- Failures are compared where results cannot be. -/
theorem eq_error_of_test {ε α : Type} [DecidableEq ε] {x : Except ε α} {e : ε}
    (h : (match x with
      | .ok _ => false
      | .error e' => decide (e' = e)) = true) : x = .error e := by
  cases x with
  | ok a => cases h
  | error e' => exact congrArg _ (of_decide_eq_true h)

/-- Specs that hold one another by way of an include, and a list of lists of what is not there. -/
def exampleFailing : Index :=
  (Registry.ofLines ["``[a-spec]``", "* `\"b`\" ``[b-spec]``", "", "``[b-spec]``", "* ``[base-spec]``",
    "", "``[base-spec]``", "* `\"a`\" ``[a-spec]``", "", "``[outer-spec]``",
    "* `\"tables`\" ``[tables-spec]``", "* `\"a`\" ``[a-spec]``", "", "``[tables-spec]``",
    "* `\"rows`\" ``[row-spec-list-list]``"]).index

theorem build_of_wasRead_exampleFailing :
    (∀ d ∈ exampleFailing.definitions, d.WasRead) ∧
      exampleFailing.catalog.Fails "a-spec" (.cycle ["a-spec", "b-spec", "a-spec"]) ∧
      exampleFailing.catalog.Fails "outer-spec" (.unknownSpec "row-spec-list") := by
  have hread : ∀ d ∈ exampleFailing.definitions, d.WasRead :=
    (Registry.loaded_ofLines _).wasRead.index
  obtain ⟨-, hbuild⟩ := build_of_wasRead hread
  have hfails : ∀ {name e}, exampleFailing.catalog.build name = .error e →
      exampleFailing.catalog.Fails name e := by
    intro name e herror
    obtain ⟨n, hn⟩ | ⟨e', he', hfails⟩ := hbuild name
    · rw [herror] at hn
      cases hn
    · rw [herror] at he'
      cases he'
      exact hfails
  exact ⟨hread, hfails (eq_error_of_test (by decide +kernel)),
    hfails (eq_error_of_test (by decide +kernel))⟩

end Index

end SpecTree
