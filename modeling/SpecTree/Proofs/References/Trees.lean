import SpecTree.Proofs.Everywhere
import SpecTree.Proofs.Loading
import SpecTree.Proofs.Refusal
import SpecTree.Proofs.References.Building
import SpecTree.Proofs.References.Variants

/-!
# Checked references never fail later

If no problem with references is found when definitions are loaded, then trees of all their names
can be built, at first and whenever a list is given an entry or a choice its variant. Main
statement: `Index.builds_of_checkReferences`. What a list takes was resolved when the list was
built (`Node.Appendable`), and what a choice takes is registered
(`Index.hasPlainVariants_catalog`).
-/

namespace SpecTree

/-! ## What lists take -/

/-- An edit of an entry does not change what a list takes. -/
theorem EntryList.element_within {ν α : Type} (l : EntryList ν) (key : String) (act : Edit ν α) :
    ((EntryList.within key act).stateAfter l).element = l.element := by
  rcases within_cases l key with ⟨e, he⟩ | ⟨p, m, -, -, -, hreaches⟩
  · rw [Edit.stateAfter_of_error (he act)]
  · rw [Edit.stateAfter_of_through (hreaches act)]

/-- An append does not change what a list takes. -/
theorem EntryList.element_append {ν : Type} {make : String → Except TreeError ν} {name : String}
    {l l' : EntryList ν} (h : EntryList.append make name l = .ok () l') :
    l'.element = l.element := by
  obtain ⟨-, p, -, rfl⟩ := append_eq_ok.1 h
  rfl

namespace Node

/-- If the node is a list of specs, they can be resolved. -/
def Appendable (catalog : Catalog) : Node → Prop
  | list l => ∀ s, l.element = .spec s → catalog.resolvable s = true
  | spec _ | choice _ => True

/-- What a list takes is settled when it is built. -/
theorem lasting_appendable (catalog : Catalog) : Lasting catalog (Appendable catalog) where
  generic := trivial
  list _ h := h
  spec _ _ := trivial
  choice _ _ _ _ _ := trivial
  set {n n' key value} _ h hset := by
    cases written_of_set hset with
    | spec | type | body => trivial
    | list hpart =>
      obtain ⟨p, w, -, -, rfl⟩ := EntryList.set_eq_ok.1 hpart
      exact h
  append {n n' name} h happend := by
    obtain ⟨l, l', rfl, rfl, hpart⟩ := appendEmpty_eq_ok happend
    exact fun s hs => h s ((EntryList.element_append hpart).symm.trans hs)
  within {n key α} act _ h := by
    cases n with
    | spec s =>
      rw [Edit.stateAfter_of_through (within_spec key act s)]
      trivial
    | choice c =>
      rw [Edit.stateAfter_of_through (within_choice key act c)]
      trivial
    | list l =>
      rw [Edit.stateAfter_of_through (within_list key act l)]
      -- what a list takes was settled when it was built:
      exact fun s hs => h s ((l.element_within key act).symm.trans hs)

end Node

/-! ## What can go wrong -/

/-- Is everything built that can be resolved? -/
def Catalog.BuildsAll (catalog : Catalog) : Prop :=
  ∀ name, catalog.resolvable name = true → ∃ n, catalog.build name = .ok n

section

variable {catalog : Catalog} (hbuild : catalog.BuildsAll)
include hbuild

/-- The elements of a list could be resolved when it was built, and so they are built. -/
theorem Node.appendEmpty_eq_error_of_appendable {n n' : Node} {name : String} {e : TreeError}
    (h : n.Appendable catalog) (happend : appendEmpty catalog name n = .error e n') :
    e = .notAList n.typeName ∨ e = .duplicateEntry name := by
  rcases appendEmpty_eq_error happend with he | he | ⟨l, s, rfl, helement, hmake⟩
  · exact .inl he
  · exact .inr he
  · obtain ⟨node, hnode⟩ := hbuild s (h s helement)
    rw [hnode] at hmake
    cases hmake

variable (hplain : catalog.HasPlainVariants)
include hplain

/-- A variant is found and built, or there is none for the type. -/
theorem Choice.variantFor_eq_error_of_plain {c : Choice Node} {type : String} {e : TreeError}
    (h : variantFor catalog type c = .error e) :
    (∃ current, e = .typeAlreadySet c.field current) ∨
      ∃ valid, e = .unknownType c.field type valid := by
  rcases variantFor_eq_error h with hset | hunknown | ⟨variant, hvariant, herror⟩
  · exact .inl hset
  · exact .inr hunknown
  · -- a variant is registered under a plain name, and so it can be resolved:
    obtain ⟨hcontains, hname⟩ := hplain _ _ _ _ hvariant
    have hresolvable : catalog.resolvable variant = true := by
      rw [Catalog.resolvable, Naming.resolvable_eq, hname]
      exact hcontains
    obtain ⟨n, hn⟩ := hbuild variant hresolvable
    rw [hn] at herror
    cases herror

/-- A type is refused because there is one, because it is unknown, or because the body refuses it.
-/
theorem Choice.setType_eq_error_of_plain {c c' : Choice Node} {type : String} {e : TreeError}
    (h : setType catalog type c = .error e c') :
    (∃ current, e = .typeAlreadySet c.field current) ∨
      (∃ valid, e = .unknownType c.field type valid) ∨
      ∃ body, c.writeType type c.body = .error e body := by
  rcases setType_eq_error h with ⟨hnone, -⟩ | ⟨body, hwrite, -⟩
  · exact (variantFor_eq_error_of_plain hbuild hplain hnone).imp_right .inl
  · exact .inr (.inr ⟨body, hwrite⟩)

/-- A write to a node never fails in building. -/
theorem Node.set_notBuildFailure_of_plain {n n' : Node} {key : String} {value : Value}
    {e : TreeError} (h : Node.set catalog key value n = .error e n') :
    e.isBuildFailure = false := by
  apply set_notBuildFailure _ h
  intro c _ e he
  rcases Choice.variantFor_eq_error_of_plain hbuild hplain he with ⟨current, rfl⟩ | ⟨valid, rfl⟩
  · rfl
  · rfl

end

/-! ## Trees of checked definitions -/

namespace Index

/-- **If no problem with references is found in definitions that were read, none of which has the
name of a list, then everything that can be resolved is built**: every name, every entry that is
appended to a list and every variant that is chosen, in every tree that is given out, whatever was
done to it. What may go wrong is that a node is no list, that there is an entry of the name, that a
type is chosen already or unknown, or that the type itself is refused as a value. -/
theorem builds_of_checkReferences {index : Index} {policy : Policy}
    (hread : ∀ d ∈ index.definitions, d.WasRead)
    (hnames : ∀ name ∈ index.names, ¬ Naming.IsListName name)
    (hchecked : index.checkReferences policy = .ok []) :
    (∀ name, index.catalog.resolvable name = true → ∃ n, index.catalog.build name = .ok n) ∧
      ∀ r : Registry, r.catalog = index.catalog →
        (∀ name, r.isFinished = true → r.catalog.resolvable name = true →
          ∃ n, r.get name = .ok n) ∧
        ∀ n, r.Reachable n → ∀ path m, n.descend? path = some m →
          (∀ name e m', Node.appendEmpty r.catalog name m = .error e m' →
            e = .notAList m.typeName ∨ e = .duplicateEntry name) ∧
          (∀ c type e c', m = .choice c → Choice.setType r.catalog type c = .error e c' →
            (∃ current, e = .typeAlreadySet c.field current) ∨
              (∃ valid, e = .unknownType c.field type valid) ∨
              ∃ body, c.writeType type c.body = .error e body) ∧
          ∀ key value e m', Node.set r.catalog key value m = .error e m' →
            e.isBuildFailure = false := by
  -- whatever the policy, an empty report means that no reference has a problem:
  have hproblems : index.referenceProblems = [] := by
    unfold checkReferences at hchecked
    split at hchecked <;> simp_all
  have hwf : ∀ d ∈ index.definitions, d.WellFormed := fun d hd => (hread d hd).wellFormed
  have hbuild : index.catalog.BuildsAll := fun name hname =>
    exists_build hwf hnames hproblems hname
  have hplain : index.catalog.HasPlainVariants := index.hasPlainVariants_catalog
  refine ⟨hbuild, ?_⟩
  intro r hr
  constructor
  · intro name hfinished hname
    rw [hr] at hname
    unfold Registry.get
    rw [if_pos hfinished, hr]
    exact hbuild name hname
  · intro n hn path m hm
    rw [← hr] at hbuild hplain
    have happendable : m.Appendable r.catalog :=
      (((Node.lasting_appendable r.catalog).reachable hn).descend hm).here
    refine ⟨?_, ?_, ?_⟩
    · intro name e m' happend
      exact Node.appendEmpty_eq_error_of_appendable hbuild happendable happend
    · intro c type e c' _ hset
      exact Choice.setType_eq_error_of_plain hbuild hplain hset
    · intro key value e m' hset
      exact Node.set_notBuildFailure_of_plain hbuild hplain hset

/-- Definitions that include one another, hold one another, and list one another. -/
def exampleChecked : Index :=
  (Registry.ofLines ["``[outer-spec]``", "* ``[base-spec]``", "* `\"items`\" ``[outer-spec-list]``",
    "* `\"kind`\" ``[foo-typed-spec]``", "", "``[base-spec]``", "* `\"inner`\" ``[foo-a-spec]``", "",
    "``[foo-a-spec]``", "* `\"x`\" ``[int]``"]).index

theorem builds_of_checkReferences_exampleChecked :
    (∀ d ∈ exampleChecked.definitions, d.WasRead) ∧
      (∀ name ∈ exampleChecked.names, ¬ Naming.IsListName name) ∧
      exampleChecked.checkReferences .raise = .ok [] ∧
      (∃ n, exampleChecked.catalog.build "outer-spec" = .ok n) ∧
      ∀ r : Registry, r.catalog = exampleChecked.catalog → ∀ n, r.Reachable n →
        ∀ m, n.descend? ["items"] = some m → ∀ e m',
          Node.appendEmpty r.catalog "first" m = .error e m' →
            e = .notAList m.typeName ∨ e = .duplicateEntry "first" := by
  have hread : ∀ d ∈ exampleChecked.definitions, d.WasRead :=
    (Registry.loaded_ofLines _).wasRead.index
  obtain ⟨hnames, hchecked, hresolvable⟩ :
      (∀ name ∈ exampleChecked.names, ¬ Naming.IsListName name) ∧
        exampleChecked.checkReferences .raise = .ok [] ∧
        exampleChecked.catalog.resolvable "outer-spec" = true := by decide +kernel
  obtain ⟨hbuild, htrees⟩ := builds_of_checkReferences hread hnames hchecked
  refine ⟨hread, hnames, hchecked, hbuild "outer-spec" hresolvable, ?_⟩
  intro r hr n hn m hm e m'
  exact ((htrees r hr).2 n hn ["items"] m hm).1 "first" e m'

end Index

end SpecTree
