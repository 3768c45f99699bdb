import SpecTree.Proofs.Operation
import SpecTree.Proofs.Scan.WellFormed

/-!
# What is loaded was read

A registry that came about by loading sources holds definitions that were read from comments, and
nothing else. Main statements: `Sources.wasRead_of_load`, `Registry.Loaded.wasRead`.
-/

namespace SpecTree

namespace Index

/-- Putting a definition in brings in no other one. -/
theorem mem_insertInto {d e : Definition} {ds : List Definition} (h : e ∈ insertInto d ds) :
    e = d ∨ e ∈ ds := by
  induction ds with
  | nil => exact .inl (List.mem_singleton.1 h)
  | cons first rest ih =>
    unfold insertInto at h
    split at h
    · exact (List.mem_cons.1 h).imp_right (List.mem_cons_of_mem _)
    · rcases List.mem_cons.1 h with rfl | h
      · exact .inr List.mem_cons_self
      · exact (ih h).imp_right (List.mem_cons_of_mem _)

/-- What is in an index after definitions were added was there before, or is one of them. -/
theorem mem_add {e : Definition} {ds : List Definition} {index : Index}
    (h : e ∈ (index.add ds).1.definitions) : e ∈ index.definitions ∨ e ∈ ds := by
  induction ds generalizing index with
  | nil => exact .inl h
  | cons d ds ih =>
    rcases ih h with h | h
    · rcases mem_insertInto h with rfl | h
      · exact .inr List.mem_cons_self
      · exact .inl h
    · exact .inr (List.mem_cons_of_mem _ h)

end Index

/-! ## Files -/

namespace Sources

variable {sources : Sources} {options : LoadOptions}

/-- Definitions that are added from a file were read from it. -/
theorem wasRead_of_addFile {file : String} {ds : List Definition} {report : LoadReport}
    (h : sources.addFile options file = .ok (ds, report)) : ∀ d ∈ ds, d.WasRead := by
  unfold addFile at h
  split at h
  · split at h <;> cases h
    exact List.forall_mem_nil _
  · next hload =>
    cases h
    -- the file could be read, and so could the comments in it:
    unfold loadFile at hload
    split at hload
    · next text _ => exact fun d hd => ⟨file, _, _, ds, hload, hd⟩
    · cases hload
  · split at h <;> cases h
    exact List.forall_mem_nil _

/-- Definitions that are added from files were read from one of them. -/
theorem wasRead_of_addFiles {files : List String} {ds : List Definition} {report : LoadReport}
    (h : sources.addFiles options files = .ok (ds, report)) : ∀ d ∈ ds, d.WasRead := by
  induction files generalizing ds report with
  | nil =>
    cases h
    exact List.forall_mem_nil _
  | cons file files ih =>
    obtain ⟨⟨first, _⟩, hfile, hrest⟩ := bind_eq_ok.1 h
    obtain ⟨⟨later, _⟩, hfiles, hpure⟩ := bind_eq_ok.1 hrest
    cases hpure
    exact List.forall_mem_append.2 ⟨wasRead_of_addFile hfile, ih hfiles⟩

/-- What is loaded from files was read in one of them. -/
theorem wasRead_of_load {root : String} {ds : List Definition} {report : LoadReport}
    (h : sources.load options root = .ok (ds, report)) : ∀ d ∈ ds, d.WasRead := by
  unfold load at h
  split at h
  · exact wasRead_of_addFiles h
  · cases h

end Sources

/-! ## Registries -/

namespace Registry

/-- The registries that come about by loading sources, staging definitions that were read before,
and finishing loads. A load that fails leaves the registry as it was. -/
inductive Loaded : Registry → Prop
  | start (options : LoadOptions) : Loaded (ofOptions options)
  | stage {r : Registry} {ds : List Definition} (h : Loaded r) (hread : ∀ d ∈ ds, d.WasRead) :
    Loaded (r.stage ds)
  | lines {r r' : Registry} {file : String} {lines : List String} {count : Nat} (h : Loaded r)
    (hload : r.loadLines file lines = .ok (r', count)) : Loaded r'
  | source {r r' : Registry} {file text : String} {count : Nat} (h : Loaded r)
    (hload : r.loadSource file text = .ok (r', count)) : Loaded r'
  | files {r r' : Registry} {sources : Sources} {root : String} {report : LoadReport} (h : Loaded r)
    (hload : r.loadFrom sources root = .ok (r', report)) : Loaded r'
  | finish {r : Registry} (h : Loaded r) : Loaded r.finish.1

/-- Everything in a registry was read, also what its catalog was made from. -/
structure WasRead (r : Registry) : Prop where
  pending : ∀ d ∈ r.pending, d.WasRead
  index : ∀ d ∈ r.index.definitions, d.WasRead
  catalog : r.catalog = .empty ∨
    ∃ index : Index, (∀ d ∈ index.definitions, d.WasRead) ∧ r.catalog = index.catalog

theorem WasRead.stage {r : Registry} (h : r.WasRead) {ds : List Definition}
    (hds : ∀ d ∈ ds, d.WasRead) : (r.stage ds).WasRead :=
  ⟨List.forall_mem_append.2 ⟨h.pending, hds⟩, h.index, h.catalog⟩

/-- Finishing a load takes in only what was staged. -/
theorem WasRead.finish {r : Registry} (h : r.WasRead) : r.finish.1.WasRead := by
  have hindex : ∀ d ∈ (r.index.add r.pending).1.definitions, d.WasRead := fun d hd =>
    (Index.mem_add hd).elim (h.index d) (h.pending d)
  unfold Registry.finish
  simp only
  split
  · exact ⟨List.forall_mem_nil _, hindex, .inr ⟨_, hindex, rfl⟩⟩
  · exact ⟨List.forall_mem_nil _, hindex, h.catalog⟩

/-- Everything in a registry that came about by loading was read. -/
theorem Loaded.wasRead {r : Registry} (h : r.Loaded) : r.WasRead := by
  induction h with
  | start options => exact ⟨List.forall_mem_nil _, List.forall_mem_nil _, .inl rfl⟩
  | stage _ hread ih => exact ih.stage hread
  | lines _ hload ih =>
    obtain ⟨ds, hread, hpure⟩ := bind_eq_ok.1 hload
    cases hpure
    exact ih.stage fun d hd => ⟨_, _, _, ds, hread, hd⟩
  | source _ hload ih =>
    obtain ⟨ds, hread, hpure⟩ := bind_eq_ok.1 hload
    cases hpure
    exact ih.stage fun d hd => ⟨_, _, _, ds, hread, hd⟩
  | files _ hload ih =>
    obtain ⟨⟨ds, _⟩, hread, hpure⟩ := bind_eq_ok.1 hload
    cases hpure
    exact ih.stage (Sources.wasRead_of_load hread)
  | finish _ ih => exact ih.finish

/-- Loading the files at or below several paths is loading one after the other. -/
theorem loaded_of_load {sources : Sources} {options : LoadOptions} {roots : List String}
    {r : Registry} {report : LoadReport} (h : load sources options roots = .ok (r, report)) :
    r.Loaded := by
  obtain ⟨⟨s, _⟩, hroots, hrest⟩ := bind_eq_ok.1 h
  have hloaded : s.Loaded := by
    refine foldlM_eq_ok_induction (P := fun step => step.1.Loaded) ?_ (.start options) hroots
    rintro ⟨before, _⟩ root after hbefore hstep
    obtain ⟨⟨next, _⟩, hload, hpure⟩ := bind_eq_ok.1 hstep
    cases hpure
    exact .files hbefore hload
  obtain ⟨unresolved, -, hpure⟩ := bind_eq_ok.1 hrest
  cases hpure
  exact .finish hloaded

/-- A registry of the lines of one file is loaded. -/
theorem loaded_ofLines (lines : List String) : (ofLines lines).Loaded := by
  unfold ofLines
  split
  · next hload => exact .finish (.lines (.start .strict) hload)
  · exact .start .strict

end Registry

end SpecTree
