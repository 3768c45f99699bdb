import Mathlib.Data.List.Basic
import SpecTree.Registry
import SpecTree.Result

/-!
# Strict and lenient loads

A load under the policy `raise` ends with the first problem; under another it goes on and reports
problems at the end. Both make the same registry of sources without problems. Main statements:

* `Sources.load_raise_iff`: the definitions below one path;
* `Registry.load_eq`: a load gathers definitions, path by path, and finishes once;
* `Registry.strict_iff_lenient`: a strict load succeeds if and only if a lenient one has nothing to
  report, and what a lenient load stages.
-/

namespace SpecTree

namespace LoadReport

theorem nothing_append (report : LoadReport) : nothing.append report = report := by
  simp [nothing, append]

theorem append_nothing (report : LoadReport) : report.append nothing = report := by
  simp [nothing, append]

/-- It does not matter which reports are put together first. -/
theorem append_assoc (r s t : LoadReport) : (r.append s).append t = r.append (s.append t) := by
  simp [append, Nat.add_assoc]

/-- A report is without problems if nothing was skipped and nothing is unresolved. -/
theorem hasProblems_eq_false_iff {report : LoadReport} :
    report.hasProblems = false ↔ report.skipped = [] ∧ report.unresolved = [] := by
  simp [hasProblems, problems]

end LoadReport

/-! ## Files and paths -/

namespace Sources

/-- The definitions and the reports of several places, one after the other. -/
def gather (add : String → Except LoadError (List Definition × LoadReport)) :
    List String → Except LoadError (List Definition × LoadReport)
  | [] => .ok ([], .nothing)
  | place :: places => do
    let (definitions, report) ← add place
    let (later, laterReport) ← gather add places
    return (definitions ++ later, report.append laterReport)

variable {sources : Sources} {options : LoadOptions}

/-- Files are added one by one. -/
theorem addFiles_eq_gather (files : List String) :
    sources.addFiles options files = gather (sources.addFile options) files := by
  induction files with
  | nil => rfl
  | cons file files ih =>
    unfold addFiles gather
    rw [ih]

/-- If each place can be added strictly just when it is added leniently and nothing is skipped,
then so can all of them. -/
theorem gather_strict_iff {strict lenient : String → Except LoadError (List Definition × LoadReport)}
    (h : ∀ place x, strict place = .ok x ↔ lenient place = .ok x ∧ x.2.skipped = [])
    (places : List String) (x : List Definition × LoadReport) :
    gather strict places = .ok x ↔ gather lenient places = .ok x ∧ x.2.skipped = [] := by
  induction places generalizing x with
  | nil =>
    refine ⟨fun hx => ⟨hx, ?_⟩, And.left⟩
    cases hx
    rfl
  | cons place places ih =>
    unfold gather
    constructor
    · intro hx
      obtain ⟨first, hfirst, hx⟩ := bind_eq_ok.1 hx
      obtain ⟨later, hlater, hx⟩ := bind_eq_ok.1 hx
      obtain ⟨hfirst, hskipped⟩ := (h place first).1 hfirst
      obtain ⟨hlater, hskipped'⟩ := (ih later).1 hlater
      refine ⟨bind_eq_ok.2 ⟨first, hfirst, bind_eq_ok.2 ⟨later, hlater, hx⟩⟩, ?_⟩
      cases hx
      exact List.append_eq_nil_iff.2 ⟨hskipped, hskipped'⟩
    · rintro ⟨hx, hskipped⟩
      obtain ⟨first, hfirst, hx⟩ := bind_eq_ok.1 hx
      obtain ⟨later, hlater, hx⟩ := bind_eq_ok.1 hx
      -- nothing is skipped in all places, so nothing in the first and in the others:
      have hnone : first.2.skipped = [] ∧ later.2.skipped = [] := by
        cases hx
        exact List.append_eq_nil_iff.1 hskipped
      exact bind_eq_ok.2 ⟨first, (h place first).2 ⟨hfirst, hnone.1⟩,
        bind_eq_ok.2 ⟨later, (ih later).2 ⟨hlater, hnone.2⟩, hx⟩⟩

/-- Only a file that cannot be read, or makes no sense, is treated in another way. -/
theorem addFile_raise_iff (file : String) (x : List Definition × LoadReport) :
    sources.addFile { options with onError := .raise } file = .ok x ↔
      sources.addFile { options with onError := .ignore } file = .ok x ∧ x.2.skipped = [] := by
  have hload : sources.loadFile { options with onError := .raise } file =
      sources.loadFile { options with onError := .ignore } file := rfl
  unfold addFile
  rw [hload]
  cases sources.loadFile { options with onError := .ignore } file with
  | error e =>
    constructor
    · intro h
      cases h
    · rintro ⟨h, hskipped⟩
      cases h
      cases hskipped
  | ok ds =>
    cases ds with
    | nil =>
      refine ⟨fun h => ⟨h, ?_⟩, And.left⟩
      dsimp only at h
      split at h <;> cases h
      rfl
    | cons d ds =>
      refine ⟨fun h => ⟨h, ?_⟩, And.left⟩
      cases h
      rfl

/-- **The definitions below a path are loaded strictly if and only if they are loaded leniently
and nothing is skipped.** -/
theorem load_raise_iff (root : String) (x : List Definition × LoadReport) :
    sources.load { options with onError := .raise } root = .ok x ↔
      sources.load { options with onError := .ignore } root = .ok x ∧ x.2.skipped = [] := by
  unfold load
  cases sources.list root with
  | error e => simp
  | ok files =>
    simp only [addFiles_eq_gather]
    exact gather_strict_iff addFile_raise_iff _ x

/-- The definitions in a file, none if it cannot be read or makes no sense. -/
def definitionsIn (sources : Sources) (options : LoadOptions) (file : String) : List Definition :=
  match sources.loadFile options file with
  | .ok definitions => definitions
  | .error _ => []

/-- A load that raises nothing takes from a file what is defined in it. -/
theorem eq_definitionsIn_of_addFile (h : options.onError ≠ .raise) {file : String}
    {ds : List Definition} {report : LoadReport}
    (hadd : sources.addFile options file = .ok (ds, report)) :
    ds = sources.definitionsIn options file := by
  unfold addFile at hadd
  unfold definitionsIn
  split at hadd
  · next hload =>
    rw [hload]
    split at hadd <;> cases hadd
    rfl
  · next hload =>
    rw [hload]
    cases hadd
    rfl
  · next hload =>
    rw [hload]
    rw [if_neg h] at hadd
    cases hadd
    rfl

/-- What is gathered from some places is what each of them gives, in their order. -/
theorem eq_flatMap_of_gather {add : String → Except LoadError (List Definition × LoadReport)}
    {definitions : String → List Definition}
    (h : ∀ place ds report, add place = .ok (ds, report) → ds = definitions place)
    {places : List String} {ds : List Definition} {report : LoadReport}
    (hgather : gather add places = .ok (ds, report)) : ds = places.flatMap definitions := by
  induction places generalizing ds report with
  | nil =>
    cases hgather
    rfl
  | cons place places ih =>
    obtain ⟨⟨first, _⟩, hfirst, hrest⟩ := bind_eq_ok.1 hgather
    obtain ⟨⟨later, _⟩, hlater, hpure⟩ := bind_eq_ok.1 hrest
    cases hpure
    rw [List.flatMap_cons, h place _ _ hfirst, ih hlater]

/-- A lenient load takes the definitions of every accepted file that makes sense, whatever is the
matter with the others. -/
theorem exists_files_of_load (h : options.onError ≠ .raise) {root : String} {ds : List Definition}
    {report : LoadReport} (hload : sources.load options root = .ok (ds, report)) :
    ∃ files, sources.list root = .ok files ∧
      ds = (files.filter options.accepts).flatMap (sources.definitionsIn options) := by
  unfold load at hload
  split at hload
  · next files hlist =>
    rw [addFiles_eq_gather] at hload
    exact ⟨files, hlist, eq_flatMap_of_gather (fun _ _ _ => eq_definitionsIn_of_addFile h) hload⟩
  · cases hload

/-- A lenient load takes the definitions of all listed files that are accepted. -/
theorem exists_listings_of_gather (h : options.onError ≠ .raise) {roots : List String}
    {ds : List Definition} {report : LoadReport}
    (hload : gather (sources.load options) roots = .ok (ds, report)) :
    ∃ listings, roots.mapM sources.list = .ok listings ∧
      ds = (listings.flatten.filter options.accepts).flatMap (sources.definitionsIn options) := by
  induction roots generalizing ds report with
  | nil =>
    cases hload
    exact ⟨[], rfl, rfl⟩
  | cons root roots ih =>
    obtain ⟨⟨first, _⟩, hfirst, hrest⟩ := bind_eq_ok.1 hload
    obtain ⟨⟨later, _⟩, hlater, hpure⟩ := bind_eq_ok.1 hrest
    obtain ⟨files, hlist, rfl⟩ := exists_files_of_load h hfirst
    obtain ⟨listings, hlistings, rfl⟩ := ih hlater
    cases hpure
    refine ⟨files :: listings, ?_, ?_⟩
    · rw [List.mapM_cons, hlist, hlistings]
      rfl
    · rw [List.flatten_cons, List.filter_append, List.flatMap_append]

end Sources

/-! ## Registries -/

namespace Registry

open Sources (gather)

/-- A root is loaded by staging what its files define. -/
theorem loadFrom_eq (r : Registry) (sources : Sources) (root : String) :
    loadFrom r sources root =
      (sources.load r.options root).map fun (ds, report) => (r.stage ds, report) := by
  unfold loadFrom
  cases sources.load r.options root <;> rfl

/-- Roots are loaded one by one, and the reports put together. -/
theorem foldlM_loadFrom (sources : Sources) (roots : List String) (r : Registry)
    (report : LoadReport) :
    roots.foldlM (fun (r, report) root => do
        let (r, further) ← loadFrom r sources root
        return (r, report.append further)) (r, report) =
      (gather (sources.load r.options) roots).map fun (ds, further) =>
        (r.stage ds, report.append further) := by
  induction roots generalizing r report with
  | nil =>
    show Except.ok (r, report) = Except.ok ({ r with pending := r.pending ++ [] }, _)
    rw [List.append_nil, LoadReport.append_nothing]
  | cons root roots ih =>
    rw [List.foldlM_cons]
    dsimp only
    rw [loadFrom_eq]
    unfold gather
    cases sources.load r.options root with
    | error e => rfl
    | ok first =>
      obtain ⟨ds, further⟩ := first
      refine (ih (r.stage ds) (report.append further)).trans ?_
      rw [ok_bind]
      show (gather (sources.load r.options) roots).map _ = _
      cases gather (sources.load r.options) roots with
      | error e => rfl
      | ok later =>
        obtain ⟨es, last⟩ := later
        show Except.ok ({ r with pending := r.pending ++ ds ++ es }, _) =
          Except.ok ({ r with pending := r.pending ++ (ds ++ es) }, _)
        rw [List.append_assoc, LoadReport.append_assoc]

/-- **A load gathers the definitions below every path, and finishes once.** -/
theorem load_eq (sources : Sources) (options : LoadOptions) (roots : List String) :
    load sources options roots = do
      let (ds, report) ← gather (sources.load options) roots
      let (r, result) := ((ofOptions options).stage ds).finish
      let unresolved ← result
      return (r, { report with unresolved }) := by
  have hoptions : (ofOptions options).options = options := rfl
  unfold load
  rw [foldlM_loadFrom, hoptions]
  cases gather (sources.load options) roots with
  | error e => rfl
  | ok gathered =>
    obtain ⟨ds, report⟩ := gathered
    simp only [Except.map, ok_bind, LoadReport.nothing_append]

/-- Definitions are finished strictly if and only if a lenient check of their references has nothing
to report. -/
theorem finish_raise_iff (options : LoadOptions) (ds : List Definition) (r : Registry)
    (problems : List LoadError) :
    ((ofOptions { options with onError := .raise }).stage ds).finish = (r, .ok problems) ↔
      ∃ r', ((ofOptions { options with onError := .ignore }).stage ds).finish = (r', .ok problems) ∧
        problems = [] ∧ r = { r' with options.onError := .raise } := by
  unfold finish
  dsimp only [stage, ofOptions]
  generalize (Index.empty.add ([] ++ ds)).1 = index
  have hlenient : index.checkReferences .ignore = .ok index.referenceProblems := rfl
  rw [hlenient]
  unfold Index.checkReferences
  cases index.referenceProblems with
  | nil =>
    constructor
    · intro h
      cases h
      exact ⟨_, rfl, rfl, rfl⟩
    · rintro ⟨r', h, -, rfl⟩
      cases h
      rfl
  | cons e es =>
    constructor
    · intro h
      cases h
    · rintro ⟨r', h, rfl, -⟩
      cases h

/-- What a load gives: the definitions that were gathered are finished, and the report is that of
gathering them and of finishing. -/
theorem load_eq_ok_iff {sources : Sources} {options : LoadOptions} {roots : List String}
    {r : Registry} {report : LoadReport} :
    load sources options roots = .ok (r, report) ↔
      ∃ x, gather (sources.load options) roots = .ok x ∧
        ((ofOptions options).stage x.1).finish = (r, .ok report.unresolved) ∧
          report = { x.2 with unresolved := report.unresolved } := by
  rw [load_eq, bind_eq_ok]
  refine exists_congr fun x => and_congr_right fun _ => ?_
  obtain ⟨ds, read⟩ := x
  dsimp only
  generalize ((ofOptions options).stage ds).finish = finished
  obtain ⟨s, result⟩ := finished
  cases result with
  | error e =>
    constructor
    · intro h
      cases h
    · rintro ⟨h, -⟩
      cases h
  | ok unresolved =>
    constructor
    · intro h
      cases h
      exact ⟨rfl, rfl⟩
    · rintro ⟨h, hreport⟩
      cases h
      rw [hreport]
      rfl

/-- **A load under the policy `raise` succeeds if and only if a load under the policy `ignore` has
nothing to report**, and then both report the same and make the same registry. A lenient load
finishes the definitions of all accepted files that make sense, in the order in which the files
are listed. -/
theorem strict_iff_lenient (sources : Sources) (options : LoadOptions) (roots : List String) :
    (∀ r report, load sources { options with onError := .raise } roots = .ok (r, report) ↔
      ∃ r', load sources { options with onError := .ignore } roots = .ok (r', report) ∧
        report.hasProblems = false ∧ r = { r' with options.onError := .raise }) ∧
    (options.onError ≠ .raise → ∀ r report, load sources options roots = .ok (r, report) →
      ∃ listings, roots.mapM sources.list = .ok listings ∧
        ((ofOptions options).stage ((listings.flatten.filter options.accepts).flatMap
          (sources.definitionsIn options))).finish = (r, .ok report.unresolved)) := by
  constructor
  · -- a strict load is a lenient one in which nothing was skipped:
    intro r report
    rw [load_eq_ok_iff]
    constructor
    · rintro ⟨x, hgather, hfinish, hreport⟩
      obtain ⟨hgather, hskipped⟩ := (Sources.gather_strict_iff Sources.load_raise_iff _ x).1 hgather
      obtain ⟨r', hfinish, hunresolved, hr⟩ := (finish_raise_iff options x.1 r _).1 hfinish
      have hskipped' : report.skipped = [] := by rw [hreport]; exact hskipped
      exact ⟨r', load_eq_ok_iff.2 ⟨x, hgather, hfinish, hreport⟩,
        LoadReport.hasProblems_eq_false_iff.2 ⟨hskipped', hunresolved⟩, hr⟩
    · rintro ⟨r', hload, hproblems, hr⟩
      obtain ⟨x, hgather, hfinish, hreport⟩ := load_eq_ok_iff.1 hload
      obtain ⟨hskipped, hunresolved⟩ := LoadReport.hasProblems_eq_false_iff.1 hproblems
      have hskipped' : x.2.skipped = [] := by rw [hreport] at hskipped; exact hskipped
      exact ⟨x, (Sources.gather_strict_iff Sources.load_raise_iff _ x).2 ⟨hgather, hskipped'⟩,
        (finish_raise_iff options x.1 r _).2 ⟨r', hfinish, hunresolved, hr⟩, hreport⟩
  · -- a lenient load skips problems, and stages what the listed files define:
    intro hlenient r report hload
    obtain ⟨⟨ds, read⟩, hgather, hfinish, -⟩ := load_eq_ok_iff.1 hload
    obtain ⟨listings, hlistings, rfl⟩ := Sources.exists_listings_of_gather hlenient hgather
    exact ⟨listings, hlistings, hfinish⟩

/-- A file that can be read, and one with a block that is not closed. -/
def exampleFiles : MemoryFiles :=
  .ofList [("a.hh", "/*! ``[a-spec]``\n* `\"x`\" ``[int]``\n*/"), ("b.hh", "/*! ONE OF\n*/")]

theorem strict_iff_lenient_exampleFiles :
    (∃ r report, load exampleFiles.sources .strict ["a.hh"] = .ok (r, report) ∧
      r.catalog.names = ["a-spec"]) ∧
    (∃ r report, load exampleFiles.sources .standard ["b.hh", "a.hh"] = .ok (r, report) ∧
      report.hasProblems = true ∧ ∃ listings,
        ["b.hh", "a.hh"].mapM exampleFiles.sources.list = .ok listings ∧
          ((ofOptions .standard).stage ((listings.flatten.filter LoadOptions.standard.accepts).flatMap
            (exampleFiles.sources.definitionsIn .standard))).finish = (r, .ok report.unresolved)) := by
  constructor
  · have hclean : (load exampleFiles.sources { LoadOptions.strict with onError := .ignore }
        ["a.hh"]).map (fun x => (x.2.hasProblems, x.1.catalog.names)) =
          .ok (false, ["a-spec"]) := by decide +kernel
    obtain ⟨⟨r, report⟩, hload, hclean⟩ := map_eq_ok.1 hclean
    obtain ⟨hproblems, hnames⟩ := Prod.mk.inj hclean
    obtain ⟨hstrict, -⟩ := strict_iff_lenient exampleFiles.sources .strict ["a.hh"]
    exact ⟨_, report, (hstrict _ report).2 ⟨r, hload, hproblems, rfl⟩, hnames⟩
  · have hmessy : (load exampleFiles.sources .standard ["b.hh", "a.hh"]).map
        (·.2.hasProblems) = .ok true := by decide +kernel
    obtain ⟨⟨r, report⟩, hload, hproblems⟩ := map_eq_ok.1 hmessy
    obtain ⟨-, hstaged⟩ := strict_iff_lenient exampleFiles.sources .standard ["b.hh", "a.hh"]
    exact ⟨r, report, hload, hproblems, hstaged (by decide) r report hload⟩

end Registry

end SpecTree
