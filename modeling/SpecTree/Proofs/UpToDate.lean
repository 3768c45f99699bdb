import SpecTree.Proofs.Operation

/-!
# Registries that are up to date

A registry answers from the catalog that it made when a load was last finished. `Registry.run`
follows any commands, failed ones too, and keeps a log of what was staged on the way. Main
statements:

* `Registry.follows_run`: the catalog is that of the definitions that were staged when a load was
  last finished with success;
* `Registry.catalog_of_run`: a registry that answers is up to date, unless the last finish was
  refused, which happens only if the first problem ends a load;
* `Registry.stale_after_finish`: after a finish that was refused it is not.
-/

namespace SpecTree

namespace Index

/-- The index of definitions that are added one after the other. -/
def ofDefinitions (ds : List Definition) : Index := (empty.add ds).1

theorem add_append (index : Index) (ds es : List Definition) :
    (index.add (ds ++ es)).1 = ((index.add ds).1.add es).1 := by
  induction ds generalizing index with
  | nil => rfl
  | cons d ds ih => exact ih (index.insert d)

theorem add_ofDefinitions (ds es : List Definition) :
    ((ofDefinitions ds).add es).1 = ofDefinitions (ds ++ es) :=
  (add_append empty ds es).symm

end Index

namespace Registry

/-- What can be done with a registry. -/
inductive Command where
  | stage (definitions : List Definition)
  | loadLines (file : String) (lines : List String)
  | loadSource (file text : String)
  | loadFrom (sources : Sources) (root : String)
  | finish
  | get (name : String)
  | clear

namespace Command

/-- The registry after a command, whether it failed or not. -/
def apply : Command → Registry → Registry
  | stage ds, r => r.stage ds
  | loadLines file lines, r =>
    match r.loadLines file lines with
    | .ok (r', _) => r'
    | .error _ => r
  | loadSource file text, r =>
    match r.loadSource file text with
    | .ok (r', _) => r'
    | .error _ => r
  | loadFrom sources root, r =>
    match r.loadFrom sources root with
    | .ok (r', _) => r'
    | .error _ => r
  | finish, r => r.finish.1
  | get _, r => r
  | clear, r => r.clear

/-- The definitions that a command finds, none if it fails. -/
def definitions (options : LoadOptions) : Command → List Definition
  | stage ds => ds
  | loadLines file lines =>
    match Definition.readLines file (options.stem file) (CommentLine.numbered lines) with
    | .ok ds => ds
    | .error _ => []
  | loadSource file text =>
    match Definition.readSource file (options.stem file) text with
    | .ok ds => ds
    | .error _ => []
  | loadFrom sources root =>
    match sources.load options root with
    | .ok (ds, _) => ds
    | .error _ => []
  | finish | get _ | clear => []

end Command

/-- What has happened to a registry since it was last cleared. -/
structure Log where
  /-- All definitions that were staged, in order. -/
  staged : List Definition
  /-- Those that were staged when a finish last succeeded. -/
  finished : List Definition
  /-- Was the last finish refused? -/
  refused : Bool

/-- The log after a command on a registry. -/
def Log.after (log : Log) (r : Registry) : Command → Log
  | .finish =>
    match r.finish.2 with
    | .ok _ => { log with finished := log.staged, refused := false }
    | .error _ => { log with refused := true }
  | .clear => ⟨[], [], false⟩
  | command => { log with staged := log.staged ++ command.definitions r.options }

/-- A registry without definitions after commands, one after the other, with its log. -/
def run (options : LoadOptions) (commands : List Command) : Registry × Log :=
  commands.foldl (fun (r, log) command => (command.apply r, log.after r command))
    (ofOptions options, ⟨[], [], false⟩)

/-! ## What every command keeps -/

/-- The registry stands for its log: index and staged definitions together for all that was staged,
and the catalog for what was finished. -/
structure Follows (options : LoadOptions) (r : Registry) (log : Log) : Prop where
  sameOptions : r.options = options
  index : (r.index.add r.pending).1 = .ofDefinitions log.staged
  catalog : r.catalog = (Index.ofDefinitions log.finished).catalog
  finished : log.refused = false → log.staged = log.finished ++ r.pending
  accepted : options.onError ≠ .raise → log.refused = false

variable {options : LoadOptions} {r : Registry} {log : Log}

/-- A new registry follows an empty log. -/
theorem follows_ofOptions (options : LoadOptions) :
    Follows options (ofOptions options) ⟨[], [], false⟩ where
  sameOptions := rfl
  index := rfl
  catalog := rfl
  finished _ := rfl
  accepted _ := rfl

/-- Staging adds to the log what it adds to the registry. -/
theorem Follows.stage (h : Follows options r log) (ds : List Definition) :
    Follows options (r.stage ds) { log with staged := log.staged ++ ds } where
  sameOptions := h.sameOptions
  index := by
    show (r.index.add (r.pending ++ ds)).1 = _
    rw [Index.add_append, h.index, Index.add_ofDefinitions]
  catalog := h.catalog
  finished hrefused := by
    show log.staged ++ ds = log.finished ++ (r.pending ++ ds)
    rw [h.finished hrefused, List.append_assoc]
  accepted := h.accepted

/-- Only under the policy `raise` problems end a load. -/
theorem onError_of_checkReferences {index : Index} {policy : Policy} {e : LoadError}
    (h : index.checkReferences policy = .error e) : policy = .raise := by
  unfold Index.checkReferences at h
  split at h
  · rfl
  · cases h

/-- A load that is finished takes in all that was staged, or nothing. -/
theorem Follows.finish (h : Follows options r log) :
    Follows options r.finish.1 (log.after r .finish) := by
  unfold Log.after Registry.finish
  simp only
  cases hcheck : (r.index.add r.pending).1.checkReferences r.options.onError with
  | ok problems =>
    refine ⟨h.sameOptions, h.index, ?_, fun _ => (List.append_nil _).symm, fun _ => rfl⟩
    show (r.index.add r.pending).1.catalog = _
    rw [h.index]
  | error e =>
    -- what was staged is in the index all the same, but not in the catalog:
    refine ⟨h.sameOptions, h.index, h.catalog, fun hrefused => ?_, fun hpolicy => ?_⟩
    · cases hrefused
    rw [← h.sameOptions] at hpolicy
    exact absurd (onError_of_checkReferences hcheck) hpolicy

/-- A load that fails stages nothing. -/
theorem Follows.skip (h : Follows options r log) :
    Follows options r { log with staged := log.staged ++ [] } := by
  rw [List.append_nil]
  exact h

/-- Each command takes registry and log along together. -/
theorem Follows.after (h : Follows options r log) (command : Command) :
    Follows options (command.apply r) (log.after r command) := by
  cases command with
  | stage ds => exact h.stage ds
  | loadLines file lines =>
    simp only [Command.apply, Registry.loadLines, Log.after, Command.definitions]
    cases Definition.readLines file (r.options.stem file) (CommentLine.numbered lines) with
    | ok ds => exact h.stage ds
    | error e => exact h.skip
  | loadSource file text =>
    simp only [Command.apply, Registry.loadSource, Log.after, Command.definitions]
    cases Definition.readSource file (r.options.stem file) text with
    | ok ds => exact h.stage ds
    | error e => exact h.skip
  | loadFrom sources root =>
    simp only [Command.apply, Registry.loadFrom, Log.after, Command.definitions]
    cases sources.load r.options root with
    | ok found => exact h.stage found.1
    | error e => exact h.skip
  | finish => exact h.finish
  | get name => exact h.skip
  | clear => exact h.sameOptions ▸ follows_ofOptions r.options

/-- Whatever was done to it, a registry stands for its log. -/
theorem follows_run (options : LoadOptions) (commands : List Command) :
    Follows options (run options commands).1 (run options commands).2 := by
  unfold run
  -- the induction is on the commands, from any registry that stands for its log:
  have hfold : ∀ (r : Registry) (log : Log), Follows options r log →
      Follows options
        (commands.foldl (fun (r, log) command => (command.apply r, log.after r command)) (r, log)).1
        (commands.foldl (fun (r, log) command => (command.apply r, log.after r command))
          (r, log)).2 := by
    induction commands with
    | nil => exact fun _ _ h => h
    | cons command commands ih => exact fun r log h => ih _ _ (h.after command)
  exact hfold _ _ (follows_ofOptions options)

/-! ## Answers -/

/-- While definitions are staged, a registry does not answer. When it does, it answers from the
catalog of the definitions that were staged when a finish last succeeded. These are all, unless the
last finish was refused; and none is refused if the policy is not `raise`. -/
theorem catalog_of_run (options : LoadOptions) (commands : List Command) :
    let r := (run options commands).1
    let log := (run options commands).2
    (r.isFinished = false → ∀ name, r.get name = .error .notFinished) ∧
      (r.isFinished = true →
        ∀ name, r.get name = (Index.ofDefinitions log.finished).catalog.build name) ∧
      (r.isFinished = true → log.refused = false →
        r.catalog = (Index.ofDefinitions log.staged).catalog) ∧
      (options.onError ≠ .raise → log.refused = false) := by
  have h := follows_run options commands
  refine ⟨fun hpending name => ?_, fun hfinished name => ?_, fun hfinished hrefused => ?_,
    h.accepted⟩
  · unfold Registry.get
    rw [hpending]
    rfl
  · unfold Registry.get
    rw [hfinished, if_pos rfl, h.catalog]
  · have hnone : (run options commands).1.pending = [] := List.isEmpty_iff.1 hfinished
    rw [h.catalog, h.finished hrefused, hnone, List.append_nil]

/-- A spec that can be built, then one that refers to a spec that is not there, and at last that
spec too. A load is finished after each of them. -/
def exampleCommands : List Command :=
  [.loadLines "a.hh" ["``[a-spec]``", "* `\"x`\" ``[int]``"], .finish,
    .loadLines "b.hh" ["``[b-spec]``", "* `\"c`\" ``[c-spec]``"], .finish,
    .loadLines "c.hh" ["``[c-spec]``", "* `\"y`\" ``[int]``"], .finish]

theorem catalog_of_run_exampleCommands :
    (run .strict exampleCommands).1.isFinished = true ∧
      (run .strict exampleCommands).2.refused = false ∧
      (run .strict exampleCommands).2.staged.map (·.name) = ["a-spec", "b-spec", "c-spec"] ∧
      (run .strict exampleCommands).1.catalog
        = (Index.ofDefinitions (run .strict exampleCommands).2.staged).catalog := by
  have hfinished : (run .strict exampleCommands).1.isFinished = true := by decide +kernel
  have hrefused : (run .strict exampleCommands).2.refused = false := by decide +kernel
  obtain ⟨-, -, hcatalog, -⟩ := catalog_of_run .strict exampleCommands
  exact ⟨hfinished, hrefused, by decide +kernel, hcatalog hfinished hrefused⟩

/-- After the first two finishes, of which the second was refused, the registry claims to be
finished, but answers from the catalog without the second spec. -/
theorem stale_after_finish :
    (run .strict (exampleCommands.take 4)).1.isFinished = true ∧
      (run .strict (exampleCommands.take 4)).2.staged.map (·.name) = ["a-spec", "b-spec"] ∧
      (run .strict (exampleCommands.take 4)).1.catalog.names = ["a-spec"] ∧
      (run .strict (exampleCommands.take 4)).1.catalog
        ≠ (Index.ofDefinitions (run .strict (exampleCommands.take 4)).2.staged).catalog := by
  decide +kernel

end Registry

end SpecTree
