import SpecTree.Proofs.Node
import SpecTree.Proofs.Operation

/-!
# Appending to lists

The entries of a list keep their order and are never replaced: whatever is called on a list, what
it held comes first, each entry as the writes to it have left it. Main statements:

* `Node.append_cases`: an append that hands out the sub-spec of the new entry;
* `ListCall.run_list`: one call on a list;
* `ListCall.append_discipline`: any calls on a list, and what an append to it does then.
-/

namespace SpecTree

/-! ## One append -/

namespace Parameter

variable {ν : Type}

/-- What is put in for the last of the parameters, whose name no other has. -/
theorem put_concat {p q : Parameter ν} {ps : List (Parameter ν)} (h : find? ps q.name = none)
    (hname : p.name = q.name) : put q (ps ++ [p]) = ps ++ [q] := by
  induction ps with
  | nil => exact if_pos hname
  | cons r ps ih =>
    rw [find?_cons] at h
    split at h
    · cases h
    · next hr => rw [List.cons_append, put, if_neg hr, ih h, List.cons_append]

/-- An entry is found under its name when it is put behind the others. -/
theorem find?_concat {p : Parameter ν} {ps : List (Parameter ν)} (h : find? ps p.name = none) :
    find? (ps ++ [p]) p.name = some p := by
  rw [find?_append, h, Option.none_or, find?_cons, if_pos rfl]

/-- A write to an entry leaves its name alone. -/
theorem name_replace_set (value : Value) (p : Parameter ν) :
    ((Edit.replace (·.set value)).stateAfter p).name = p.name := by
  cases hset : p.set value with
  | error e => rw [Edit.stateAfter_of_error (Edit.replace_eq_error.2 ⟨hset, rfl⟩)]
  | ok p' =>
    rw [Edit.stateAfter_of_ok ((Edit.replace_eq_ok (u := ())).2 hset)]
    obtain ⟨w, -, rfl⟩ := set_eq_ok.1 hset
    rfl

/-- An edit of its sub-spec leaves the name of an entry alone. -/
theorem name_within {α : Type} (act : Edit ν α) (p : Parameter ν) :
    ((within act).stateAfter p).name = p.name := by
  rcases p.within_cases with ⟨e, he⟩ | ⟨m, -, -, hreaches⟩
  · rw [Edit.stateAfter_of_error (he act)]
  · rw [Edit.stateAfter_of_through (hreaches act)]

end Parameter

namespace Node

variable {catalog : Catalog} {name : String} {l : EntryList Node}

/-- An append succeeds if there is no entry of the name, and puts a new one behind the others. -/
theorem appendEmpty_list_eq_ok {n : Node} :
    appendEmpty catalog name (.list l) = .ok () n ↔ l.parameter? name = none ∧
      ∃ p, l.newEntry catalog.build name = .ok p ∧
        n = .list { l with entries := l.entries ++ [p] } := by
  rw [appendEmpty_list, Edit.through_eq_ok]
  constructor
  · rintro ⟨l', happend, rfl⟩
    obtain ⟨hnone, p, hp, rfl⟩ := EntryList.append_eq_ok.1 happend
    exact ⟨hnone, p, hp, rfl⟩
  · rintro ⟨hnone, p, hp, rfl⟩
    exact ⟨_, EntryList.append_eq_ok.2 ⟨hnone, p, hp, rfl⟩, rfl⟩

/-- An entry that is not appended leaves no trace. -/
theorem eq_of_appendEmpty_eq_error {n : Node} {e : TreeError}
    (h : appendEmpty catalog name (.list l) = .error e n) : n = .list l := by
  rw [appendEmpty_list] at h
  obtain ⟨l', happend, rfl⟩ := Edit.through_eq_error.1 h
  rw [(Edit.replace_eq_error.1 happend).2]

/-- A name that is there is refused, and nothing changes. -/
theorem appendEmpty_of_contains (h : l.contains name = true) :
    appendEmpty catalog name (.list l) = .error (.duplicateEntry name) (.list l) := by
  rw [appendEmpty_list]
  refine Edit.through_eq_error.2 ⟨l, Edit.replace_eq_error.2 ⟨?_, rfl⟩, rfl⟩
  rw [if_pos h]

/-- **An append that hands out the sub-spec of the new entry** is refused and changes nothing; or
the elements are primitive, and it fails when the entry is there already; or the new sub-spec is
edited. -/
theorem append_cases {α : Type} (catalog : Catalog) (name : String) (act : Edit Node α)
    (l : EntryList Node) :
    (∃ e, appendEmpty catalog name (.list l) = .error e (.list l) ∧
      append catalog name act (.list l) = .error e (.list l)) ∨
    (∃ t, l.parameter? name = none ∧ l.element = .primitive t ∧
      append catalog name act (.list l) = .error (.notDerived name)
        (.list { l with entries := l.entries ++ [.primitive name t] })) ∨
    ∃ s m, l.parameter? name = none ∧ l.element = .spec s ∧ catalog.build s = .ok m ∧
      append catalog name act (.list l) = Edit.through
        (fun m => .list { l with entries := l.entries ++ [.derived name s m] }) act m := by
  cases happend : appendEmpty catalog name (.list l) with
  | error e n =>
    obtain rfl := eq_of_appendEmpty_eq_error happend
    exact .inl ⟨e, rfl, Edit.bind_eq_error.2 (.inl happend)⟩
  | ok u n =>
    obtain ⟨hnone, p, hp, rfl⟩ := appendEmpty_list_eq_ok.1 happend
    have hpname : p.name = name := EntryList.name_of_newEntry hp
    have hnew : Parameter.find? l.entries p.name = none := hpname ▸ hnone
    -- the new entry is the one that is then found under the name:
    have hfound : EntryList.parameter? { l with entries := l.entries ++ [p] } name = some p := by
      rw [← hpname]
      exact Parameter.find?_concat hnew
    have hwithin : append catalog name act (.list l) =
        Edit.through (fun q => .list { l with entries := q.put (l.entries ++ [p]) })
          (Parameter.within act) p := by
      have hbind : append catalog name act (.list l)
          = within name act (.list { l with entries := l.entries ++ [p] }) := by
        show EStateM.bind _ _ _ = _
        unfold EStateM.bind
        rw [happend]
      exact (hbind.trans (within_list name act _)).trans
        (Edit.through_through (EntryList.within_of_parameter? hfound act))
    unfold EntryList.newEntry at hp
    split at hp
    · next t helement =>
      cases hp
      have hview : (Parameter.primitive name t : Parameter Node).subSpec
          = .error (.notDerived name) := rfl
      refine .inr (.inl ⟨t, hnone, helement, hwithin.trans ?_⟩)
      refine Edit.through_eq_error.2 ⟨_, Edit.zoom_of_view_error hview, ?_⟩
      rw [Parameter.put_concat hnew rfl]
    · next s helement =>
      obtain ⟨m, hm, rfl⟩ := map_eq_ok.1 hp
      have hview : (Parameter.derived name s m).subSpec = .ok m := rfl
      have hreach := hwithin.trans (Edit.through_through (Edit.zoom_of_view hview))
      refine .inr (.inr ⟨s, m, hnone, helement, hm, hreach.trans ?_⟩)
      refine congrFun (congrFun (congrArg Edit.through (funext fun m' => ?_)) act) m
      show Node.list { l with entries := (Parameter.derived name s m').put _ } = _
      rw [Parameter.put_concat (p := .derived name s m) (q := .derived name s m') hnew rfl]

end Node

/-! ## Calls -/

/-- A call on a list. Where it hands out a sub-spec, that is edited. -/
inductive ListCall where
  /-- Append an entry and hand out its sub-spec. -/
  | append (name : String) (act : Edit Node Unit)
  | appendEmpty (name : String)
  | set (name : String) (value : Value)
  /-- Hand out the sub-spec of an entry. -/
  | within (name : String) (act : Edit Node Unit)

namespace ListCall

variable {catalog : Catalog} {l : EntryList Node}

/-- The call on a node. -/
def run (catalog : Catalog) : ListCall → Edit Node Unit
  | append name act => Node.append catalog name act
  | appendEmpty name => Node.appendEmpty catalog name
  | set name value => Node.set catalog name value
  | within name act => Node.within name act

/-- A node after calls, each of which may have failed. -/
def after (catalog : Catalog) (n : Node) (calls : List ListCall) : Node :=
  calls.foldl (fun n call => (call.run catalog).stateAfter n) n

/-- What becomes of an entry that is there already: only a write to it, or to its sub-spec, makes a
difference. -/
def onEntry : ListCall → Parameter Node → Parameter Node
  | append .., p | appendEmpty _, p => p
  | set name value, p => if p.name = name then (Edit.replace (·.set value)).stateAfter p else p
  | within name act, p => if p.name = name then (Parameter.within act).stateAfter p else p

/-- No call changes the name of an entry. -/
theorem name_onEntry (call : ListCall) (p : Parameter Node) : (call.onEntry p).name = p.name := by
  cases call with
  | append | appendEmpty => rfl
  | set name value =>
    rw [onEntry]
    split
    · exact p.name_replace_set value
    · rfl
  | within name act =>
    rw [onEntry]
    split
    · exact p.name_within act
    · rfl

theorem map_name_onEntry (call : ListCall) (ps : List (Parameter Node)) :
    (ps.map call.onEntry).map (·.name) = ps.map (·.name) := by
  rw [List.map_map]
  exact List.map_congr_left fun p _ => call.name_onEntry p

/-- No call makes a name come twice. -/
theorem distinct_map_onEntry {ps : List (Parameter Node)} (h : Parameter.Distinct ps)
    (call : ListCall) : Parameter.Distinct (ps.map call.onEntry) := by
  unfold Parameter.Distinct
  rw [map_name_onEntry]
  exact h

/-! ## What one call makes of a list -/

/-- A write changes the entry of its name, and no other. -/
theorem run_set (hl : Parameter.Distinct l.entries) (name : String) (value : Value) :
    ((set name value).run catalog).stateAfter (.list l)
      = .list { l with entries := l.entries.map (set name value).onEntry } := by
  refine (Edit.stateAfter_of_through (Node.set_list catalog name value l)).trans (congrArg _ ?_)
  show _ = EntryList.mk l.element (l.entries.map fun p => if p.name = name then _ else p) _
  -- there is no entry of the name, or it refuses the value, or takes it:
  cases hp : l.parameter? name with
  | none =>
    have hset : l.set name value = .error (.unknownKey name l.typeName) := by
      unfold EntryList.set
      rw [hp]
    rw [Edit.stateAfter_of_error (Edit.replace_eq_error.2 ⟨hset, rfl⟩),
      Parameter.map_of_find?_eq_none hp]
  | some p =>
    rw [← Parameter.put_eq_map_of_find? hl hp (p.name_replace_set value)]
    have hset : l.set name value
        = (p.set value).map fun p => { l with entries := p.put l.entries } := by
      unfold EntryList.set
      rw [hp]
    cases hvalue : p.set value with
    | error e =>
      rw [hvalue] at hset
      have hpname : p.name = name := Parameter.name_of_find? hp
      rw [Edit.stateAfter_of_error (Edit.replace_eq_error.2 ⟨hset, rfl⟩),
        Edit.stateAfter_of_error (Edit.replace_eq_error.2 ⟨hvalue, rfl⟩),
        Parameter.put_of_find? (hpname ▸ hp)]
    | ok p' =>
      rw [hvalue] at hset
      rw [Edit.stateAfter_of_ok ((Edit.replace_eq_ok (u := ())).2 hset),
        Edit.stateAfter_of_ok ((Edit.replace_eq_ok (u := ())).2 hvalue)]

/-- An edit of a sub-spec changes the entry of its name, and no other. -/
theorem run_within (hl : Parameter.Distinct l.entries) (name : String) (act : Edit Node Unit) :
    ((within name act).run catalog).stateAfter (.list l)
      = .list { l with entries := l.entries.map (within name act).onEntry } := by
  refine (Edit.stateAfter_of_through (Node.within_list name act l)).trans (congrArg _ ?_)
  show _ = EntryList.mk l.element (l.entries.map fun p => if p.name = name then _ else p) _
  cases hp : l.parameter? name with
  | none =>
    rw [Edit.stateAfter_of_error (EntryList.within_of_parameter?_eq_none hp act),
      Parameter.map_of_find?_eq_none hp]
  | some p =>
    rw [← Parameter.put_eq_map_of_find? hl hp (p.name_within act),
      Edit.stateAfter_of_through (EntryList.within_of_parameter? hp act)]

/-- A list that has grown: what it held comes first, as it has become. -/
def Grown (change : Parameter Node → Parameter Node) (l l' : EntryList Node) : Prop :=
  ∃ more, l' = { l with entries := l.entries.map change ++ more } ∧
    Parameter.Distinct l'.entries

/-- A list has grown by an entry that is put behind the others. -/
theorem grown_concat (hl : Parameter.Distinct l.entries) {p : Parameter Node}
    (hnone : l.parameter? p.name = none) :
    Grown id l { l with entries := l.entries ++ [p] } :=
  ⟨[p], by rw [List.map_id], Parameter.distinct_concat hl hnone⟩

theorem grown_refl (hl : Parameter.Distinct l.entries) : Grown id l l :=
  ⟨[], by rw [List.map_id, List.append_nil], hl⟩

/-- **One call on a list**: it stays a list, and grows at most. -/
theorem run_list (catalog : Catalog) (hl : Parameter.Distinct l.entries) (call : ListCall) :
    ∃ l', (call.run catalog).stateAfter (.list l) = .list l' ∧ Grown call.onEntry l l' := by
  cases call with
  | append name act =>
    -- the entries that were there before do not see the edit of the new one:
    show ∃ l', (Node.append catalog name act).stateAfter (.list l) = .list l' ∧ Grown id l l'
    rcases Node.append_cases catalog name act l with
      ⟨e, -, he⟩ | ⟨t, hnone, -, he⟩ | ⟨s, m, hnone, -, -, hreach⟩
    · exact ⟨l, Edit.stateAfter_of_error he, grown_refl hl⟩
    · exact ⟨_, Edit.stateAfter_of_error he, grown_concat hl hnone⟩
    · have hrun := Edit.stateAfter_of_through hreach
      exact ⟨_, hrun, grown_concat hl (p := .derived name s (act.stateAfter m)) hnone⟩
  | appendEmpty name =>
    show ∃ l', (Node.appendEmpty catalog name).stateAfter (.list l) = .list l' ∧ Grown id l l'
    cases happend : Node.appendEmpty catalog name (.list l) with
    | error e n =>
      obtain rfl := Node.eq_of_appendEmpty_eq_error happend
      exact ⟨l, Edit.stateAfter_of_error happend, grown_refl hl⟩
    | ok u n =>
      obtain ⟨hnone, p, hp, rfl⟩ := Node.appendEmpty_list_eq_ok.1 happend
      refine ⟨_, Edit.stateAfter_of_ok happend, grown_concat hl ?_⟩
      rw [EntryList.name_of_newEntry hp]
      exact hnone
  | set name value =>
    exact ⟨_, run_set hl name value, [], by rw [List.append_nil], distinct_map_onEntry hl _⟩
  | within name act =>
    exact ⟨_, run_within hl name act, [], by rw [List.append_nil], distinct_map_onEntry hl _⟩

/-! ## What any calls make of a list -/

/-- What an append to a list does. -/
structure Disciplined (catalog : Catalog) (l : EntryList Node) : Prop where
  /-- There is one entry of a name. -/
  duplicate : ∀ name, l.contains name = true →
    Node.appendEmpty catalog name (.list l) = .error (.duplicateEntry name) (.list l) ∧
    Node.append catalog name (pure ()) (.list l)
      = (.error (.duplicateEntry name) (.list l) : EStateM.Result _ _ Unit)
  /-- An append of an empty entry that fails changes nothing. -/
  appendEmpty_error : ∀ name e n,
    Node.appendEmpty catalog name (.list l) = .error e n → n = .list l
  /-- An append that hands out a sub-spec, and fails, changes nothing, unless the elements have no
  sub-specs; then it is refused or leaves the entry behind. -/
  append_error : ∀ name e n,
    Node.append catalog name (pure () : Edit Node Unit) (.list l) = .error e n →
      n = .list l ∨ ∃ t, l.element = .primitive t ∧ l.contains name = false ∧
        e = .notDerived name ∧ n = .list { l with entries := l.entries ++ [.primitive name t] }
  /-- An append that succeeds puts a fresh entry behind all others. -/
  appended : ∀ name n, Node.appendEmpty catalog name (.list l) = .ok () n ∨
      Node.append catalog name (pure ()) (.list l) = .ok () n →
    l.contains name = false ∧ ∃ p, l.newEntry catalog.build name = .ok p ∧
      n = .list { l with entries := l.entries ++ [p] }

/-- What an append does to a list, and what it leaves of it when it fails. -/
theorem disciplined (catalog : Catalog) (l : EntryList Node) : Disciplined catalog l where
  duplicate name h := by
    have happend : Node.appendEmpty catalog name (.list l)
        = .error (.duplicateEntry name) (.list l) := Node.appendEmpty_of_contains h
    exact ⟨happend, Edit.bind_eq_error.2 (.inl happend)⟩
  appendEmpty_error _ _ _ := Node.eq_of_appendEmpty_eq_error
  append_error name e n h := by
    rcases Node.append_cases catalog name (pure ()) l with
      ⟨e', -, he⟩ | ⟨t, hnone, helement, he⟩ | ⟨s, m, -, -, -, hreach⟩
    · cases h.symm.trans he
      exact .inl rfl
    · cases h.symm.trans he
      exact .inr ⟨t, helement, EntryList.contains_eq_false_iff.2 hnone, rfl, rfl⟩
    · -- handing out cannot fail:
      cases h.symm.trans hreach
  appended name n h := by
    have happended {n : Node} (h : Node.appendEmpty catalog name (.list l) = .ok () n) :
        l.contains name = false ∧ ∃ p, l.newEntry catalog.build name = .ok p ∧
          n = .list { l with entries := l.entries ++ [p] } := by
      obtain ⟨hnone, p, hp, rfl⟩ := Node.appendEmpty_list_eq_ok.1 h
      exact ⟨EntryList.contains_eq_false_iff.2 hnone, p, hp, rfl⟩
    rcases h with h | h
    · exact happended h
    · rcases Node.append_cases catalog name (pure ()) l with
        ⟨e, -, he⟩ | ⟨t, -, -, he⟩ | ⟨s, m, hnone, helement, hm, hreach⟩
      · cases h.symm.trans he
      · cases h.symm.trans he
      · cases h.symm.trans hreach
        refine ⟨EntryList.contains_eq_false_iff.2 hnone, .derived name s m, ?_, rfl⟩
        unfold EntryList.newEntry
        rw [helement]
        show (catalog.build s).map _ = _
        rw [hm]
        rfl

/-- **Any calls on a list, failed or not**: what it held comes first, in order, each entry as the
calls for its own name have left it, and appends to it are disciplined. -/
theorem append_discipline (catalog : Catalog) {l : EntryList Node}
    (hl : Parameter.Distinct l.entries) (calls : List ListCall) :
    ∃ l' more, after catalog (.list l) calls = .list l' ∧
      l' = { l with
        entries := l.entries.map (fun p => calls.foldl (fun p call => call.onEntry p) p) ++ more } ∧
      Parameter.Distinct l'.entries ∧ Disciplined catalog l' := by
  induction calls generalizing l with
  | nil =>
    refine ⟨l, [], rfl, ?_, hl, disciplined catalog l⟩
    show l = EntryList.mk l.element (l.entries.map (fun p => p) ++ []) l.emptyIsComplete
    rw [List.append_nil, List.map_id']
  | cons call calls ih =>
    obtain ⟨l₁, hrun, more, hgrown, hdistinct⟩ := run_list catalog hl call
    obtain ⟨l', more', hafter, hentries, hrest⟩ := ih hdistinct
    refine ⟨l', more.map (fun p => calls.foldl (fun p call => call.onEntry p) p) ++ more',
      ?_, ?_, hrest⟩
    · rw [after, List.foldl_cons, hrun]
      exact hafter
    · rw [hentries, hgrown, List.map_append, List.map_map, List.append_assoc]
      rfl

/-- A spec to be listed. -/
def exampleThings : Registry :=
  .ofLines ["``[thing-spec]``", "* `\"w`\" ``[int]``"]

/-- Two entries are appended; a third append and a write fail. -/
def exampleCalls : List ListCall :=
  [.append "first" (Node.set exampleThings.catalog "w" (.int 3)), .append "first" (pure ()),
    .appendEmpty "second", .set "second" (.int 1)]

theorem append_discipline_exampleThings :
    ∃ l l' : EntryList Node, exampleThings.get "thing-spec-list" = .ok (.list l) ∧
      Parameter.Distinct l.entries ∧ after exampleThings.catalog (.list l) exampleCalls = .list l' ∧
      l'.names = ["first", "second"] ∧ Disciplined exampleThings.catalog l' := by
  obtain ⟨n, hget, htest⟩ := exampleThings.exists_of_get "thing-spec-list" (fun n =>
    n.parameters.isEmpty && ((Node.appendEmpty exampleThings.catalog "first").answer n).isOk &&
      decide ((after exampleThings.catalog n exampleCalls).parameters.map (·.name)
        = ["first", "second"])) (by decide +kernel)
  rw [Bool.and_eq_true, Bool.and_eq_true] at htest
  obtain ⟨⟨hempty, happend⟩, hnames⟩ := htest
  cases n with
  | spec s | choice c => cases happend
  | list l =>
    have hl : Parameter.Distinct l.entries := by
      rw [show l.entries = [] from List.isEmpty_iff.1 hempty]
      exact List.nodup_nil
    obtain ⟨l', more, hafter, -, -, hdisciplined⟩ :=
      append_discipline exampleThings.catalog hl exampleCalls
    rw [hafter] at hnames
    exact ⟨l, l', hget, hl, hafter, of_decide_eq_true hnames, hdisciplined⟩

/-- An entry of a primitive type has no sub-spec to be handed out, and stays although the append
fails. -/
theorem entry_left_by_failed_append :
    ∃ n n', exampleThings.Reachable n ∧
      Node.append exampleThings.catalog "b" (pure () : Edit Node Unit) n
        = .error (.notDerived "b") n' ∧
      n.contains "b" = false ∧ n'.contains "b" = true ∧
      n.isComplete = true ∧ n'.isComplete = false := by
  let operations : List Operation := [.append "a", .set "a" (.int 1)]
  obtain ⟨n, hget, htest⟩ := exampleThings.exists_of_get "int-list" (fun n =>
    let n := Operation.applyAll exampleThings.catalog operations n
    match Node.append exampleThings.catalog "b" (pure () : Edit Node Unit) n with
    | .error e n' => decide (e = .notDerived "b" ∧ n.contains "b" = false ∧
        n'.contains "b" = true ∧ n.isComplete = true ∧ n'.isComplete = false)
    | .ok _ _ => false) (by decide +kernel)
  have hreachable := (Registry.Reachable.get hget).run operations
  generalize Operation.applyAll exampleThings.catalog operations n = written at *
  dsimp only at htest
  cases happend : Node.append exampleThings.catalog "b" (pure () : Edit Node Unit) written with
  | ok u n' =>
    rw [happend] at htest
    cases htest
  | error e n' =>
    rw [happend] at htest
    obtain ⟨rfl, hrest⟩ := of_decide_eq_true htest
    exact ⟨written, n', hreachable, happend, hrest⟩

end ListCall

end SpecTree
