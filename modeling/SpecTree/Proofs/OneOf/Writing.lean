import SpecTree.Proofs.OneOf.Reading

/-!
# Writing to alternatives

What each edit of alternatives does, as an equation:

* `set_of_plan_eq_ok`: a planned write changes exactly the planned branches, and never fails;
* `select_of_plan_eq_ok`: narrowing keeps the planned branches;
* `within_of_derived`: a sub-spec is edited in the first branch that could be written, and is
  lent from there.

An edit that has no plan only settles.
-/

namespace SpecTree

variable {ν : Type}

namespace Collection

/-- The collection after a key was set, which is the collection itself if that is refused. -/
def assigned (key : String) (value : Value) (c : Collection ν) : Collection ν :=
  match c.set key value with
  | .ok c' => c'
  | .error _ => c

/-- A collection in which the key was set is what the write made of it. -/
theorem assigned_of_set {c c' : Collection ν} {key : String} {value : Value}
    (h : c.set key value = .ok c') : c.assigned key value = c' := by
  rw [assigned, h]

/-- A declared parameter that takes the value is put back with it. -/
theorem assigned_eq_insert {c : Collection ν} {key : String} {value w : Value}
    {p : Parameter ν} (h : c.parameter? key = some p) (hw : p.check value = .ok w) :
    c.assigned key value = c.insert { p with value := some w } :=
  assigned_of_set ((set_eq_ok h).2 ⟨w, hw, rfl⟩)

/-- Setting a key twice is setting it once. -/
theorem assigned_assigned (key : String) (value : Value) (c : Collection ν) :
    (c.assigned key value).assigned key value = c.assigned key value := by
  cases hp : c.parameter? key with
  | some p =>
    have hname := name_of_parameter? hp
    cases hw : p.check value with
    | ok w =>
      rw [assigned_eq_insert hp hw]
      have hfound : (c.insert { p with value := some w }).parameter? key
          = some { p with value := some w } := by
        rw [parameter?_insert, if_pos hname]
      rw [assigned_eq_insert (w := w) hfound hw, insert_insert rfl]
    | error e =>
      have hrefused : c.assigned key value = c := by
        unfold assigned
        rw [set_of_parameter? hp, Parameter.set, hw]
        rfl
      rw [hrefused, hrefused]
  | none =>
    by_cases hunknown : c.unknown = .error
    · have hrefused : c.assigned key value = c := by
        unfold assigned set
        simp only [hp, if_pos hunknown]
      rw [hrefused, hrefused]
    · have hset : c.set key value
          = ((Parameter.primitive key value.type).set value).map c.insert := by
        simp only [set, hp, if_neg hunknown]
      -- the parameter that is added holds the value from then on
      obtain ⟨q, hq⟩ : ∃ q : Parameter ν, q = Parameter.primitive key value.type := ⟨_, rfl⟩
      have hname : q.name = key := by rw [hq]; rfl
      rw [← hq] at hset
      cases hw : q.check value with
      | ok w =>
        have hadded : c.assigned key value = c.insert { q with value := some w } := by
          apply assigned_of_set
          rw [hset, Parameter.set_eq_ok.2 ⟨w, hw, rfl⟩]
          rfl
        have hfound : (c.assigned key value).parameter? key
            = some { q with value := some w } := by
          rw [hadded, parameter?_insert, if_pos hname]
        rw [assigned_eq_insert (w := w) hfound hw, hadded, insert_insert rfl]
      | error e =>
        have hrefused : c.assigned key value = c := by
          unfold assigned
          rw [hset, Parameter.set, hw]
          rfl
        rw [hrefused, hrefused]

end Collection

namespace OneOf

/-! ## Branches changed one after the other -/

/-- Set a key in the branches of a list. -/
def assignedIn (key : String) (value : Value) (is : List Nat) (o : OneOf ν) : OneOf ν :=
  { o with branches := is.foldl (fun bs i => bs.modify i (·.assigned key value)) o.branches }

/-- The branches at the places named are assigned, the others are as they were. -/
theorem branches_assignedIn (o : OneOf ν) (key : String) (value : Value) (is : List Nat)
    (i : Nat) :
    (o.assignedIn key value is).branches[i]?
      = if i ∈ is then o.branches[i]?.map (·.assigned key value) else o.branches[i]? :=
  getElem?_foldl_modify (Or.inr (Collection.assigned_assigned key value)) o.branches i

theorem length_assignedIn (o : OneOf ν) (key : String) (value : Value) (is : List Nat) :
    (o.assignedIn key value is).branches.length = o.branches.length :=
  length_foldl_modify _ _ _

/-- What a branch declares after a key was set in some of them. -/
theorem declared?_assignedIn {o : OneOf ν} {key : String} {value : Value} {is : List Nat}
    (h : ∀ i ∈ is, ∃ p w, o.declared? i key = some p ∧ p.check value = .ok w) (i : Nat)
    (k : String) :
    (o.assignedIn key value is).declared? i k
      = if i ∈ is ∧ key = k then
          (o.declared? i key).bind fun p =>
            (p.check value).toOption.map fun w => { p with value := some w }
        else o.declared? i k := by
  unfold declared?
  rw [branches_assignedIn]
  by_cases hi : i ∈ is
  · obtain ⟨p, w, hp, hw⟩ := h i hi
    obtain ⟨b, hb, hbp⟩ := declared?_eq_some.1 hp
    rw [if_pos hi, hb]
    show (b.assigned key value).parameter? k = _
    have hname : p.name = key := Collection.name_of_parameter? hbp
    rw [Collection.assigned_eq_insert hbp hw, Collection.parameter?_insert]
    by_cases hk : key = k
    · rw [if_pos (hname.trans hk), if_pos ⟨hi, hk⟩]
      show some _ = (b.parameter? key).bind _
      rw [hbp, Option.bind_some, hw]
      rfl
    · rw [if_neg fun h : p.name = k => hk (hname.symm.trans h), if_neg fun h => hk h.2]
      rfl
  · rw [if_neg hi, if_neg fun h => hi h.1]

/-- A branch that declares the key and takes the value is set. -/
theorem setBranch_of_declared? {o : OneOf ν} {key : String} {value w : Value} {i : Nat}
    {p : Parameter ν} (hp : o.declared? i key = some p) (hw : p.check value = .ok w) :
    setBranch key value i o = .ok () (o.assignedIn key value [i]) := by
  obtain ⟨b, hb, hbp⟩ := declared?_eq_some.1 hp
  have hset : b.set key value = .ok (b.assigned key value) := by
    rw [Collection.assigned_eq_insert hbp hw]
    exact (Collection.set_eq_ok hbp).2 ⟨w, hw, rfl⟩
  unfold setBranch Edit.replace
  simp only [hb, hset]
  show EStateM.Result.ok () (o.modifyBranch i fun _ => b.assigned key value) = _
  congr 1
  unfold modifyBranch assignedIn
  congr 1
  -- the branch is replaced by what it is changed to
  rw [List.foldl_cons, List.foldl_nil, ← set_eq_modify hb, ← set_eq_modify hb]

/-- Branches are set one after the other, none of which refuses. The induction is on the places. -/
theorem each_setBranch {key : String} {value : Value} {is : List Nat} {o : OneOf ν}
    (h : ∀ i ∈ is, ∃ p w, o.declared? i key = some p ∧ p.check value = .ok w) :
    Edit.each (setBranch key value) is o = .ok () (o.assignedIn key value is) := by
  induction is generalizing o with
  | nil => rfl
  | cons i is ih =>
    obtain ⟨p, w, hp, hw⟩ := h i List.mem_cons_self
    have hone : ∀ j ∈ [i], ∃ p w, o.declared? j key = some p ∧ p.check value = .ok w :=
      fun j hj => h j (List.mem_singleton.1 hj ▸ List.mem_cons_self)
    rw [Edit.each]
    refine Edit.bind_eq_ok.2 ⟨(), _, setBranch_of_declared? hp hw, ?_⟩
    rw [ih]
    · rfl
    · intro j hj
      obtain ⟨q, u, hq, hu⟩ := h j (List.mem_cons_of_mem _ hj)
      rw [declared?_assignedIn hone]
      -- a branch that comes twice takes the value twice:
      by_cases hji : j ∈ [i] ∧ key = key
      · rw [if_pos hji, hq, Option.bind_some, hu]
        exact ⟨{ q with value := some u }, u, rfl, hu⟩
      · rw [if_neg hji]
        exact ⟨q, u, hq, hu⟩

/-! ## Handing out a sub-spec -/

/-- The alternatives with a sub-spec handed out, and with what became of it in its branch. -/
def lend (o : OneOf ν) (key : String) (i : Nat) (p : Parameter ν) : OneOf ν :=
  { o with live := some (key, i) }.modifyBranch i (·.insert p)

/-- The parameter that is handed out is declared in its branch, and the others are as they were. -/
theorem declared?_lend (o : OneOf ν) (key : String) (i : Nat) (p : Parameter ν) (j : Nat)
    (k : String) :
    (o.lend key i p).declared? j k
      = if i = j ∧ p.name = k ∧ j < o.branches.length then some p else o.declared? j k :=
  declared?_modifyBranch _ i p j k

theorem length_lend (o : OneOf ν) (key : String) (i : Nat) (p : Parameter ν) :
    (o.lend key i p).branches.length = o.branches.length :=
  List.length_modify _ _ _

/-- Handing out a sub-spec commits to nothing. -/
theorem committed_lend (o : OneOf ν) (key : String) (i : Nat) (p : Parameter ν) :
    (o.lend key i p).committed = o.committed := by
  unfold committed indices
  rw [length_lend]
  rfl

/-- What was handed out is what is live. -/
theorem liveParameter?_lend {o : OneOf ν} {key : String} {i : Nat} {p p' : Parameter ν}
    (hp : o.declared? i key = some p) (hname : p'.name = p.name) :
    (o.lend key i p').liveParameter? = some (i, p') := by
  have hkey : p'.name = key := hname.trans (name_of_declared? hp)
  apply liveParameter?_eq_some.2
  rw [declared?_lend, if_pos ⟨rfl, rfl, lt_of_declared? hp⟩, hkey]
  exact ⟨rfl, rfl⟩

/-- A change of the sub-spec alone changes no name and no type. -/
theorem type_declared?_lend {o : OneOf ν} {key : String} {i : Nat} {p p' : Parameter ν}
    (hp : o.declared? i key = some p) (hname : p'.name = p.name) (htype : p'.type = p.type)
    (j : Nat) (k : String) :
    ((o.lend key i p').declared? j k).map (·.type) = (o.declared? j k).map (·.type) := by
  rw [declared?_lend]
  split
  · rename_i h
    rw [← h.1, ← h.2.1, hname, name_of_declared? hp, hp, Option.map_some, Option.map_some, htype]
  · rfl

theorem isSome_declared?_lend {o : OneOf ν} {key : String} {i : Nat} {p p' : Parameter ν}
    (hp : o.declared? i key = some p) (hname : p'.name = p.name)
    (htype : p'.type = p.type) (j : Nat) (k : String) :
    ((o.lend key i p').declared? j k).isSome = (o.declared? j k).isSome := by
  have h := congrArg Option.isSome (type_declared?_lend hp hname htype j k)
  rwa [Option.isSome_map, Option.isSome_map] at h

/-- A sub-spec is handed out where a reader looks first. -/
theorem liveFirst_lend {o : OneOf ν} {key : String} {i : Nat} {p p' : Parameter ν}
    (hi : (o.candidates key).head? = some i) (hp : o.declared? i key = some p)
    (hname : p'.name = p.name) (htype : p'.type = p.type) : (o.lend key i p').LiveFirst := by
  intro k j hlive
  cases hlive
  unfold candidates at hi ⊢
  rw [committed_lend]
  simp only [isSome_declared?_lend hp hname htype]
  exact hi

/-- Putting a parameter back unchanged changes nothing. -/
theorem modifyBranch_of_declared? {o : OneOf ν} {i : Nat} {p : Parameter ν}
    (h : o.declared? i p.name = some p) : o.modifyBranch i (·.insert p) = o := by
  obtain ⟨b, hb, hbp⟩ := declared?_eq_some.1 h
  unfold modifyBranch
  rw [modify_of_getElem? hb (Collection.insert_of_parameter? hbp)]

/-! ## Every edit begins with settling -/

variable [Judged ν]

theorem set_settle (key : String) (value : Value) (o : OneOf ν) :
    set key value o.settle = set key value o := by
  unfold set
  rw [Edit.modify_bind, Edit.modify_bind, settle_settle]

theorem select_settle (key : String) (o : OneOf ν) : select key o.settle = select key o := by
  unfold select
  rw [Edit.modify_bind, Edit.modify_bind, settle_settle]

theorem within_settle {α : Type} (key : String) (act : Edit ν α) (o : OneOf ν) :
    within key act o.settle = within key act o := by
  unfold within
  rw [Edit.modify_bind, Edit.modify_bind, settle_settle]

/-! ## Setting a key -/

/-- Without a plan a write is refused, and has settled. -/
theorem set_of_plan_eq_error {o : OneOf ν} {key : String} {value : Value} {e : TreeError}
    (h : o.plan key (some value) = .error e) : set key value o = .error e o.settle := by
  rw [← plan_settle] at h
  unfold set
  rw [Edit.modify_bind]
  exact Edit.inspect_bind_of_error (by exact h) _

/-- The branches of a plan with a value declare the key and take the value. -/
theorem check_of_plan_eq_ok {o : OneOf ν} {key : String} {value : Value} {next : List Nat}
    (h : o.plan key (some value) = .ok next) :
    ∀ i ∈ next, ∃ p w, o.declared? i key = some p ∧ p.check value = .ok w := by
  obtain ⟨rfl, -, hcheck⟩ := plan_eq_ok.1 h
  intro i hi
  obtain ⟨p, hp⟩ := Option.isSome_iff_exists.1 (List.mem_filter.1 hi).2
  have hc := hcheck value rfl i hi
  rw [checkBranch, hp] at hc
  cases hw : p.check value with
  | ok w => exact ⟨p, w, hp, hw⟩
  | error e =>
    simp only [hw] at hc
    cases hc

/-- A planned write changes the planned branches, leaves only them open, and never fails. -/
theorem set_of_plan_eq_ok {o : OneOf ν} {key : String} {value : Value} {next : List Nat}
    (h : o.plan key (some value) = .ok next) :
    set key value o = .ok () { o.settle.assignedIn key value next with active := some next } := by
  rw [← plan_settle] at h
  unfold set
  simp only [Edit.forIn_eq_each]
  rw [Edit.modify_bind]
  refine (Edit.inspect_bind_of_ok (by exact h) _).trans ?_
  show EStateM.bind (Edit.each (setBranch key value) next) _ o.settle = _
  simp only [EStateM.bind, each_setBranch (check_of_plan_eq_ok h)]
  rfl

/-- A write that succeeds was planned. -/
theorem set_eq_ok {o o' : OneOf ν} {key : String} {value : Value} :
    set key value o = .ok () o' ↔ ∃ next, o.plan key (some value) = .ok next ∧
      o' = { o.settle.assignedIn key value next with active := some next } := by
  constructor
  · intro h
    cases hplan : o.plan key (some value) with
    | error e =>
      rw [set_of_plan_eq_error hplan] at h
      cases h
    | ok next =>
      rw [set_of_plan_eq_ok hplan] at h
      cases h
      exact ⟨next, rfl, rfl⟩
  · rintro ⟨next, hplan, rfl⟩
    exact set_of_plan_eq_ok hplan

/-- A write is refused if no open branch declares the key, or if one that does refuses the
value, and only then. -/
theorem set_eq_error_iff {o : OneOf ν} {key : String} {value : Value} :
    (∃ e o', set key value o = .error e o') ↔
      o.writable key = [] ∨ ∃ i ∈ o.writable key, ∃ p, o.declared? i key = some p ∧
        ∃ e, p.check value = .error e := by
  constructor
  · rintro ⟨e, o', hset⟩
    -- if every branch took the value, there would be a plan:
    by_contra hnone
    rw [not_or] at hnone
    have hplan : o.plan key (some value) = .ok (o.writable key) := by
      refine plan_eq_ok.2 ⟨rfl, hnone.1, ?_⟩
      rintro v ⟨⟩ i hi
      unfold checkBranch
      cases hp : o.declared? i key with
      | none => rfl
      | some p =>
        cases hw : p.check value with
        | ok w => simp only [hw]; rfl
        | error e => exact absurd ⟨i, hi, p, hp, e, hw⟩ hnone.2
    rw [set_of_plan_eq_ok hplan] at hset
    cases hset
  · intro h
    cases hplan : o.plan key (some value) with
    | error e => exact ⟨e, _, set_of_plan_eq_error hplan⟩
    | ok next =>
      obtain ⟨hnext, hne, -⟩ := plan_eq_ok.1 hplan
      rcases h with hnil | ⟨i, hi, p, hp, e, he⟩
      · exact absurd hnil hne
      · rw [hnext] at hplan
        obtain ⟨q, w, hq, hw⟩ := check_of_plan_eq_ok hplan i hi
        rw [hp] at hq
        cases hq
        rw [he] at hw
        cases hw

/-- Nothing is handed out after a write. -/
theorem live_of_set_eq_ok {o o' : OneOf ν} {key : String} {value : Value}
    (h : set key value o = .ok () o') : o'.live = none := by
  obtain ⟨next, -, rfl⟩ := set_eq_ok.1 h
  exact live_settle o

/-! ## Narrowing -/

/-- Without a plan narrowing is refused, and has settled. -/
theorem select_of_plan_eq_error {o : OneOf ν} {key : String} {e : TreeError}
    (h : o.plan key none = .error e) : select key o = .error e o.settle := by
  rw [← plan_settle] at h
  unfold select
  rw [Edit.modify_bind]
  exact Edit.inspect_bind_of_error (by exact h) _

/-- With a plan, narrowing leaves open the planned branches. -/
theorem select_of_plan_eq_ok {o : OneOf ν} {key : String} {next : List Nat}
    (h : o.plan key none = .ok next) :
    select key o = .ok () { o.settle with active := some next } := by
  rw [← plan_settle] at h
  unfold select
  rw [Edit.modify_bind]
  exact Edit.inspect_bind_of_ok (by exact h) _

/-- Narrowing that succeeds was planned. -/
theorem select_eq_ok {o o' : OneOf ν} {key : String} :
    select key o = .ok () o' ↔ ∃ next, o.plan key none = .ok next ∧
      o' = { o.settle with active := some next } := by
  constructor
  · intro h
    cases hplan : o.plan key none with
    | error e =>
      rw [select_of_plan_eq_error hplan] at h
      cases h
    | ok next =>
      rw [select_of_plan_eq_ok hplan] at h
      cases h
      exact ⟨next, rfl, rfl⟩
  · rintro ⟨next, hplan, rfl⟩
    exact select_of_plan_eq_ok hplan

/-! ## Editing a sub-spec -/

/-- The owner is the first branch that could be written. -/
theorem owner_eq_ok {o : OneOf ν} {key : String} {i : Nat} :
    o.owner key = .ok i ↔ (o.writable key).head? = some i := by
  unfold owner
  rw [plan_none]
  cases hw : o.writable key with
  | nil => simp
  | cons j js => simp

/-- No branch owns a key that none could write. -/
theorem owner_of_writable_eq_nil {o : OneOf ν} {key : String} (h : o.writable key = []) :
    o.owner key = .error (.prunedBranch key) := by
  unfold owner
  rw [plan_none, if_pos h]

/-- Without a branch that could be written, no sub-spec is handed out. -/
theorem within_of_writable_eq_nil {α : Type} {o : OneOf ν} {key : String}
    (h : o.writable key = []) (act : Edit ν α) :
    within key act o = .error (.prunedBranch key) o.settle := by
  have howner := owner_of_writable_eq_nil ((writable_settle o key).trans h)
  unfold within
  rw [Edit.modify_bind]
  exact Edit.inspect_bind_of_error (by exact howner) _

/-- The edit of a sub-spec in the first branch that could be written. -/
theorem within_of_head {α : Type} {o : OneOf ν} {key : String} {i : Nat} {p : Parameter ν}
    (hi : (o.writable key).head? = some i) (hp : o.settle.declared? i key = some p)
    (act : Edit ν α) :
    within key act o
      = Edit.zoom (fun _ => .ok p) (fun p o => o.modifyBranch i (·.insert p))
          (Parameter.within act)
          (if p.isPrimitive then o.settle else { o.settle with live := some (key, i) }) := by
  have howner : o.settle.owner key = .ok i := by
    rw [owner_eq_ok, writable_settle, hi]
  unfold within
  rw [Edit.modify_bind]
  refine (Edit.inspect_bind_of_ok (by exact howner) _).trans ?_
  -- only a slot for a sub-spec is marked as handed out:
  rw [Edit.modify_bind]
  have hany : (o.settle.declared? i key).any (!·.isPrimitive) = !p.isPrimitive := by
    rw [hp]
    rfl
  rw [hany]
  unfold Edit.zoom
  cases hprim : p.isPrimitive with
  | true =>
    simp only [Bool.not_true, Bool.false_eq_true, if_false, if_true, hp]
  | false =>
    have hlive : ({ o.settle with live := some (key, i) } : OneOf ν).declared? i key = some p := hp
    simp only [Bool.not_false, Bool.false_eq_true, if_false, if_true, hlive]

/-- A key of a primitive type holds no sub-spec to be edited. -/
theorem within_of_isPrimitive {α : Type} {o : OneOf ν} {key : String} {i : Nat}
    {p : Parameter ν} (hi : (o.writable key).head? = some i)
    (hp : o.settle.declared? i key = some p) (hprim : p.isPrimitive) (act : Edit ν α) :
    within key act o = .error (.notDerived p.name) o.settle := by
  obtain ⟨t, ht⟩ := Parameter.isPrimitive_iff.1 hprim
  have hput : o.settle.modifyBranch i (·.insert p) = o.settle :=
    modifyBranch_of_declared? (name_of_declared? hp ▸ hp)
  rw [within_of_head hi hp, if_pos hprim]
  simp only [Edit.zoom, Parameter.within, Parameter.subSpec, ht, hput]

/-- A sub-spec that is missing cannot be edited, but counts as handed out. -/
theorem within_of_node_eq_none {α : Type} {o : OneOf ν} {key spec : String} {i : Nat}
    {p : Parameter ν} (hi : (o.writable key).head? = some i)
    (hp : o.settle.declared? i key = some p) (ht : p.type = .spec spec) (hn : p.node = none)
    (act : Edit ν α) :
    within key act o = .error (.unknownKey p.name spec) (o.settle.lend key i p) := by
  have hprim := Parameter.isPrimitive_eq_false_iff.2 ⟨spec, ht⟩
  rw [within_of_head hi hp, hprim]
  simp only [Edit.zoom, Parameter.within, Parameter.subSpec, ht, hn]
  rfl

/-- A sub-spec is edited in the first branch that could be written, and lent from there. -/
theorem within_of_derived {α : Type} {o : OneOf ν} {key spec : String} {i : Nat}
    {p : Parameter ν} {m : ν} (hi : (o.writable key).head? = some i)
    (hp : o.settle.declared? i key = some p) (ht : p.type = .spec spec)
    (hn : p.node = some m) (act : Edit ν α) :
    within key act o
      = Edit.through (fun m => o.settle.lend key i { p with node := some m }) act m := by
  have hprim := Parameter.isPrimitive_eq_false_iff.2 ⟨spec, ht⟩
  rw [within_of_head hi hp, hprim]
  simp only [Edit.zoom, Parameter.within, Parameter.subSpec, ht, hn, Edit.through]
  cases act m <;> rfl

/-- Either the edit is refused and the alternatives are settled, or a slot for a sub-spec is
handed out, which may yet be empty. -/
theorem within_cases (o : OneOf ν) (key : String) :
    Edit.Refuses (within key) o o.settle ∨
      ∃ i p, (o.writable key).head? = some i ∧ o.settle.declared? i key = some p ∧
        p.isPrimitive = false ∧
        ((p.node = none ∧ Edit.Refuses (within key) o (o.settle.lend key i p)) ∨
          ∃ m, p.node = some m ∧ Edit.Reaches (within key) o m
            fun m => o.settle.lend key i { p with node := some m }) := by
  cases hhead : (o.writable key).head? with
  | none => exact Or.inl ⟨_, fun act =>
    within_of_writable_eq_nil (List.head?_eq_none_iff.1 hhead) act⟩
  | some i =>
    obtain ⟨p, hp⟩ : ∃ p, o.settle.declared? i key = some p := by
      rw [← writable_settle] at hhead
      exact Option.isSome_iff_exists.1 (List.mem_filter.1 (List.mem_of_head? hhead)).2
    cases ht : p.type with
    | primitive t =>
      have hprim := Parameter.isPrimitive_iff.2 ⟨t, ht⟩
      exact Or.inl ⟨_, fun act => within_of_isPrimitive hhead hp hprim act⟩
    | spec spec =>
      have hprim := Parameter.isPrimitive_eq_false_iff.2 ⟨spec, ht⟩
      refine Or.inr ⟨i, p, rfl, hp, hprim, ?_⟩
      cases hn : p.node with
      | none => exact Or.inl ⟨rfl, _, fun act => within_of_node_eq_none hhead hp ht hn act⟩
      | some m => exact Or.inr ⟨m, rfl, fun act => within_of_derived hhead hp ht hn act⟩

end OneOf

end SpecTree
