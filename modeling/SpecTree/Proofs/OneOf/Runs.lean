import SpecTree.Proofs.OneOf.Writing
import SpecTree.Tree.NodeEdit

/-!
# Runs of writes to alternatives

A run is a sequence of writes, each of which may fail. Those that succeed make demands: a
branch has to declare the key, and for a sub-spec with the type of the one that was written.
Which branches are open, what they hold and which writes fail is a function of the demands:

* `Meaning` says so for a single run, `meaning_of_run` that it is so;
* `agree_of_perm`: the order in which distinct keys are set makes no difference.

The proof carries `Traced` along a run. It is kept by settling, and so every write can be
looked at as one to alternatives that are settled.
-/

namespace SpecTree

namespace OneOf

variable {ν : Type}

/-! ## Demands -/

/-- What a write that succeeded demands of a branch that is to stay open. -/
inductive Demand where
  /-- It declares the key that was set to the value. -/
  | value (key : String) (value : Value)
  /-- It declares the key under which a sub-spec was written, with its type. -/
  | subSpec (key : String) (type : TypeRef)

/-- Does a branch meet a demand? -/
def meets (o : OneOf ν) (i : Nat) : Demand → Bool
  | .value key _ => (o.declared? i key).isSome
  | .subSpec key type => (o.declared? i key).map (·.type) = some type

/-- The branches that meet all demands, in increasing order. -/
def viable (o : OneOf ν) (ds : List Demand) : List Nat :=
  o.indices.filter fun i => ds.all (o.meets i)

/-- The last value that a key was set to; the latest demand comes first. -/
def lastValue? (key : String) : List Demand → Option Value
  | [] => none
  | .value k v :: ds => if k = key then some v else lastValue? key ds
  | .subSpec .. :: ds => lastValue? key ds

theorem viable_nil (o : OneOf ν) : o.viable [] = o.indices :=
  List.filter_eq_self.2 fun _ _ => rfl

theorem viable_cons (o : OneOf ν) (d : Demand) (ds : List Demand) :
    o.viable (d :: ds) = (o.viable ds).filter fun i => o.meets i d := by
  unfold viable
  rw [List.filter_filter]
  exact List.filter_congr fun i _ => List.all_cons

theorem meets_of_mem_viable {o : OneOf ν} {ds : List Demand} {i : Nat} (h : i ∈ o.viable ds)
    {d : Demand} (hd : d ∈ ds) : o.meets i d :=
  List.all_eq_true.1 (List.mem_filter.1 h).2 d hd

/-! ## Runs -/

section Runs

variable [Judged ν]

/-- `Run start o ds`: from `start`, writes that each succeeded or failed have led to `o`, and
those that succeeded have made the demands `ds`. Every change of a sub-spec has left it with a
value. -/
inductive Run (start : OneOf ν) : OneOf ν → List Demand → Prop
  | start : Run start start []
  | set {o o' : OneOf ν} {ds : List Demand} {key : String} {value : Value} :
      Run start o ds → OneOf.set key value o = .ok () o' → Run start o' (.value key value :: ds)
  | setFailed {o o' : OneOf ν} {ds : List Demand} {key : String} {value : Value}
      {e : TreeError} :
      Run start o ds → OneOf.set key value o = .error e o' → Run start o' ds
  | edit {o o' : OneOf ν} {ds : List Demand} {key : String} {change : ν → ν} {i : Nat}
      {p : Parameter ν} :
      Run start o ds → o.owner key = .ok i → o.declared? i key = some p →
      within key (modify change) o = .ok () o' →
      (o'.declared? i key).any Parameter.hasValue → Run start o' (.subSpec key p.type :: ds)
  | editFailed {o o' : OneOf ν} {ds : List Demand} {key : String} {change : ν → ν}
      {e : TreeError} :
      Run start o ds → within key (modify change) o = .error e o' → Run start o' ds

/-- What the demands of a run say about the alternatives that it has led to. -/
structure Meaning (start o : OneOf ν) (ds : List Demand) : Prop where
  /-- No branch is chosen before the first write that succeeds; then those are open that meet
  all demands. -/
  openBranches : o.openBranches? = if ds = [] then none else some (start.viable ds)
  viable_ne_nil : start.viable ds ≠ []
  /-- A sub-spec is written in the first open branch that declares its key, and has there the type
  that it was declared with. -/
  owner : ∀ key i, o.owner key = .ok i ↔
    ((start.viable ds).filter fun i => (start.declared? i key).isSome).head? = some i
  types : ∀ i key, (o.declared? i key).map (·.type) = (start.declared? i key).map (·.type)
  /-- An open branch holds the last value that a key was set to, as one of its own type. -/
  values : ∀ i ∈ start.viable ds, ∀ key v, lastValue? key ds = some v →
    ∃ p t w, start.declared? i key = some p ∧ p.type = .primitive t ∧ v.coerce t = .ok w ∧
      o.declared? i key = some { p with value := some w }
  /-- A write fails if no open branch declares the key, or if one that does refuses the value,
  and only then. -/
  set_fails : ∀ key v, (∃ e o', OneOf.set key v o = .error e o') ↔
    (∀ i ∈ start.viable ds, start.declared? i key = none) ∨
      ∃ i ∈ start.viable ds, ∃ p, start.declared? i key = some p ∧ ∃ e, p.check v = .error e

/-! ## What a run keeps -/

/-- What holds of alternatives along a run. -/
structure Traced (start o : OneOf ν) (ds : List Demand) : Prop where
  length : o.branches.length = start.branches.length
  types : ∀ i k, (o.declared? i k).map (·.type) = (start.declared? i k).map (·.type)
  openBranches : o.openBranches? = if ds = [] then none else some (start.viable ds)
  viable_ne_nil : start.viable ds ≠ []
  derived : ∀ k t, .subSpec k t ∈ ds → t.primitive? = none
  values : ∀ i ∈ start.viable ds, ∀ k v, lastValue? k ds = some v →
    ∃ p w, start.declared? i k = some p ∧ p.check v = .ok w ∧
      o.declared? i k = some { p with value := some w }
  /-- A key that was not written is as it was. -/
  others : ∀ i ∈ start.viable ds, ∀ k, lastValue? k ds = none → (∀ t, .subSpec k t ∉ ds) →
    o.declared? i k = start.declared? i k
  live : ∀ owner p, o.liveParameter? = some (owner, p) →
    p.isPrimitive = false ∧ (p.hasValue → ∃ t, .subSpec p.name t ∈ ds)

namespace Traced

variable {start o : OneOf ν} {ds : List Demand}

theorem visible_eq (h : Traced start o ds) : o.visible = start.viable ds := by
  rw [visible, h.openBranches]
  split
  · rename_i hds
    rw [hds, viable_nil, indices, indices, h.length]
    rfl
  · rfl

/-- The same keys are declared from start to end. -/
theorem isSome_declared? (h : Traced start o ds) (i : Nat) (k : String) :
    (o.declared? i k).isSome = (start.declared? i k).isSome := by
  have htypes := congrArg Option.isSome (h.types i k)
  rwa [Option.isSome_map, Option.isSome_map] at htypes

theorem writable_eq (h : Traced start o ds) (k : String) :
    o.writable k = (start.viable ds).filter fun i => (start.declared? i k).isSome := by
  rw [writable, h.visible_eq]
  exact List.filter_congr fun i _ => h.isSome_declared? i k

/-- A parameter has the name and the type that it had at the start. -/
theorem check_eq (h : Traced start o ds) {i : Nat} {k : String} {p q : Parameter ν}
    (hp : start.declared? i k = some p) (hq : o.declared? i k = some q) (v : Value) :
    q.check v = p.check v := by
  have htype := h.types i k
  rw [hp, hq] at htype
  exact Parameter.check_congr ((name_of_declared? hq).trans (name_of_declared? hp).symm)
    (Option.some.inj htype) v

/-- A key that was set is no sub-spec's. -/
theorem isPrimitive_of_lastValue? (h : Traced start o ds) {i : Nat} (hi : i ∈ start.viable ds)
    {k : String} {v : Value} (hv : lastValue? k ds = some v) {q : Parameter ν}
    (hq : o.declared? i k = some q) : q.isPrimitive := by
  obtain ⟨p, w, hp, hw, -⟩ := h.values i hi k v hv
  rw [← h.check_eq hp hq] at hw
  obtain ⟨t, ht, -⟩ := Parameter.check_eq_ok.1 hw
  exact Parameter.isPrimitive_iff.2 ⟨t, ht⟩

/-- What an open branch holds under a key that takes a value is the parameter that it began
with, up to the value. -/
theorem origin_of_check (h : Traced start o ds) {i : Nat} (hi : i ∈ start.viable ds) {k : String}
    {q : Parameter ν} (hq : o.declared? i k = some q) {v w : Value} (hw : q.check v = .ok w) :
    ∃ p, start.declared? i k = some p ∧
      { q with value := some w } = { p with value := some w } := by
  cases hlast : lastValue? k ds with
  | some u =>
    obtain ⟨p, u', hp, -, hheld⟩ := h.values i hi k u hlast
    rw [hq] at hheld
    cases hheld
    exact ⟨p, hp, rfl⟩
  | none =>
    obtain ⟨t, ht, -⟩ := Parameter.check_eq_ok.1 hw
    -- a key that takes values is no sub-spec's:
    have hsub : ∀ t, .subSpec k t ∉ ds := by
      intro t' ht'
      have hmeets := meets_of_mem_viable hi ht'
      rw [meets, decide_eq_true_iff, ← h.types i k, hq, Option.map_some, ht] at hmeets
      have hderived := h.derived k t' ht'
      rw [← Option.some.inj hmeets] at hderived
      cases hderived
    have hsame := h.others i hi k hlast hsub
    rw [hq] at hsame
    exact ⟨q, hsame.symm, rfl⟩

theorem settle (h : Traced start o ds) : Traced start o.settle ds where
  length := (length_settle o).trans h.length
  types i k := (type_declared?_settle o i k).trans (h.types i k)
  openBranches := (openBranches?_settle o).trans h.openBranches
  viable_ne_nil := h.viable_ne_nil
  derived := h.derived
  values := by
    intro i hi k v hv
    obtain ⟨p, w, hp, hw, hheld⟩ := h.values i hi k v hv
    refine ⟨p, w, hp, hw, ?_⟩
    rcases settle_cases o with ⟨owner, l, hl, hval⟩ | ⟨heq, -⟩
    · rw [declared?_settle_of_hasValue hl hval]
      split
      · -- the copied sub-spec cannot stand under a key that was set
        rename_i hik
        obtain ⟨-, q, hq, htype⟩ := (mem_sharing (liveParameter?_eq_some.1 hl).2).1 hik.1
        rw [hik.2] at hq
        have hprim := h.isPrimitive_of_lastValue? hi hv hq
        rw [Parameter.isPrimitive, htype] at hprim
        rw [← Parameter.isPrimitive, (h.live owner l hl).1] at hprim
        cases hprim
      · exact hheld
    · rw [heq]
      exact hheld
  others := by
    intro i hi k hv hsub
    rcases settle_cases o with ⟨owner, l, hl, hval⟩ | ⟨heq, -⟩
    · rw [declared?_settle_of_hasValue hl hval, if_neg]
      · exact h.others i hi k hv hsub
      · rintro ⟨-, hname⟩
        obtain ⟨t, ht⟩ := (h.live owner l hl).2 hval
        exact hsub t (hname ▸ ht)
    · rw [heq]
      exact h.others i hi k hv hsub
  live := by
    intro owner p hl
    rw [liveParameter?_of_live_eq_none (live_settle o)] at hl
    cases hl

/-! ## What one write does -/

/-- A key that is set narrows the branches to those that declare it. -/
theorem set {key : String} {value : Value} {o' : OneOf ν} (h : Traced start o ds)
    (hset : OneOf.set key value o = .ok () o') : Traced start o' (.value key value :: ds) := by
  have hs := h.settle
  obtain ⟨next, hplan, rfl⟩ := set_eq_ok.1 hset
  obtain ⟨hnext, hne, -⟩ := plan_eq_ok.1 hplan
  have hviable : start.viable (.value key value :: ds) = next := by
    rw [viable_cons, hnext, h.writable_eq]
    rfl
  have hcheck := check_of_plan_eq_ok ((plan_settle o key (some value)).trans hplan)
  have hdecl := declared?_assignedIn hcheck
  have hmem : ∀ i ∈ next, i ∈ start.viable ds := fun i hi => by
    rw [← hviable, viable_cons] at hi
    exact (List.mem_filter.1 hi).1
  constructor
  case length => exact (length_assignedIn _ _ _ _).trans hs.length
  case types =>
    intro i k
    refine Eq.trans ?_ (hs.types i k)
    show ((o.settle.assignedIn key value next).declared? i k).map (·.type) = _
    rw [hdecl]
    split
    · rename_i hik
      obtain ⟨q, w, hq, hw⟩ := hcheck i hik.1
      rw [← hik.2, hq, Option.bind_some, hw]
      rfl
    · rfl
  case openBranches =>
    refine Eq.trans (openBranches?_of_live_eq_none ?_) ?_
    · exact live_settle o
    · rw [if_neg (List.cons_ne_nil _ _), hviable]
  case viable_ne_nil => rwa [hviable, hnext]
  case derived =>
    intro k t hmem
    rcases List.mem_cons.1 hmem with hd | hd
    · cases hd
    · exact h.derived k t hd
  case values =>
    intro i hi k v hv
    rw [hviable] at hi
    show ∃ p w, _ ∧ _ ∧ (o.settle.assignedIn key value next).declared? i k = _
    rw [hdecl]
    -- the key that is set now, and those that were set before:
    by_cases hk : key = k
    · subst hk
      rw [lastValue?, if_pos rfl] at hv
      cases hv
      obtain ⟨q, w, hq, hw⟩ := hcheck i hi
      rw [if_pos ⟨hi, rfl⟩, hq, Option.bind_some, hw]
      obtain ⟨p, hp, hheld⟩ := hs.origin_of_check (hmem i hi) hq hw
      exact ⟨p, w, hp, (hs.check_eq hp hq value).symm.trans hw, congrArg some hheld⟩
    · rw [lastValue?, if_neg hk] at hv
      rw [if_neg fun h => hk h.2]
      exact hs.values i (hmem i hi) k v hv
  case others =>
    intro i hi k hv hsub
    rw [hviable] at hi
    show (o.settle.assignedIn key value next).declared? i k = _
    rw [lastValue?] at hv
    split at hv
    · cases hv
    · rename_i hk
      rw [hdecl, if_neg fun h => hk h.2]
      exact hs.others i (hmem i hi) k hv fun t ht => hsub t (List.mem_cons_of_mem _ ht)
  case live =>
    intro owner p hl
    rw [liveParameter?_of_live_eq_none] at hl
    · cases hl
    · exact live_settle o

section Lend

variable {s : OneOf ν} {key : String} {i : Nat} {p p' : Parameter ν}

/-- The slot of a sub-spec that still holds no value is handed out, and nothing else happens. -/
theorem lend_of_not_hasValue (h : Traced start s ds) (hlive : s.live = none)
    (hp : s.declared? i key = some p) (hprim : p.isPrimitive = false) (hv : p.hasValue = false) :
    Traced start (s.lend key i p) ds := by
  -- the parameter is put back as it was, and only marked as live:
  have hsame : s.lend key i p = { s with live := some (key, i) } := by
    have hput : s.modifyBranch i (·.insert p) = s :=
      modifyBranch_of_declared? (name_of_declared? hp ▸ hp)
    exact congrArg (fun o : OneOf ν => { o with live := some (key, i) }) hput
  have hl := liveParameter?_lend hp (rfl : p.name = p.name)
  constructor
  case length => exact (length_lend _ _ _ _).trans h.length
  case types => exact fun j k => (type_declared?_lend hp rfl rfl j k).trans (h.types j k)
  case openBranches =>
    rw [← h.openBranches, openBranches?_of_live_eq_none hlive, openBranches?_of_not_hasValue]
    · rfl
    · intro owner q hq
      rw [hl] at hq
      cases hq
      exact hv
  case viable_ne_nil => exact h.viable_ne_nil
  case derived => exact h.derived
  case values => rw [hsame]; exact h.values
  case others => rw [hsame]; exact h.others
  case live =>
    intro owner q hq
    rw [hl] at hq
    cases hq
    exact ⟨hprim, fun hval => by rw [hv] at hval; cases hval⟩

/-- A sub-spec that was left with a value narrows the branches to those that declare its key
with its type. -/
theorem lend_of_hasValue (h : Traced start s ds) (hlive : s.live = none)
    (hi : i ∈ start.viable ds) (hp : s.declared? i key = some p) (hprim : p.isPrimitive = false)
    (hname : p'.name = p.name) (htype : p'.type = p.type) (hv : p'.hasValue = true) :
    Traced start (s.lend key i p') (.subSpec key p'.type :: ds) := by
  have hkey : p'.name = key := hname.trans (name_of_declared? hp)
  have hprim' : p'.isPrimitive = false := by rw [Parameter.isPrimitive, htype]; exact hprim
  have hl := liveParameter?_lend hp hname
  have htypes : ∀ j k, ((s.lend key i p').declared? j k).map (·.type)
      = (start.declared? j k).map (·.type) :=
    fun j k => (type_declared?_lend hp hname htype j k).trans (h.types j k)
  -- the branches that share the sub-spec are those that meet the new demand:
  have hopen : (s.lend key i p').sharing p'.name i = start.viable (.subSpec key p'.type :: ds) := by
    have howner := (liveParameter?_eq_some.1 hl).2
    rw [sharing, howner, committed_lend, ← visible_of_live_eq_none hlive, h.visible_eq,
      viable_cons, hkey]
    apply List.filter_congr
    intro j _
    rw [htypes]
    rfl
  -- its own branch meets it:
  have hown : i ∈ start.viable (.subSpec key p'.type :: ds) := by
    rw [viable_cons]
    refine List.mem_filter.2 ⟨hi, decide_eq_true ?_⟩
    rw [← h.types, hp, Option.map_some, htype]
  have hmem : ∀ j ∈ start.viable (.subSpec key p'.type :: ds), j ∈ start.viable ds :=
    fun j hj => by rw [viable_cons] at hj; exact (List.mem_filter.1 hj).1
  constructor
  case length => exact (length_lend _ _ _ _).trans h.length
  case types => exact htypes
  case openBranches =>
    rw [openBranches?_of_hasValue hl hv, if_neg (List.cons_ne_nil _ _), hopen]
  case viable_ne_nil => exact List.ne_nil_of_mem hown
  case derived =>
    intro k t ht
    rcases List.mem_cons.1 ht with hd | hd
    · cases hd
      exact Option.not_isSome_iff_eq_none.1 (by rw [← Parameter.isPrimitive, hprim']; decide)
    · exact h.derived k t hd
  case values =>
    intro j hj k v hval
    obtain ⟨q, w, hq, hw, hheld⟩ := h.values j (hmem j hj) k v hval
    refine ⟨q, w, hq, hw, ?_⟩
    rw [declared?_lend, if_neg]
    · exact hheld
    · -- the key of a sub-spec was never set to a value
      rintro ⟨rfl, hk, -⟩
      rw [← hk, hkey] at hval
      have := h.isPrimitive_of_lastValue? hi hval hp
      rw [hprim] at this
      cases this
  case others =>
    intro j hj k hval hsub
    rw [declared?_lend, if_neg]
    · exact h.others j (hmem j hj) k hval fun t ht => hsub t (List.mem_cons_of_mem _ ht)
    · rintro ⟨-, hk, -⟩
      rw [← hk, hkey] at hsub
      exact hsub _ List.mem_cons_self
  case live =>
    intro owner q hq
    rw [hl] at hq
    cases hq
    refine ⟨hprim', fun _ => ⟨p'.type, ?_⟩⟩
    rw [hkey]
    exact List.mem_cons_self

end Lend

/-- A write of a sub-spec that is refused narrows nothing. -/
theorem within_error {key : String} {change : ν → ν} {e : TreeError} {o' : OneOf ν}
    (h : Traced start o ds) (hwithin : within key (modify change) o = .error e o') :
    Traced start o' ds := by
  rcases within_cases o key with
    ⟨e', herr⟩ | ⟨i, p, -, hp, hprim, ⟨hn, e', herr⟩ | ⟨m, -, hok⟩⟩
  · cases (herr _).symm.trans hwithin
    exact h.settle
  · cases (herr _).symm.trans hwithin
    exact h.settle.lend_of_not_hasValue (live_settle o) hp hprim
      (Parameter.hasValue_of_node_eq_none hprim hn)
  · cases (hok _).symm.trans hwithin

/-- A write that leaves a sub-spec with a value narrows the branches to those that share it. -/
theorem within_ok {key : String} {change : ν → ν} {o' : OneOf ν} {i : Nat} {p : Parameter ν}
    (h : Traced start o ds) (howner : o.owner key = .ok i) (hp : o.declared? i key = some p)
    (hwithin : within key (modify change) o = .ok () o')
    (hv : (o'.declared? i key).any Parameter.hasValue = true) :
    Traced start o' (.subSpec key p.type :: ds) := by
  have hhead := owner_eq_ok.1 howner
  rcases within_cases o key with
    ⟨e, herr⟩ | ⟨j, q, hj, hq, hprim, ⟨-, e, herr⟩ | ⟨m, -, hok⟩⟩
  · cases (herr _).symm.trans hwithin
  · cases (herr _).symm.trans hwithin
  · rw [hhead] at hj
    cases hj
    cases (hok _).symm.trans hwithin
    obtain rfl := name_of_declared? hq
    have hl : (o.settle.lend q.name i { q with node := some (change m) }).liveParameter?
        = some (i, { q with node := some (change m) }) := liveParameter?_lend hq rfl
    have hown := (liveParameter?_eq_some.1 hl).2
    rw [hown] at hv
    -- settling does not change the type that a branch declares:
    have htype : q.type = p.type := by
      have hsettle := type_declared?_settle o i q.name
      rw [hp, hq] at hsettle
      exact Option.some.inj hsettle
    have hmem : i ∈ start.viable ds := by
      have hw := List.mem_of_head? hhead
      rw [h.writable_eq] at hw
      exact (List.mem_filter.1 hw).1
    rw [← htype]
    exact h.settle.lend_of_hasValue (live_settle o) hmem hq hprim rfl rfl hv

end Traced

/-! ## Whole runs -/

/-- What is kept along a run is what the demands say. -/
theorem Traced.meaning {start o : OneOf ν} {ds : List Demand} (h : Traced start o ds) :
    Meaning start o ds where
  openBranches := h.openBranches
  viable_ne_nil := h.viable_ne_nil
  owner := by
    intro k i
    rw [owner_eq_ok, h.writable_eq]
  types := h.types
  values := by
    intro i hi k v hv
    obtain ⟨p, w, hp, hw, hheld⟩ := h.values i hi k v hv
    obtain ⟨t, ht, hcoerce⟩ := Parameter.check_eq_ok.1 hw
    exact ⟨p, t, w, hp, ht, hcoerce, hheld⟩
  set_fails := by
    intro k v
    rw [set_eq_error_iff, h.writable_eq, List.filter_eq_nil_iff]
    simp only [List.mem_filter]
    constructor
    · -- the check of a branch is the one it made at the start, as the types stay:
      rintro (hnil | ⟨i, ⟨hi, hsome⟩, q, hq, e, he⟩)
      · exact Or.inl fun i hi => Option.not_isSome_iff_eq_none.1 (hnil i hi)
      · obtain ⟨p, hp⟩ := Option.isSome_iff_exists.1 hsome
        exact Or.inr ⟨i, hi, p, hp, e, (h.check_eq hp hq v).symm.trans he⟩
    · rintro (hnone | ⟨i, hi, p, hp, e, he⟩)
      · exact Or.inl fun i hi => Option.not_isSome_iff_eq_none.2 (hnone i hi)
      · have hsome : (start.declared? i k).isSome := by rw [hp]; rfl
        obtain ⟨q, hq⟩ := Option.isSome_iff_exists.1 ((h.isSome_declared? i k).trans hsome)
        exact Or.inr ⟨i, ⟨hi, hsome⟩, q, hq, e, (h.check_eq hp hq v).trans he⟩

theorem traced_of_run {start o : OneOf ν} {ds : List Demand} (hlive : start.live = none)
    (hactive : start.active = none) (hne : start.branches ≠ []) (h : Run start o ds) :
    Traced start o ds := by
  induction h with
  | start =>
    constructor
    case length => rfl
    case types => exact fun _ _ => rfl
    case openBranches => rw [openBranches?_of_live_eq_none hlive, hactive, if_pos rfl]
    case viable_ne_nil =>
      rw [viable_nil, indices]
      exact fun h => hne (List.length_eq_zero_iff.1 (List.range_eq_nil.1 h))
    case derived => exact fun _ _ h => absurd h List.not_mem_nil
    case values => intro _ _ _ _ h; cases h
    case others => exact fun _ _ _ _ _ => rfl
    case live =>
      intro owner p hl
      rw [liveParameter?_of_live_eq_none hlive] at hl
      cases hl
  | set _ hset ih => exact ih.set hset
  -- a refused write settles all the same:
  | setFailed _ hset ih =>
    rename_i o o' ds key value e _
    cases hplan : o.plan key (some value) with
    | ok next => rw [set_of_plan_eq_ok hplan] at hset; cases hset
    | error e' =>
      rw [set_of_plan_eq_error hplan] at hset
      cases hset
      exact ih.settle
  | edit _ howner hp hwithin hv ih => exact ih.within_ok howner hp hwithin hv
  | editFailed _ hwithin ih => exact ih.within_error hwithin

/-! ## The order of writes -/

/-- Set keys one after the other. -/
def setAll (calls : List (String × Value)) : Edit (OneOf ν) Unit :=
  Edit.each (fun call => OneOf.set call.1 call.2) calls

/-- What calls demand that all succeed; the latest comes first. -/
def demandsOf (calls : List (String × Value)) : List Demand :=
  calls.reverse.map fun call => .value call.1 call.2

omit [Judged ν] in
theorem viable_congr {start : OneOf ν} {ds ds' : List Demand} (h : ∀ d, d ∈ ds ↔ d ∈ ds') :
    start.viable ds = start.viable ds' := by
  apply List.filter_congr
  intro i _
  rw [Bool.eq_iff_iff, List.all_eq_true, List.all_eq_true]
  simp only [h]

/-- With distinct keys, the last value of a key is the only one. -/
theorem lastValue?_eq_some {k : String} {v : Value} {calls : List (String × Value)}
    (h : (calls.map (·.1)).Nodup) :
    lastValue? k (calls.map fun call => .value call.1 call.2) = some v ↔ (k, v) ∈ calls := by
  induction calls with
  | nil => simp [lastValue?]
  | cons call calls ih =>
    obtain ⟨key, value⟩ := call
    rw [List.map_cons, List.nodup_cons] at h
    rw [List.map_cons, lastValue?, List.mem_cons]
    split
    · rename_i hk
      subst hk
      have hnot : (key, v) ∉ calls := fun hmem => h.1 (List.mem_map.2 ⟨_, hmem, rfl⟩)
      simp [hnot, eq_comm]
    · rename_i hk
      rw [ih h.2]
      simp [Ne.symm hk]

theorem run_of_setAll {start o o' : OneOf ν} {ds : List Demand} {calls : List (String × Value)}
    (h : Run start o ds) (hall : setAll calls o = .ok () o') :
    Run start o' (demandsOf calls ++ ds) := by
  induction calls generalizing o ds with
  | nil =>
    cases hall
    exact h
  | cons call calls ih =>
    obtain ⟨⟨⟩, t, hset, hrest⟩ := Edit.bind_eq_ok.1 hall
    have hrun := ih (.set h hset) hrest
    rw [demandsOf, List.reverse_cons, List.map_append, List.append_assoc]
    exact hrun

theorem live_of_setAll_eq_ok {o o' : OneOf ν} {calls : List (String × Value)}
    (hlive : o.live = none) (h : setAll calls o = .ok () o') : o'.live = none := by
  induction calls generalizing o with
  | nil =>
    cases h
    exact hlive
  | cons call calls ih =>
    obtain ⟨⟨⟩, t, hset, hrest⟩ := Edit.bind_eq_ok.1 h
    exact ih (live_of_set_eq_ok hset) hrest

/-- Alternatives that leave the same branches open, with the same in them. -/
structure Agree (o o' : OneOf ν) : Prop where
  openBranches : o.openBranches? = o'.openBranches?
  declared : ∀ i ∈ o.visible, ∀ k, o.declared? i k = o'.declared? i k
  parameter : ∀ k, o.parameter? k = o'.parameter? k

/-- What is kept along two runs agrees if both set the same values and write no sub-spec. -/
theorem Traced.agree {start o o' : OneOf ν} {ds ds' : List Demand} (h : Traced start o ds)
    (h' : Traced start o' ds') (hlive : o.live = none) (hlive' : o'.live = none)
    (hmem : ∀ d, d ∈ ds ↔ d ∈ ds')
    (hlast : ∀ k v, lastValue? k ds = some v ↔ lastValue? k ds' = some v)
    (hsub : ∀ k t, .subSpec k t ∉ ds) : Agree o o' := by
  have hviable : start.viable ds = start.viable ds' := viable_congr hmem
  have hdecl : ∀ i ∈ start.viable ds, ∀ k, o.declared? i k = o'.declared? i k := by
    intro i hi k
    have hi' : i ∈ start.viable ds' := hviable ▸ hi
    -- a key was written last with the same value in both runs, or in neither:
    cases hv : lastValue? k ds with
    | some v =>
      obtain ⟨p, w, hp, hw, hheld⟩ := h.values i hi k v hv
      obtain ⟨p', w', hp', hw', hheld'⟩ := h'.values i hi' k v ((hlast k v).1 hv)
      rw [hp] at hp'
      cases hp'
      rw [hw] at hw'
      cases hw'
      rw [hheld, hheld']
    | none =>
      have hv' : lastValue? k ds' = none := by
        cases hv' : lastValue? k ds' with
        | none => rfl
        | some v => rw [(hlast k v).2 hv'] at hv; cases hv
      rw [h.others i hi k hv (hsub k),
        h'.others i hi' k hv' fun t ht => hsub k t ((hmem _).2 ht)]
  constructor
  case openBranches =>
    have hnil : ds = [] ↔ ds' = [] := by
      simp only [List.eq_nil_iff_forall_not_mem, hmem]
    rw [h.openBranches, h'.openBranches, hviable]
    simp only [hnil]
  case declared =>
    rw [h.visible_eq]
    exact hdecl
  case parameter =>
    intro k
    rw [parameter?_of_live_eq_none hlive, parameter?_of_live_eq_none hlive', h.writable_eq,
      h'.writable_eq, ← hviable]
    cases hhead : ((start.viable ds).filter fun i => (start.declared? i k).isSome).head? with
    | none => rfl
    | some i => exact hdecl i (List.mem_filter.1 (List.mem_of_head? hhead)).1 k

theorem agree_of_perm {start o o' : OneOf ν} {calls calls' : List (String × Value)}
    (hlive : start.live = none) (hactive : start.active = none) (hne : start.branches ≠ [])
    (hperm : calls.Perm calls') (hkeys : (calls.map (·.1)).Nodup)
    (h : setAll calls start = .ok () o) (h' : setAll calls' start = .ok () o') : Agree o o' := by
  have hkeys' : (calls'.map (·.1)).Nodup := (hperm.map _).nodup_iff.1 hkeys
  have htraced : Traced start o (demandsOf calls) := by
    have hrun := run_of_setAll .start h
    rw [List.append_nil] at hrun
    exact traced_of_run hlive hactive hne hrun
  have htraced' : Traced start o' (demandsOf calls') := by
    have hrun := run_of_setAll .start h'
    rw [List.append_nil] at hrun
    exact traced_of_run hlive hactive hne hrun
  -- the latest demand comes first, which does not matter for distinct keys:
  have hreverse : ∀ calls : List (String × Value), (calls.map (·.1)).Nodup →
      (calls.reverse.map (·.1)).Nodup :=
    fun calls h => (calls.reverse_perm.map _).nodup_iff.2 h
  apply htraced.agree htraced' (live_of_setAll_eq_ok hlive h) (live_of_setAll_eq_ok hlive h')
  · intro d
    unfold demandsOf
    exact ((calls.reverse_perm.trans (hperm.trans calls'.reverse_perm.symm)).map _).mem_iff
  · intro k v
    unfold demandsOf
    rw [lastValue?_eq_some (hreverse _ hkeys), lastValue?_eq_some (hreverse _ hkeys'),
      List.mem_reverse, List.mem_reverse, hperm.mem_iff]
  · intro k t ht
    obtain ⟨call, -, hcall⟩ := List.mem_map.1 ht
    cases hcall

/-- After any run of writes to fresh alternatives, the demands of those that succeeded say which
branches are open, what they hold and which writes fail. Setting the same values to distinct
keys in another order ends with the same, if all of it succeeds. -/
theorem meaning_of_run {branches : List (Collection ν)} {start : OneOf ν}
    (h : ofBranches branches = .ok start) :
    (∀ o ds, Run start o ds → Meaning start o ds) ∧
      ∀ calls calls' : List (String × Value), calls.Perm calls' → (calls.map (·.1)).Nodup →
        ∀ o o', setAll calls start = .ok () o → setAll calls' start = .ok () o' → Agree o o' := by
  unfold ofBranches at h
  split at h
  · cases h
  · rename_i hlen
    cases h
    have hne : branches ≠ [] := fun hnil => hlen (Or.inl (by rw [hnil]; exact Nat.zero_lt_two))
    exact ⟨fun o ds hrun => (traced_of_run rfl rfl hne hrun).meaning,
      fun calls calls' hperm hkeys o o' => agree_of_perm rfl rfl hne hperm hkeys⟩

/-! ### A run of two writes -/

/-- A sub-spec with a slot for a number. -/
def exampleMode : Node :=
  .spec ((Spec.ofName "mode-spec").push
    (.collection (.ofList [.primitive "level" (.scalar .int)])))

/-- A number, or a truth value of the same name beside a unit and a sub-spec. -/
def exampleBranches : List (Collection Node) :=
  [.ofList [.primitive "size" (.scalar .int)],
    .ofList [.primitive "size" (.scalar .bool), .primitive "unit" (.scalar .string),
      .derived "mode" "mode-spec" exampleMode]]

def exampleStart : OneOf Node := ⟨exampleBranches, none, none⟩

/-- A number is set, and then the sub-spec is written. -/
def exampleEnd : OneOf Node :=
  (within "mode" (modify (Node.set .empty "level" (.int 5)).stateAfter)).stateAfter
    ((OneOf.set "size" (.int 1)).stateAfter exampleStart)

theorem meaning_of_run_narrowed :
    ofBranches exampleBranches = .ok exampleStart ∧
      Run exampleStart exampleEnd [.subSpec "mode" (.spec "mode-spec"), .value "size" (.int 1)] ∧
      exampleEnd.openBranches? = some [1] ∧
      Agree ((setAll [("size", .int 1), ("unit", .string "m")]).stateAfter exampleStart)
        ((setAll [("unit", .string "m"), ("size", .int 1)]).stateAfter exampleStart) := by
  have hstart : ofBranches exampleBranches = .ok exampleStart := rfl
  have hrun : Run exampleStart exampleEnd
      [.subSpec "mode" (.spec "mode-spec"), .value "size" (.int 1)] :=
    .edit (p := .derived "mode" "mode-spec" exampleMode) (.set .start rfl) rfl rfl rfl rfl
  have hperm : [("size", Value.int 1), ("unit", .string "m")].Perm
      [("unit", .string "m"), ("size", .int 1)] := .swap _ _ _
  obtain ⟨hmeaning, hagree⟩ := meaning_of_run hstart
  exact ⟨hstart, hrun, (hmeaning _ _ hrun).openBranches,
    hagree _ _ hperm (by decide) _ _ rfl rfl⟩

end Runs

end OneOf

end SpecTree
