import SpecTree.Proofs.OneOf.Writing
import SpecTree.Tree.NodeEdit

/-!
# Accesses to alternatives

Keys are set, branches narrowed and sub-specs changed, in any order, and any of it may fail. What
one access can do is said once, by `Access.Does`; what a run of accesses keeps is proved from that.
Main statement: `exists_shown_accessed`, a branch keeps what it declares. A sub-spec that was handed
out takes the place of those of other branches as a whole, and so this holds of sub-specs only as
far as the branches that share them declare them alike (`Concordant`).
-/

namespace SpecTree

variable {ν : Type}

namespace OneOf

/-- What can be done to alternatives. -/
inductive Access (ν : Type) where
  /-- Set a key. -/
  | set (key : String) (value : Value)
  /-- Leave open only the branches that declare a key. -/
  | select (key : String)
  /-- Reach for the sub-spec under a key, and change it. -/
  | within (key : String) (change : ν → ν)

namespace Access

def key : Access ν → String
  | set key _ => key
  | select key => key
  | within key _ => key

variable [Judged ν]

def act : Access ν → Edit (OneOf ν) Unit
  | set key value => OneOf.set key value
  | select key => OneOf.select key
  | within key change => OneOf.within key (modify change)

def succeeds (a : Access ν) (o : OneOf ν) : Bool := (a.act.answer o).isOk

/-- The alternatives after an access, whether it succeeds or fails. -/
def after (a : Access ν) (o : OneOf ν) : OneOf ν := a.act.stateAfter o

/-- What an access does to alternatives `o`, and if it succeeds. One that fails settles them, and
may mark an empty slot as handed out. -/
inductive Does (o : OneOf ν) : Access ν → Bool → OneOf ν → Prop
  | refused (a : Access ν) : Does o a false o.settle
  | set {key : String} {value : Value} {next : List Nat}
      (plan : o.plan key (some value) = .ok next) :
      Does o (.set key value) true { o.settle.assignedIn key value next with active := some next }
  | select {key : String} {next : List Nat} (plan : o.plan key none = .ok next) :
      Does o (.select key) true { o.settle with active := some next }
  | missing {key : String} {change : ν → ν} {i : Nat} {p : Parameter ν}
      (owner : (o.writable key).head? = some i) (slot : o.settle.declared? i key = some p)
      (derived : p.isPrimitive = false) (empty : p.node = none) :
      Does o (.within key change) false (o.settle.lend key i p)
  | within {key : String} {change : ν → ν} {i : Nat} {p : Parameter ν} {m : ν}
      (owner : (o.writable key).head? = some i) (slot : o.settle.declared? i key = some p)
      (derived : p.isPrimitive = false) (held : p.node = some m) :
      Does o (.within key change) true (o.settle.lend key i { p with node := some (change m) })

/-- An access that succeeds does what it does when it succeeds. -/
theorem does_of_act_eq_ok {a : Access ν} {o o' : OneOf ν} (hact : a.act o = .ok () o')
    (h : Does o a true o') : Does o a (a.succeeds o) (a.after o) := by
  unfold succeeds after Edit.answer
  rw [Edit.stateAfter_of_ok hact, hact]
  exact h

/-- An access that fails does what it does when it fails. -/
theorem does_of_act_eq_error {a : Access ν} {o o' : OneOf ν} {e : TreeError}
    (hact : a.act o = .error e o') (h : Does o a false o') :
    Does o a (a.succeeds o) (a.after o) := by
  unfold succeeds after Edit.answer
  rw [Edit.stateAfter_of_error hact, hact]
  exact h

/-- Each access is refused, narrows, assigns or hands out. -/
theorem does (a : Access ν) (o : OneOf ν) : Does o a (a.succeeds o) (a.after o) := by
  cases a with
  | set key value =>
    cases hplan : o.plan key (some value) with
    | error e => exact does_of_act_eq_error (set_of_plan_eq_error hplan) (.refused _)
    | ok next => exact does_of_act_eq_ok (set_of_plan_eq_ok hplan) (.set hplan)
  | select key =>
    cases hplan : o.plan key none with
    | error e => exact does_of_act_eq_error (select_of_plan_eq_error hplan) (.refused _)
    | ok next => exact does_of_act_eq_ok (select_of_plan_eq_ok hplan) (.select hplan)
  | within key change =>
    rcases within_cases o key with
      ⟨e, he⟩ | ⟨i, p, hi, hp, hprim, ⟨hnode, e, he⟩ | ⟨m, hm, hreaches⟩⟩
    · exact does_of_act_eq_error (he _) (.refused _)
    · exact does_of_act_eq_error (he _) (.missing hi hp hprim hnode)
    · exact does_of_act_eq_ok (hreaches _) (.within hi hp hprim hm)

end Access

/-- The alternatives after accesses, one after the other, whether these succeed or fail. -/
def accessed [Judged ν] (o : OneOf ν) (as : List (Access ν)) : OneOf ν :=
  as.foldl (fun o a => a.after o) o

/-! ## Declarations -/

end OneOf

namespace Parameter

/-- The slot as it is declared, without what is in it. -/
def blank (p : Parameter ν) : Parameter ν := { p with value := none, node := none }

/-- Parameters are blank alike if they are declared alike. -/
theorem blank_eq_iff {p q : Parameter ν} :
    p.blank = q.blank ↔ p.name = q.name ∧ p.type = q.type ∧ p.default = q.default ∧
      p.isOptional = q.isOptional ∧ p.doc = q.doc := by
  simp [blank]

end Parameter

namespace OneOf

/-- All branches that declare a key with a type declare it alike. -/
def Concordant (o : OneOf ν) (key : String) (type : TypeRef) : Prop :=
  ∀ i j p q, o.declared? i key = some p → o.declared? j key = some q → p.type = type →
    q.type = type → p.blank = q.blank

/-- What remains of the declarations that alternatives started with. -/
structure Declares (start o : OneOf ν) : Prop where
  types : ∀ i k, (o.declared? i k).map (·.type) = (start.declared? i k).map (·.type)
  live : ∀ owner p, o.liveParameter? = some (owner, p) → p.isPrimitive = false
  blank : ∀ i k p q, start.declared? i k = some p → o.declared? i k = some q →
    (p.isPrimitive = false → start.Concordant k p.type) → q.blank = p.blank

namespace Declares

variable {start o : OneOf ν} {i owner : Nat} {k : String} {p q l : Parameter ν}

/-- As long as nothing is handed out, alternatives declare what they started with. -/
theorem refl (h : start.live = none) : Declares start start where
  types _ _ := rfl
  live owner p hl := by
    rw [liveParameter?_of_live_eq_none h] at hl
    cases hl
  blank i k p q hp hq _ := by
    rw [hp] at hq
    rw [Option.some.inj hq]

/-- The type of a parameter never changes. -/
theorem type_eq (h : Declares start o) (hp : start.declared? i k = some p)
    (hq : o.declared? i k = some q) : q.type = p.type := by
  have htype := h.types i k
  rw [hp, hq] at htype
  exact Option.some.inj htype

/-- A sub-spec that was handed out is declared as those of its name and type are. -/
theorem blank_live (h : Declares start o) (hl : o.liveParameter? = some (owner, l))
    (hp : start.declared? i l.name = some p) (htype : l.type = p.type)
    (hconc : p.isPrimitive = false → start.Concordant l.name p.type) : l.blank = p.blank := by
  have hown := (liveParameter?_eq_some.1 hl).2
  have htypes := h.types owner l.name
  rw [hown, Option.map_some, eq_comm, Option.map_eq_some_iff] at htypes
  obtain ⟨r, hr, hrtype⟩ := htypes
  have hprim : p.isPrimitive = false := by
    rw [Parameter.isPrimitive, ← htype]
    exact h.live owner l hl
  have hlike := hconc hprim
  calc l.blank = r.blank := h.blank owner l.name r l hr hown fun _ => by
        rw [hrtype, htype]
        exact hlike
    _ = p.blank := hlike owner i r p hr hp (hrtype.trans htype) rfl

/-- Settling copies within one type, and so leaves the types as declared. -/
theorem settle [Judged ν] (h : Declares start o) : Declares start o.settle where
  types i k := (type_declared?_settle o i k).trans (h.types i k)
  live owner p hl := by
    rw [liveParameter?_of_live_eq_none (live_settle o)] at hl
    cases hl
  blank i k p q hp hq hconc := by
    rcases settle_cases o with ⟨owner, l, hl, hv⟩ | ⟨heq, -⟩
    · rw [declared?_settle_of_hasValue hl hv] at hq
      split at hq
      · next hshare =>
        -- the branch shows the sub-spec of another from now on
        obtain ⟨hshare, rfl⟩ := hshare
        obtain rfl := Option.some.inj hq
        obtain ⟨-, r, hr, hrtype⟩ := (mem_sharing (liveParameter?_eq_some.1 hl).2).1 hshare
        exact h.blank_live hl hp (hrtype.symm.trans (h.type_eq hp hr)) hconc
      · exact h.blank i k p q hp hq hconc
    · rw [heq] at hq
      exact h.blank i k p q hp hq hconc

theorem select (h : Declares start o) (next : List Nat) :
    Declares start { o with active := some next } :=
  ⟨h.types, h.live, h.blank⟩

/-- Values are assigned to what is declared. -/
theorem assignedIn (h : Declares start o) (hlive : o.live = none) {key : String} {value : Value}
    {next : List Nat}
    (hcheck : ∀ i ∈ next, ∃ p w, o.declared? i key = some p ∧ p.check value = .ok w) :
    Declares start (o.assignedIn key value next) := by
  -- a slot that is written is the slot that was there, with a value in it:
  have hslot : ∀ {i k q}, (o.assignedIn key value next).declared? i k = some q →
      ∃ r, o.declared? i k = some r ∧ q.blank = r.blank := by
    intro i k q hq
    rw [declared?_assignedIn hcheck] at hq
    split at hq
    · next hi =>
      obtain ⟨r, w, hr, hw⟩ := hcheck i hi.1
      rw [hr, Option.bind_some, hw] at hq
      rw [← hi.2, ← Option.some.inj hq]
      exact ⟨r, hr, rfl⟩
    · exact ⟨q, hq, rfl⟩
  constructor
  case types =>
    intro i k
    refine Eq.trans ?_ (h.types i k)
    rw [declared?_assignedIn hcheck]
    split
    · next hi =>
      obtain ⟨r, w, hr, hw⟩ := hcheck i hi.1
      rw [← hi.2, hr, Option.bind_some, hw]
      rfl
    · rfl
  case live =>
    intro owner p hl
    rw [liveParameter?_of_live_eq_none] at hl
    · cases hl
    · exact hlive
  case blank =>
    intro i k p q hp hq hconc
    obtain ⟨r, hr, hblank⟩ := hslot hq
    exact hblank.trans (h.blank i k p r hp hr hconc)

/-- A sub-spec is handed out of what is declared. -/
theorem lend (h : Declares start o) {key : String} {p' : Parameter ν}
    (hp : o.declared? i key = some p) (hprim : p.isPrimitive = false)
    (hblank : p'.blank = p.blank) : Declares start (o.lend key i p') := by
  obtain ⟨hname, htype, -⟩ := Parameter.blank_eq_iff.1 hblank
  constructor
  case types =>
    intro j k
    exact (type_declared?_lend hp hname htype j k).trans (h.types j k)
  case live =>
    intro owner l hl
    rw [liveParameter?_lend hp hname] at hl
    cases hl
    rw [Parameter.isPrimitive, htype]
    exact hprim
  case blank =>
    intro j k r q hr hq hconc
    rw [declared?_lend] at hq
    split at hq
    · next hj =>
      obtain ⟨rfl, hk, -⟩ := hj
      have hkey : k = key := hk.symm.trans (hname.trans (name_of_declared? hp))
      rw [← Option.some.inj hq, hblank]
      exact h.blank i k r p hr (hkey ▸ hp) hconc
    · exact h.blank j k r q hr hq hconc

/-- What an access leaves of the declarations. -/
theorem after [Judged ν] (h : Declares start o) (a : Access ν) : Declares start (a.after o) := by
  have hs := h.settle
  have hdoes := a.does o
  generalize a.succeeds o = ok, a.after o = o' at hdoes
  cases hdoes with
  | refused => exact hs
  | set plan =>
    have hcheck := check_of_plan_eq_ok ((plan_settle _ _ _).trans plan)
    exact (hs.assignedIn (live_settle o) hcheck).select _
  | select plan => exact hs.select _
  | missing _ slot derived _ => exact hs.lend slot derived rfl
  | within _ slot derived _ => exact hs.lend slot derived rfl

theorem accessed [Judged ν] (h : Declares start o) (as : List (Access ν)) :
    Declares start (o.accessed as) :=
  List.foldlRecOn (motive := Declares start) as _ h fun _ h a _ => h.after a

/-- A branch shows a slot as it is declared. -/
theorem exists_shown (h : Declares start o) (hp : start.declared? i k = some p)
    (hconc : p.isPrimitive = false → start.Concordant k p.type) :
    ∃ q, o.shown? i k = some q ∧ q.blank = p.blank := by
  have htypes := h.types i k
  rw [hp, Option.map_some, Option.map_eq_some_iff] at htypes
  obtain ⟨r, hr, -⟩ := htypes
  cases hl : o.liveParameter? with
  | none =>
    rw [shown?_of_liveParameter?_eq_none hl]
    exact ⟨r, hr, h.blank i k p r hp hr hconc⟩
  | some live =>
    obtain ⟨owner, l⟩ := live
    rw [shown?_of_liveParameter? hl, hr, Option.map_some]
    split
    · exact ⟨r, rfl, h.blank i k p r hp hr hconc⟩
    · refine ⟨_, rfl, ?_⟩
      split
      · next hlike =>
        have hk : l.name = k := hlike.1.trans (name_of_declared? hr)
        rw [← hk] at hp hconc hr
        exact h.blank_live hl hp (hlike.2.trans (h.type_eq hp hr)) hconc
      · exact h.blank i k p r hp hr hconc

end Declares

/-- The only open branch shows a key if it declares it. -/
theorem parameter?_of_selected? [Judged ν] {o : OneOf ν} {i : Nat} {k : String} {p : Parameter ν}
    (hselected : o.selected? = some i) (hp : o.shown? i k = some p) : o.parameter? k = some p := by
  have hshown : Parameter.find? (o.branchParameters i) k = some p := hp
  unfold parameter? visibleParameters
  rw [visible_of_selected? hselected, List.map_singleton, List.findSome?_cons, hshown]

variable [Judged ν]

/-- **A branch keeps what it declares.** After any accesses it shows under every key that it
declares a slot with the type, default, optional flag and doc that it began with, and so does the
whole once it is the only branch left; of a sub-spec it is required as before that it is complete.
This holds of values, and of sub-specs that are declared alike in all branches that share them. -/
theorem exists_shown_accessed {branches : List (Collection ν)} {start : OneOf ν}
    (hstart : ofBranches branches = .ok start) {i : Nat} {key : String} {p : Parameter ν}
    (hp : start.declared? i key = some p)
    (hconc : p.isPrimitive = false → start.Concordant key p.type) (as : List (Access ν)) :
    ∃ q, (start.accessed as).shown? i key = some q ∧ q.blank = p.blank ∧
      (p.isPrimitive = false →
        q.isComplete = (p.isOptional || q.node.any Judged.isComplete)) ∧
      ((start.accessed as).selected? = some i →
        (start.accessed as).parameter? key = some q) := by
  have hlive : start.live = none := by
    unfold ofBranches at hstart
    split at hstart
    · cases hstart
    · cases hstart
      rfl
  obtain ⟨q, hq, hblank⟩ := ((Declares.refl hlive).accessed as).exists_shown hp hconc
  obtain ⟨-, htype, -, hoptional, -⟩ := Parameter.blank_eq_iff.1 hblank
  refine ⟨q, hq, hblank, fun hprim => ?_, fun hselected => parameter?_of_selected? hselected hq⟩
  obtain ⟨s, hs⟩ := Parameter.isPrimitive_eq_false_iff.1 hprim
  unfold Parameter.isComplete
  rw [htype, hs, hoptional]

/-- A sub-spec with two slots. -/
def examplePair : Node :=
  .spec ((Spec.ofName "pair-spec").push
    (.collection (.ofList [.primitive "x" (.scalar .int), .primitive "y" (.scalar .int)])))

/-- Two branches with a sub-spec. It is required in the second; in the first it may be optional. -/
def examplePairs (isOptional : Bool) : List (Collection Node) :=
  [.ofList [{ Parameter.derived "pair" "pair-spec" examplePair with isOptional },
      .primitive "a" (.scalar .int)],
    .ofList [.derived "pair" "pair-spec" examplePair, .primitive "b" (.scalar .int)]]

/-- One slot of the sub-spec is filled, and then the second branch is chosen. -/
def exampleHalf : List (Access Node) :=
  [.within "pair" (Node.set .empty "x" (.int 1)).stateAfter, .set "b" (.int 2)]

def exampleUnwritten (isOptional : Bool) : OneOf Node := ⟨examplePairs isOptional, none, none⟩

theorem exists_shown_accessed_examplePairs :
    ofBranches (examplePairs false) = .ok (exampleUnwritten false) ∧
      ∃ q, ((exampleUnwritten false).accessed exampleHalf).parameter? "pair" = some q ∧
        q.isOptional = false ∧
        ((exampleUnwritten false).accessed exampleHalf).isComplete = false := by
  have hstart : ofBranches (examplePairs false) = .ok (exampleUnwritten false) := rfl
  have hdeclared : ∀ i p, (exampleUnwritten false).declared? i "pair" = some p →
      p = .derived "pair" "pair-spec" examplePair := by
    rintro (_ | _ | i) p h <;> cases h <;> rfl
  have hslot : (exampleUnwritten false).declared? 1 "pair"
      = some (.derived "pair" "pair-spec" examplePair) := rfl
  have hselected : ((exampleUnwritten false).accessed exampleHalf).selected? = some 1 := by
    decide +kernel
  obtain ⟨q, -, hblank, -, hparameter⟩ := exists_shown_accessed hstart hslot
    (fun _ i j p q hp hq _ _ => by rw [hdeclared i p hp, hdeclared j q hq]) exampleHalf
  exact ⟨hstart, q, hparameter hselected, (Parameter.blank_eq_iff.1 hblank).2.2.2.1,
    by decide +kernel⟩

/-- A sub-spec that is required in the branch that was chosen is taken for optional, and the whole
for complete, because another branch declares it as optional. -/
theorem isOptional_of_other_branch :
    ofBranches (examplePairs true) = .ok (exampleUnwritten true) ∧
      ((exampleUnwritten true).declared? 1 "pair").map (·.isOptional) = some false ∧
      ((exampleUnwritten true).accessed exampleHalf).selected? = some 1 ∧
      (((exampleUnwritten true).accessed exampleHalf).parameter? "pair").map (·.isOptional)
        = some true ∧
      (((exampleUnwritten true).accessed exampleHalf).parameter? "pair").map
        (fun q => (q.isComplete, q.node.any Judged.isComplete)) = some (true, false) ∧
      ((exampleUnwritten true).accessed exampleHalf).isComplete = true := by
  refine ⟨rfl, ?_, ?_, ?_, ?_, ?_⟩ <;> decide +kernel

end OneOf

end SpecTree
