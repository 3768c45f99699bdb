import SpecTree.Proofs.Conditional
import SpecTree.Tree.Node

/-!
# Runs of writes to conditionals

What a conditional without values holds after any writes, some of which may have failed, follows
from the writes alone: the case parameter holds the last value that was accepted for it, and
every group the values that were accepted while it was the chosen one. Main statements:

* `Told.call`: one more write;
* `meaning_of_calls`: what a conditional holds, accepts and shows after any writes.
-/

namespace SpecTree

namespace Conditional

variable {ν : Type}

/-! ## Writes -/

/-- The conditional after writes, failed or not; the latest write comes first. -/
def afterCalls (start : Conditional ν) : List (String × Value) → Conditional ν
  | [] => start
  | (key, value) :: calls =>
    (Edit.replace (·.set key value)).stateAfter (start.afterCalls calls)

/-- The parameter of a group. -/
def declared? (s : Conditional ν) (i : Nat) (key : String) : Option (Parameter ν) :=
  s.branches[i]?.bind (·.2.parameter? key)

/-- The values of the groups, and the names that they declare. -/
def outline (s : Conditional ν) : List (Value × List String) :=
  s.branches.map fun (x, group) => (x, group.parameters.map (·.name))

/-- The value that the case parameter takes: one of its type, and that of a group. -/
def caseFor? (s : Conditional ν) (value : Value) : Option Value :=
  (s.case.check value).toOption.filter fun w => s.branches.any (·.1 == w)

/-- The value that a parameter of a group takes, as one of its type. -/
def valueFor? (s : Conditional ν) (i : Nat) (key : String) (value : Value) : Option Value :=
  (s.declared? i key).bind fun p => (p.check value).toOption

/-! ## What writes tell

The functions below look at the writes, and at what the conditional was like before them. -/

variable (start : Conditional ν)

/-- The last value that was accepted for the case parameter. -/
def caseValue? : List (String × Value) → Option Value
  | [] => none
  | (key, value) :: calls =>
    (if key = start.case.name then start.caseFor? value else none).or (caseValue? calls)

/-- The value of the case parameter, or else its default. -/
def current? (calls : List (String × Value)) : Option Value :=
  (start.caseValue? calls).or start.case.default

/-- The group that is chosen by it. -/
def chosen? (calls : List (String × Value)) : Option Nat :=
  (start.current? calls).bind fun current => start.branches.findIdx? (·.1 == current)

/-- The last value that was accepted for a key of a group, while that was the chosen one. -/
def held? (i : Nat) (key : String) : List (String × Value) → Option Value
  | [] => none
  | (k, value) :: calls =>
    (if k = key ∧ k ≠ start.case.name ∧ start.chosen? calls = some i
      then start.valueFor? i key value else none).or (held? i key calls)

variable {start} {s s' : Conditional ν} {calls : List (String × Value)}

/-! ## One write -/

theorem caseFor?_eq_some {value w : Value} :
    s.caseFor? value = some w ↔
      s.case.check value = .ok w ∧ s.branches.any (·.1 == w) = true := by
  unfold caseFor?
  rw [Option.filter_eq_some_iff, toOption_eq_some]

theorem valueFor?_eq_some {i : Nat} {key : String} {value w : Value} :
    s.valueFor? i key value = some w ↔
      ∃ p, s.declared? i key = some p ∧ p.check value = .ok w := by
  unfold valueFor?
  rw [Option.bind_eq_some_iff]
  simp only [toOption_eq_some]

theorem declared?_eq_some {i : Nat} {key : String} {p : Parameter ν} :
    s.declared? i key = some p ↔
      ∃ x group, s.branches[i]? = some (x, group) ∧ group.parameter? key = some p := by
  unfold declared?
  rw [Option.bind_eq_some_iff, Prod.exists]

/-- A write to the case parameter. -/
theorem set_case_eq_ok {value : Value} :
    s.set s.case.name value = .ok s' ↔ ∃ w, s.caseFor? value = some w ∧
      s' = { s with case := { s.case with value := some w } } := by
  have hplan {w : Value} (hw : s.caseFor? value = some w) :
      s.set s.case.name value = .ok { s with case := { s.case with value := some w } } := by
    obtain ⟨hcheck, hany⟩ := caseFor?_eq_some.1 hw
    have hplace : s.plan s.case.name (some value) = .ok none := by
      refine plan_eq_ok_none.2 ⟨rfl, fun v hv => ?_⟩
      obtain rfl := Option.some.inj hv
      exact ⟨w, hcheck, hany⟩
    obtain ⟨w', hw', hset⟩ := set_of_plan_eq_ok_none hplace
    cases hcheck.symm.trans hw'
    exact hset
  constructor
  · intro h
    cases hplace : s.plan s.case.name (some value) with
    | error e => cases h.symm.trans (set_of_plan_eq_error hplace)
    | ok place =>
      cases place with
      | some i => exact absurd rfl (plan_eq_ok_some.1 hplace).1
      | none =>
        obtain ⟨w, hcheck, hany⟩ := (plan_eq_ok_none.1 hplace).2 value rfl
        have hw : s.caseFor? value = some w := caseFor?_eq_some.2 ⟨hcheck, hany⟩
        exact ⟨w, hw, Except.ok.inj (h.symm.trans (hplan hw))⟩
  · rintro ⟨w, hw, rfl⟩
    exact hplan hw

/-- A write to any other key. -/
theorem set_eq_ok_of_ne {key : String} (hkey : key ≠ s.case.name) {value : Value} :
    s.set key value = .ok s' ↔ ∃ i x group p w, s.selectedIndex? = some i ∧
      s.branches[i]? = some (x, group) ∧ group.parameter? key = some p ∧ p.check value = .ok w ∧
      s' = s.setGroup i (group.insert { p with value := some w }) := by
  constructor
  · intro h
    rcases set_cases h with ⟨hname, -⟩ | ⟨i, x, group, group', -, hi, hb, hcontains, hset, rfl⟩
    · exact absurd hname hkey
    · obtain ⟨p, hp⟩ := Collection.contains_iff.1 hcontains
      obtain ⟨w, hw, rfl⟩ := (Collection.set_eq_ok hp).1 hset
      exact ⟨i, x, group, p, w, hi, hb, hp, hw, rfl⟩
  · rintro ⟨i, x, group, p, w, hi, hb, hp, hw, rfl⟩
    have hcontains : group.contains key := Collection.contains_iff.2 ⟨p, hp⟩
    have hplace : s.plan key (some value) = .ok (some i) := by
      refine plan_eq_ok_some.2 ⟨hkey, hi, x, group, hb, hcontains, fun v hv => ?_⟩
      obtain rfl := Option.some.inj hv
      exact (Collection.checkSet_eq_ok hp).2 ⟨w, hw⟩
    obtain ⟨x', group₀, group', hi', hb', -, hset, hok⟩ := set_of_plan_eq_ok_some hplace
    cases hb.symm.trans hb'
    obtain ⟨w', hw', rfl⟩ := (Collection.set_eq_ok hp).1 hset
    cases hw.symm.trans hw'
    exact hok

/-- A write to a key that the chosen group does not declare. -/
theorem set_eq_caseError {key : String} (hkey : key ≠ s.case.name)
    (hnone : ∀ i, s.selectedIndex? = some i → s.declared? i key = none) (value : Value) :
    s.set key value = .error (s.caseError key) := by
  apply set_of_plan_eq_error
  unfold plan
  rw [if_neg hkey]
  split
  · next i group hi hgroup =>
    obtain ⟨i', x, hi', hb⟩ := selected?_eq_some.1 hgroup
    cases hi.symm.trans hi'
    have hcontains : group.contains key = false := by
      have hdeclared := hnone i hi
      unfold declared? at hdeclared
      rw [hb, Option.bind_some] at hdeclared
      rw [Collection.contains, hdeclared, Option.isSome_none]
    rw [if_neg (Bool.not_eq_true _ ▸ hcontains)]
  · rfl

/-- What a group declares after one of them was put in its place. -/
theorem declared?_setGroup {i : Nat} {x : Value} {group : Collection ν}
    (hb : s.branches[i]? = some (x, group)) (group' : Collection ν) (j : Nat) (key : String) :
    (s.setGroup i group').declared? j key
      = if i = j then group'.parameter? key else s.declared? j key := by
  unfold declared?
  by_cases hij : i = j
  · subst hij
    rw [if_pos rfl, getElem?_setGroup hb, Option.bind_some]
  · rw [if_neg hij, setGroup, List.getElem?_modify_ne _ _ hij]

/-! ## What a run keeps -/

/-- A conditional that is as the writes tell. -/
structure Told (start : Conditional ν) (calls : List (String × Value)) (s : Conditional ν) :
    Prop where
  case : s.case = { start.case with value := start.caseValue? calls }
  outline : s.outline = start.outline
  held : ∀ i key, s.declared? i key =
    (start.declared? i key).map fun p => { p with value := start.held? i key calls }

namespace Told

theorem values (h : Told start calls s) : s.branches.map (·.1) = start.branches.map (·.1) := by
  have hmap := congrArg (List.map Prod.fst) h.outline
  unfold Conditional.outline at hmap
  rwa [List.map_map, List.map_map] at hmap

theorem any_eq (h : Told start calls s) (f : Value → Bool) :
    s.branches.any (fun b => f b.1) = start.branches.any fun b => f b.1 := by
  have hany := congrArg (List.any · f) h.values
  rwa [List.any_map, List.any_map] at hany

theorem name_case (h : Told start calls s) : s.case.name = start.case.name := by
  rw [h.case]

theorem caseFor?_eq (h : Told start calls s) (value : Value) :
    s.caseFor? value = start.caseFor? value := by
  unfold caseFor?
  have hcheck : s.case.check value = start.case.check value := by
    rw [h.case]
    exact Parameter.check_congr rfl rfl value
  rw [hcheck, funext fun w => h.any_eq (· == w)]

theorem valueFor?_eq (h : Told start calls s) (i : Nat) (key : String) (value : Value) :
    s.valueFor? i key value = start.valueFor? i key value := by
  unfold valueFor?
  rw [h.held, Option.bind_map]
  refine congrArg _ (funext fun p => ?_)
  exact congrArg Except.toOption (Parameter.check_congr rfl rfl value)

theorem get?_case (h : Told start calls s) : s.case.get? = start.current? calls := by
  rw [h.case]
  exact Option.orElse_eq_or

/-- The chosen group is the one that the writes tell. -/
theorem selectedIndex?_eq (h : Told start calls s) : s.selectedIndex? = start.chosen? calls := by
  unfold selectedIndex? chosen?
  rw [h.get?_case]
  refine congrArg _ (funext fun current => ?_)
  have hfind := congrArg (List.findIdx? (· == current)) h.values
  rwa [List.findIdx?_map, List.findIdx?_map] at hfind

/-- A write that changes nothing tells nothing. -/
theorem skip (h : Told start calls s) {key : String} {value : Value}
    (hcase : start.caseValue? ((key, value) :: calls) = start.caseValue? calls)
    (hheld : ∀ i k, start.held? i k ((key, value) :: calls) = start.held? i k calls) :
    Told start ((key, value) :: calls) s := by
  refine ⟨?_, h.outline, fun i k => ?_⟩
  · rw [hcase]
    exact h.case
  · rw [hheld]
    exact h.held i k

/-- A write to the case parameter, failed or not. -/
theorem call_case (h : Told start calls s) (value : Value) :
    Told start ((s.case.name, value) :: calls)
      ((Edit.replace (·.set s.case.name value)).stateAfter s) := by
  have hcase : start.caseValue? ((s.case.name, value) :: calls)
      = (s.caseFor? value).or (start.caseValue? calls) := by
    rw [caseValue?, if_pos h.name_case, h.caseFor?_eq]
  have hheld : ∀ i k, start.held? i k ((s.case.name, value) :: calls) = start.held? i k calls := by
    intro i k
    rw [held?, if_neg fun hk => hk.2.1 h.name_case, Option.none_or]
  cases hset : s.set s.case.name value with
  | error e =>
    have hnone : s.caseFor? value = none := by
      refine Option.eq_none_iff_forall_ne_some.2 fun w hw => ?_
      cases hset.symm.trans (set_case_eq_ok.2 ⟨w, hw, rfl⟩)
    rw [Edit.stateAfter_of_error (Edit.replace_eq_error.2 ⟨hset, rfl⟩)]
    exact h.skip (by rw [hcase, hnone, Option.none_or]) hheld
  | ok s' =>
    obtain ⟨w, hw, rfl⟩ := set_case_eq_ok.1 hset
    rw [Edit.stateAfter_of_ok ((Edit.replace_eq_ok (u := ())).2 hset)]
    refine ⟨?_, h.outline, fun i k => ?_⟩
    · rw [hcase, hw, h.case, Option.some_or]
    · rw [hheld]
      exact h.held i k

/-- A write to any other key, failed or not. -/
theorem call_key (h : Told start calls s) {key : String} (hkey : key ≠ s.case.name)
    (value : Value) :
    Told start ((key, value) :: calls) ((Edit.replace (·.set key value)).stateAfter s) := by
  have hcase : start.caseValue? ((key, value) :: calls) = start.caseValue? calls := by
    rw [caseValue?, if_neg (h.name_case ▸ hkey), Option.none_or]
  have hheld : ∀ i k, start.held? i k ((key, value) :: calls)
      = (if key = k ∧ s.selectedIndex? = some i then s.valueFor? i k value else none).or
        (start.held? i k calls) := by
    intro i k
    rw [held?, h.selectedIndex?_eq, h.valueFor?_eq]
    simp only [← h.name_case, ne_eq, hkey, not_false_eq_true, true_and]
  cases hset : s.set key value with
  | error e =>
    rw [Edit.stateAfter_of_error (Edit.replace_eq_error.2 ⟨hset, rfl⟩)]
    refine h.skip hcase fun i k => ?_
    rw [hheld]
    split
    · next hk =>
      obtain ⟨rfl, hi⟩ := hk
      -- a value for the key would have been taken:
      have hnone : s.valueFor? i key value = none := by
        refine Option.eq_none_iff_forall_ne_some.2 fun w hw => ?_
        obtain ⟨p, hdeclared, hcheck⟩ := valueFor?_eq_some.1 hw
        obtain ⟨x, group, hb, hp⟩ := declared?_eq_some.1 hdeclared
        have hok := (set_eq_ok_of_ne hkey).2 ⟨i, x, group, p, w, hi, hb, hp, hcheck, rfl⟩
        cases hset.symm.trans hok
      rw [hnone, Option.none_or]
    · rw [Option.none_or]
  | ok s' =>
    obtain ⟨i, x, group, p, w, hi, hb, hp, hw, rfl⟩ := (set_eq_ok_of_ne hkey).1 hset
    have hpname : p.name = key := Collection.name_of_parameter? hp
    have hdeclared : s.declared? i key = some p := declared?_eq_some.2 ⟨x, group, hb, hp⟩
    rw [Edit.stateAfter_of_ok ((Edit.replace_eq_ok (u := ())).2 hset)]
    refine ⟨?_, ?_, fun j k => ?_⟩
    · rw [hcase]
      exact h.case
    · refine (map_setGroup hb ?_).trans h.outline
      exact congrArg (Prod.mk x) (Parameter.map_name_put (hpname.symm ▸ hp))
    · -- only the parameter that was written is another one:
      rw [declared?_setGroup hb, Collection.parameter?_insert, hheld]
      by_cases hplace : i = j ∧ key = k
      · -- the writes tell its new value, and it was as they had told before
        obtain ⟨rfl, rfl⟩ := hplace
        have hvalue : s.valueFor? i key value = some w := valueFor?_eq_some.2 ⟨p, hdeclared, hw⟩
        obtain ⟨q, hq, rfl⟩ := Option.map_eq_some_iff.1 ((h.held i key).symm.trans hdeclared)
        rw [if_pos rfl, if_pos hpname, if_pos ⟨rfl, hi⟩, hvalue, hq, Option.map_some,
          Option.some_or]
      · have hother : ¬ (key = k ∧ s.selectedIndex? = some j) := by
          rintro ⟨hk, hj⟩
          exact hplace ⟨Option.some.inj (hi.symm.trans hj), hk⟩
        rw [if_neg hother, Option.none_or, ← h.held]
        by_cases hij : i = j
        · subst hij
          have hk : p.name ≠ k := fun hk => hplace ⟨rfl, hpname.symm.trans hk⟩
          rw [if_pos rfl, if_neg hk, declared?, hb, Option.bind_some]
        · rw [if_neg hij]

/-- **One more write**, failed or not. -/
theorem call (h : Told start calls s) (key : String) (value : Value) :
    Told start ((key, value) :: calls) ((Edit.replace (·.set key value)).stateAfter s) := by
  by_cases hkey : key = s.case.name
  · subst hkey
    exact h.call_case value
  · exact h.call_key hkey value

end Told

/-- A conditional without values is as the writes tell, whatever they are. -/
theorem told_of_calls (hcase : start.case.value = none)
    (hgroups : ∀ i key p, start.declared? i key = some p → p.value = none)
    (calls : List (String × Value)) : Told start calls (start.afterCalls calls) := by
  induction calls with
  | nil =>
    refine ⟨?_, rfl, fun i key => ?_⟩
    · rw [caseValue?, ← hcase]
      rfl
    · cases hp : start.declared? i key with
      | none => exact hp
      | some p =>
        rw [held?, ← hgroups i key p hp]
        exact hp
  | cons call calls ih => exact ih.call call.1 call.2

/-! ## The meaning of a run -/

/-- The case parameter and those of a group, if there is one. -/
def caseAnd (s : Conditional ν) (chosen : Option Nat) : List (Parameter ν) :=
  s.case :: ((chosen.bind (s.branches[·]?)).map (·.2.parameters)).getD []

/-- What writes to a conditional without values say about what they have made of it. -/
structure Meaning [Judged ν] (start : Conditional ν) (calls : List (String × Value))
    (s : Conditional ν) : Prop where
  /-- The case parameter holds the last value that was accepted for it. -/
  case : s.case = { start.case with value := start.caseValue? calls }
  /-- The groups stand for the values, and declare the names, that they did before. -/
  outline : s.outline = start.outline
  /-- A group holds under each key the last value that was accepted for it while the group was
  chosen, as one of the declared type, and the parameter is otherwise as it was declared. -/
  held : ∀ i key, s.declared? i key =
    (start.declared? i key).map fun p => { p with value := start.held? i key calls }
  /-- A value for the case is accepted if it is one of its type, and that of a group. -/
  set_case : ∀ value, (∃ s', s.set start.case.name value = .ok s') ↔
    ∃ w, start.case.check value = .ok w ∧ ∃ b ∈ start.branches, (b.1 == w) = true
  /-- A value for any other key is accepted if the chosen group declares the key and its parameter
  accepts the value. -/
  set_key : ∀ key value, key ≠ start.case.name → ((∃ s', s.set key value = .ok s') ↔
    ∃ i p w, start.chosen? calls = some i ∧ start.declared? i key = some p ∧
      p.check value = .ok w)
  /-- Without a value for the case there is no group to write to. -/
  set_unset : ∀ key value, key ≠ start.case.name → start.current? calls = none →
    s.set key value = .error (.caseNotSet key start.case.name)
  /-- With one, no key is written that the chosen group, if there is one, does not declare. -/
  set_mismatch : ∀ key value current, key ≠ start.case.name →
    start.current? calls = some current →
    (∀ i, start.chosen? calls = some i → start.declared? i key = none) →
    s.set key value = .error (.branchMismatch key start.case.name current.toText)
  /-- A write that fails changes nothing. -/
  failed : ∀ key value e, s.set key value = .error e →
    start.afterCalls ((key, value) :: calls) = s
  /-- A key shows the case parameter, or a parameter of the chosen group. -/
  parameter : ∀ key, s.parameter? key =
    if key = start.case.name then some s.case
    else (start.chosen? calls).bind fun i => s.declared? i key
  /-- The case parameter and those of the chosen group are listed, and no others. -/
  listed :
    s.valued = (s.caseAnd (start.chosen? calls)).filter Parameter.hasValue ∧
    s.complete = (s.caseAnd (start.chosen? calls)).filter Parameter.isComplete ∧
    s.unfilled = (s.caseAnd (start.chosen? calls)).filter (!·.isComplete) ∧
    s.optional = (s.caseAnd (start.chosen? calls)).filter Parameter.isOptional

/-- What is listed of the case parameter and of the chosen group. -/
theorem withCase_eq (s : Conditional ν) (wanted : Parameter ν → Bool)
    (ofGroup : Collection ν → List (Parameter ν))
    (hgroup : ∀ group, ofGroup group = group.parameters.filter wanted) :
    s.withCase (wanted s.case) ofGroup = (s.caseAnd s.selectedIndex?).filter wanted := by
  have hselected : s.selected? = (s.selectedIndex?.bind (s.branches[·]?)).map (·.2) := by
    unfold selected?
    rw [Option.map_bind]
    rfl
  unfold withCase caseAnd
  rw [List.filter_cons, hselected]
  have hrest : ∀ chosen : Option (Value × Collection ν),
      ((chosen.map (·.2)).map ofGroup).getD []
        = ((chosen.map (·.2.parameters)).getD []).filter wanted := by
    intro chosen
    cases chosen with
    | none => rfl
    | some b => exact hgroup b.2
  rw [hrest]
  split <;> rfl

section Meaning

variable [Judged ν]

theorem Told.meaning (h : Told start calls s) (hs : start.afterCalls calls = s) :
    Meaning start calls s where
  case := h.case
  outline := h.outline
  held := h.held
  set_case := by
    intro value
    rw [← h.name_case]
    constructor
    · rintro ⟨s', hset⟩
      obtain ⟨w, hw, -⟩ := set_case_eq_ok.1 hset
      rw [h.caseFor?_eq, caseFor?_eq_some, List.any_eq_true] at hw
      exact ⟨w, hw⟩
    · rintro ⟨w, hw⟩
      rw [← List.any_eq_true, ← caseFor?_eq_some, ← h.caseFor?_eq] at hw
      exact ⟨_, set_case_eq_ok.2 ⟨w, hw, rfl⟩⟩
  set_key := by
    intro key value hkey
    rw [← h.name_case] at hkey
    constructor
    · rintro ⟨s', hset⟩
      obtain ⟨i, x, group, p, w, hi, hb, hp, hw, -⟩ := (set_eq_ok_of_ne hkey).1 hset
      have hdeclared : s.declared? i key = some p := declared?_eq_some.2 ⟨x, group, hb, hp⟩
      obtain ⟨q, hq, rfl⟩ := Option.map_eq_some_iff.1 ((h.held i key).symm.trans hdeclared)
      exact ⟨i, q, w, h.selectedIndex?_eq ▸ hi, hq, (Parameter.check_congr rfl rfl value).trans hw⟩
    · rintro ⟨i, q, w, hi, hq, hw⟩
      have hdeclared := h.held i key
      rw [hq, Option.map_some] at hdeclared
      obtain ⟨x, group, hb, hp⟩ := declared?_eq_some.1 hdeclared
      exact ⟨_, (set_eq_ok_of_ne hkey).2 ⟨i, x, group, _, w, h.selectedIndex?_eq.trans hi, hb, hp,
        (Parameter.check_congr rfl rfl value).trans hw, rfl⟩⟩
  set_unset := by
    intro key value hkey hnone
    rw [← h.name_case] at hkey ⊢
    rw [← h.get?_case] at hnone
    -- no group is selected, as the case parameter holds no value:
    rw [set_eq_caseError hkey (fun i hi => ?_), caseError, hnone]
    rw [selectedIndex?, hnone] at hi
    cases hi
  set_mismatch := by
    intro key value current hkey hcurrent hnone
    rw [← h.name_case] at hkey ⊢
    rw [← h.get?_case] at hcurrent
    -- the selected group does not declare the key:
    rw [set_eq_caseError hkey (fun i hi => ?_), caseError, hcurrent]
    rw [h.held, hnone i (h.selectedIndex?_eq ▸ hi), Option.map_none]
  failed := by
    intro key value e hset
    rw [afterCalls, hs]
    exact Edit.stateAfter_of_error (Edit.replace_eq_error.2 ⟨hset, rfl⟩)
  parameter := by
    intro key
    unfold parameter? selected?
    rw [h.name_case, h.selectedIndex?_eq]
    split
    · rfl
    · rw [Option.bind_assoc]
      refine congrArg _ (funext fun i => ?_)
      rw [Option.bind_map]
      rfl
  listed := by
    rw [← h.selectedIndex?_eq]
    exact ⟨s.withCase_eq _ _ fun _ => rfl, s.withCase_eq _ _ fun _ => rfl,
      s.withCase_eq (!·.isComplete) _ fun _ => rfl, s.withCase_eq _ _ fun _ => rfl⟩

/-- **What a conditional made from parameters without values means after any writes**, failed or
not; the latest write comes first. -/
theorem meaning_of_calls {case : Parameter ν} {branches : List (Value × Collection ν)}
    (hstart : ofBranches case branches = .ok start) (hcase : case.value = none)
    (hbranches : ∀ b ∈ branches, ∀ p ∈ b.2.parameters, p.value = none)
    (calls : List (String × Value)) : Meaning start calls (start.afterCalls calls) := by
  unfold ofBranches at hstart
  split at hstart
  · obtain ⟨checked, hchecked, hpure⟩ := bind_eq_ok.1 hstart
    cases hpure
    refine (told_of_calls hcase (fun i key p hp => ?_) calls).meaning rfl
    obtain ⟨x, group, hb, hp⟩ := declared?_eq_some.1 hp
    obtain ⟨⟨x', group'⟩, hmem, hcheck⟩ := exists_of_mem_mapM hchecked (List.mem_of_getElem? hb)
    obtain ⟨w, -, hpure⟩ := bind_eq_ok.1 hcheck
    cases hpure
    exact hbranches _ hmem p (Parameter.mem_of_find? hp)
  · cases hstart

/-! ### A run that goes there and back -/

/-- A string that chooses a group, by default the second one. -/
def exampleMode : Parameter Node :=
  { Parameter.primitive "mode" (.scalar .string) with
    default := some (.string "b"), isOptional := true }

/-- A number, or a string of the same name, or nothing. -/
def exampleGroups : List (Value × Collection Node) :=
  [(.string "a", .ofList [.primitive "size" (.scalar .int), .primitive "unit" (.scalar .string)]),
    (.string "b", .ofList [.primitive "size" (.scalar .string)]),
    (.string "c", .ofList [])]

def exampleModes : Conditional Node := ⟨exampleMode, exampleGroups⟩

/-- The default's group is written, then the first one, and then the second is chosen again; some
of the writes fail. -/
def exampleWrites : List (String × Value) :=
  [("mode", .string "d"), ("mode", .string "b"), ("unit", .int 3), ("size", .int 1),
    ("mode", .string "a"), ("unit", .string "m"), ("size", .string "s")]

theorem meaning_of_calls_exampleModes :
    ofBranches exampleMode exampleGroups = .ok exampleModes ∧ exampleMode.value = none ∧
      (∀ b ∈ exampleGroups, ∀ p ∈ b.2.parameters, p.value = none) ∧
      (exampleModes.afterCalls exampleWrites).case.value = some (.string "b") ∧
      ((exampleModes.afterCalls exampleWrites).declared? 0 "size").bind (·.value)
        = some (.int 1) ∧
      ((exampleModes.afterCalls exampleWrites).declared? 1 "size").bind (·.value)
        = some (.string "s") ∧
      (exampleModes.afterCalls exampleWrites).set "unit" (.string "m")
        = .error (.branchMismatch "unit" "mode" "b") := by
  have hstart : ofBranches exampleMode exampleGroups = .ok exampleModes := rfl
  have hempty : ∀ b ∈ exampleGroups, ∀ p ∈ b.2.parameters, p.value = none := by
    have hall : exampleGroups.all (·.2.parameters.all (·.value.isNone)) = true := by decide +kernel
    simpa using hall
  have h := meaning_of_calls hstart rfl hempty exampleWrites
  refine ⟨hstart, rfl, hempty, ?_, ?_, ?_, ?_⟩
  · rw [h.case]
    rfl
  · rw [h.held]
    rfl
  · rw [h.held]
    rfl
  · refine h.set_mismatch "unit" _ (.string "b") (by decide) rfl fun i hi => ?_
    have hchosen : exampleModes.chosen? exampleWrites = some 1 := rfl
    obtain rfl := Option.some.inj (hchosen.symm.trans hi)
    rfl

end Meaning

end Conditional

end SpecTree
