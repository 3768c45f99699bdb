import SpecTree.Proofs.Declared
import SpecTree.Proofs.Suffix.Components

/-!
# Writing where keys were moved

Writing to a key and moving keys into alternatives can be done in either order
(`Component.withSuffixes_map_written`), and components that have no key in common have none in
common after a write (`Component.Apart.map_written`), as a write declares nothing.
-/

namespace SpecTree

variable {ν : Type}

/-! ## Parameters that are changed in their place -/

namespace Collection

/-- The collection with a parameter in place of the one of its name. -/
def replaced (c : Collection ν) (q : Parameter ν) : Collection ν :=
  { c with parameters := c.parameters.map fun p => if p.name = q.name then q else p }

theorem insert_eq_replaced {c : Collection ν} {q : Parameter ν}
    (h : Parameter.Distinct c.parameters) (hq : c.contains q.name = true) :
    c.insert q = c.replaced q := by
  obtain ⟨p, hp⟩ := contains_iff.1 hq
  have hmem : q.name ∈ c.parameters.map (·.name) :=
    List.mem_map.2 ⟨p, Parameter.mem_of_find? hp, Parameter.name_of_find? hp⟩
  rw [insert, Parameter.put_eq_map h hmem, replaced]

theorem replaced_of_not_contains {c : Collection ν} {q : Parameter ν}
    (h : Parameter.Distinct c.parameters) (hq : c.parameter? q.name = none) :
    c.replaced q = c := by
  have hsame : ∀ p ∈ c.parameters, (if p.name = q.name then q else p) = p := by
    intro p hp
    rw [if_neg]
    intro hname
    have hfound : c.parameter? p.name = some p := Parameter.find?_of_mem h hp
    rw [hname, hq] at hfound
    cases hfound
  rw [replaced, List.map_congr_left hsame, List.map_id']

theorem withoutKeys_replaced (suffix? : String → Option String) (c : Collection ν)
    (q : Parameter ν) : (c.replaced q).withoutKeys suffix? = (c.withoutKeys suffix?).replaced q := by
  unfold withoutKeys replaced
  rw [List.filter_map]
  congr 2
  apply List.filter_congr
  intro p _
  show (suffix? (ite _ _ _ : Parameter ν).name).isNone = (suffix? p.name).isNone
  split
  · next hname => rw [hname]
  · rfl

end Collection

namespace Component

variable [Judged ν] {suffix? : String → Option String} {names : List String} {key : String}
  {cs : List (Component ν)}

/-! ## Writing to a key -/

/-- The component after a key was set, if it declares the key. -/
def written (key : String) (value : Value) (c : Component ν) : Component ν :=
  if c.contains key then (Component.set key value).stateAfter c else c

theorem written_of_not_contains {value : Value} {c : Component ν} (h : c.contains key = false) :
    c.written key value = c := by
  rw [written, if_neg (Bool.eq_false_iff.1 h)]

/-- In a collection the parameter of the key is changed, and all others stay as they are. -/
theorem written_collection {c : Collection ν} {p : Parameter ν} {value w : Value}
    (hdistinct : Parameter.Distinct c.parameters)
    (hp : ∀ q, c.parameter? p.name = some q → q = p) (hw : p.check value = .ok w) :
    written p.name value (.collection c) = .collection (c.replaced { p with value := some w }) := by
  cases hq : c.parameter? p.name with
  | none =>
    rw [Collection.replaced_of_not_contains (q := { p with value := some w }) hdistinct hq]
    apply written_of_not_contains
    show (c.parameter? p.name).isSome = false
    rw [hq]
    rfl
  | some q =>
    obtain rfl := hp q hq
    have hcontains : (collection c).contains q.name = true := Collection.contains_iff.2 ⟨q, hq⟩
    have hset : Component.set q.name value (.collection c)
        = .ok () (.collection (c.insert { q with value := some w })) := by
      rw [set_collection]
      exact Edit.through_eq_ok.2
        ⟨_, Edit.replace_eq_ok.2 ((Collection.set_eq_ok hq).2 ⟨w, hw, rfl⟩), rfl⟩
    rw [written, if_pos hcontains, Edit.stateAfter_of_ok hset,
      Collection.insert_eq_replaced (q := { q with value := some w }) hdistinct hcontains]

/-- Collections stay collections. -/
theorem exists_map_written (key : String) (value : Value) (cs : List (Collection ν)) :
    ∃ cs' : List (Collection ν), cs'.length = cs.length ∧
      (cs.map collection).map (written key value) = cs'.map collection := by
  have hone : ∀ c : Collection ν, ∃ c', written key value (collection c) = collection c' := by
    intro c
    unfold written
    split
    · exact ⟨_, Edit.stateAfter_of_through (set_collection key value c)⟩
    · exact ⟨c, rfl⟩
  induction cs with
  | nil => exact ⟨[], rfl, rfl⟩
  | cons c cs ih =>
    obtain ⟨c', hc'⟩ := hone c
    obtain ⟨cs', hlength, hcs'⟩ := ih
    refine ⟨c' :: cs', congrArg (· + 1) hlength, ?_⟩
    rw [List.map_cons, List.map_cons, hc', hcs', List.map_cons]

theorem written_oneOf (key : String) (value : Value) (o : OneOf ν) :
    ∃ o', written key value (.oneOf o) = .oneOf o' := by
  unfold written
  split
  · exact ⟨_, Edit.stateAfter_of_through (set_oneOf key value o)⟩
  · exact ⟨o, rfl⟩

theorem written_conditional (key : String) (value : Value) (s : Conditional ν) :
    ∃ s', written key value (.conditional s) = .conditional s' := by
  unfold written
  split
  · exact ⟨_, Edit.stateAfter_of_through (set_conditional key value s)⟩
  · exact ⟨s, rfl⟩

/-- Components that do not declare a key are not written. -/
theorem map_written_of_filter_eq_nil {value : Value} (h : cs.filter (·.contains key) = []) :
    cs.map (written key value) = cs := by
  have hsame : ∀ c ∈ cs, c.written key value = c := fun c hc =>
    written_of_not_contains (Bool.eq_false_iff.2 (List.filter_eq_nil_iff.1 h c hc))
  rw [List.map_congr_left hsame, List.map_id']

section Splitting

variable {c : Collection ν} {p : Parameter ν} {value w : Value}

/-- What is left of a collection is written like the collection: the change of a parameter does not
move it. -/
theorem withoutKeys_replaced (hdistinct : Parameter.Distinct c.parameters)
    (hp : c.parameter? p.name = some p) (hw : p.check value = .ok w) :
    withoutKeys suffix? (.collection (c.replaced { p with value := some w }))
      = (withoutKeys suffix? (.collection c)).map (written p.name value) := by
  have hsame : ∀ q, (c.withoutKeys suffix?).parameter? p.name = some q → q = p := by
    intro q hq
    rw [Collection.parameter?_withoutKeys] at hq
    split at hq
    · exact Option.some.inj (hq.symm.trans hp)
    · cases hq
  have hleft : Parameter.Distinct (c.withoutKeys suffix?).parameters :=
    List.Nodup.sublist (List.Sublist.map _ List.filter_sublist) hdistinct
  have hempty : ∀ q, ((c.withoutKeys suffix?).replaced q).isEmpty
      = (c.withoutKeys suffix?).isEmpty := fun q => List.isEmpty_map
  rw [withoutKeys_collection, withoutKeys_collection, Collection.withoutKeys_replaced, hempty]
  split
  · rfl
  · rw [List.map_singleton, written_collection hleft hsame hw]

/-- The alternative of a key is written like the key alone. -/
theorem written_keyOrSuffix {name : String} (hne : p.name ≠ name) (hw : p.check value = .ok w) :
    written p.name value (.oneOf (p.keyOrSuffix name))
      = .oneOf (Parameter.keyOrSuffix { p with value := some w } name) := by
  have hset : Component.set p.name value (.oneOf (p.keyOrSuffix name))
      = .ok () (.oneOf (Parameter.keyOrSuffix { p with value := some w } name)) := by
    rw [set_oneOf]
    exact Edit.through_eq_ok.2 ⟨_, OneOf.set_keyOrSuffix p hne hw, rfl⟩
  have hdeclares : (oneOf (p.keyOrSuffix name)).contains p.name = true :=
    (OneOf.contains_keyOrSuffix p hne).trans (decide_eq_true rfl)
  rw [written, if_pos hdeclares, Edit.stateAfter_of_ok hset]

theorem alternatives_replaced (hdistinct : Parameter.Distinct c.parameters)
    (hnames : (collection c).SuffixesIn suffix? names) (hkey : p.name ∉ names)
    (hp : c.parameter? p.name = some p) (hw : p.check value = .ok w) :
    alternatives suffix? (.collection (c.replaced { p with value := some w }))
      = (alternatives suffix? (.collection c)).map (written p.name value) := by
  rw [alternatives_collection, alternatives_collection, Collection.replaced,
    List.filterMap_map, List.map_filterMap]
  apply List.filterMap_congr
  intro q hq
  by_cases hqp : q.name = p.name
  · obtain rfl : q = p :=
      Option.some.inj ((hqp ▸ Parameter.find?_of_mem hdistinct hq).symm.trans hp)
    simp only [Function.comp, if_pos]
    cases hsuffix : suffix? q.name with
    | none => rfl
    | some name =>
      have hne : q.name ≠ name := fun he => hkey (he ▸ hnames q hq _ hsuffix)
      rw [Option.map_some, Option.map_some, Option.map_some, written_keyOrSuffix hne hw]
  · -- an alternative of another key does not declare it
    simp only [Function.comp, if_neg hqp]
    cases hsuffix : suffix? q.name with
    | none => rfl
    | some name =>
      have hdeclares := contains_keyOrSuffix hnames hkey hq hsuffix
      rw [Option.map_some, Option.map_some,
        written_of_not_contains (hdeclares.trans (decide_eq_false hqp))]

end Splitting

/-- A component may be split before or after it is written. -/
theorem split_written {c : Component ν} {value : Value} (hfit : c.Fit fun _ => True)
    (hnames : c.SuffixesIn suffix? names) (hkey : key ∉ names)
    (haccepted : c.contains key = true → c.checkSet key value = .ok ()) :
    withoutKeys suffix? (c.written key value) = (withoutKeys suffix? c).map (written key value) ∧
      alternatives suffix? (c.written key value)
        = (alternatives suffix? c).map (written key value) := by
  cases c with
  | oneOf o =>
    obtain ⟨o', ho'⟩ := written_oneOf key value o
    simp [withoutKeys, alternatives, ho']
  | conditional s =>
    obtain ⟨s', hs'⟩ := written_conditional key value s
    simp [withoutKeys, alternatives, hs']
  | collection c =>
    have hdistinct : Parameter.Distinct c.parameters := Collection.Fit.distinct hfit
    -- a collection without the key is left as it is, and so are its parts:
    cases hcontains : (collection c).contains key with
    | false =>
      obtain ⟨hleft, hmoved⟩ := filter_split_of_not_contains hfit hnames hkey hcontains
      rw [written_of_not_contains hcontains, map_written_of_filter_eq_nil hleft,
        map_written_of_filter_eq_nil hmoved]
      exact ⟨rfl, rfl⟩
    | true =>
      obtain ⟨p, hp⟩ := Collection.contains_iff.1 hcontains
      obtain ⟨w, hw⟩ := (Collection.checkSet_eq_ok hp).1 (haccepted hcontains)
      obtain rfl := Collection.name_of_parameter? hp
      have hsame : ∀ q, c.parameter? p.name = some q → q = p := fun q hq =>
        Option.some.inj (hq.symm.trans hp)
      rw [written_collection hdistinct hsame hw]
      exact ⟨withoutKeys_replaced hdistinct hp hw,
        alternatives_replaced hdistinct hnames hkey hp hw⟩

/-- Keys may be moved before or after one of them is written. -/
theorem withSuffixes_map_written {value : Value} (h : Apart suffix? names cs)
    (hkey : key ∉ names)
    (haccepted : ∀ c ∈ cs, c.contains key = true → c.checkSet key value = .ok ()) :
    withSuffixes suffix? (cs.map (written key value))
      = (withSuffixes suffix? cs).map (written key value) := by
  have hsplit := fun c hc =>
    split_written (h.fit c hc) (h.suffixesIn c hc) hkey (haccepted c hc)
  unfold withSuffixes
  rw [List.map_append, List.map_flatMap, List.map_flatMap, List.flatMap_map, List.flatMap_map,
    List.flatMap_congr fun c hc => (hsplit c hc).1, List.flatMap_congr fun c hc => (hsplit c hc).2]

theorem SuffixesIn.written {c : Component ν} {value : Value} (h : c.SuffixesIn suffix? names)
    (haccepted : c.contains key = true → c.checkSet key value = .ok ()) :
    (c.written key value).SuffixesIn suffix? names := by
  unfold Component.written
  split
  · next hcontains =>
    obtain ⟨c', hset⟩ := set_of_checkSet_eq_ok hcontains (haccepted hcontains)
    rw [Edit.stateAfter_of_ok hset]
    cases written_of_set hset with
    | oneOf | conditional => trivial
    | collection hpart =>
      obtain ⟨p, hp⟩ := Collection.contains_iff.1 hcontains
      obtain ⟨w, -, rfl⟩ := (Collection.set_eq_ok hp).1 hpart
      intro q hq name hname
      rcases Parameter.mem_put hq with rfl | hq
      · exact h p (Parameter.mem_of_find? hp) name hname
      · exact h q hq name hname
  · exact h

/-- After a write the components have as little in common as before. -/
theorem Apart.map_written {value : Value} (h : Apart suffix? names cs)
    (haccepted : ∀ c ∈ cs, c.contains key = true → c.checkSet key value = .ok ()) :
    Apart suffix? names (cs.map (written key value)) := by
  have hwritten : ∀ c ∈ cs, c.written key value = c ∨
      c.contains key = true ∧ Component.set key value c = .ok () (c.written key value) := by
    intro c hc
    unfold written
    split
    · next hcontains =>
      obtain ⟨c', hset⟩ := set_of_checkSet_eq_ok hcontains (haccepted c hc hcontains)
      rw [Edit.stateAfter_of_ok hset]
      exact .inr ⟨hcontains, hset⟩
    · exact .inl rfl
  have hcontains : ∀ c ∈ cs, ∀ k, (c.written key value).contains k = true →
      c.contains k = true := by
    intro c hc k hk
    rcases hwritten c hc with hsame | ⟨hkey, hset⟩
    · rwa [hsame] at hk
    · exact contains_of_set hkey hset hk
  -- the conditions hold component by component, written or not:
  refine ⟨List.forall_mem_map.2 ?_, List.forall_mem_map.2 ?_, List.forall_mem_map.2 ?_,
    List.pairwise_map.2 ?_⟩
  · intro c hc
    rcases hwritten c hc with hsame | ⟨-, hset⟩
    · rw [hsame]
      exact h.shaped c hc
    · exact (h.shaped c hc).set hset
  · intro c hc
    rcases hwritten c hc with hsame | ⟨hkey, hset⟩
    · rw [hsame]
      exact h.fit c hc
    · exact (kept_set (h.fit c hc) hkey hset).fit
  · exact fun c hc => (h.suffixesIn c hc).written (haccepted c hc)
  · apply h.apart.imp_of_mem
    intro c d hc hd hapart k hk
    rw [Bool.eq_false_iff]
    intro hdk
    have hnot := hapart k (hcontains c hc k hk)
    rw [hcontains d hd k hdk] at hnot
    cases hnot

end Component

end SpecTree
