import Mathlib.Data.List.Basic
import SpecTree.Proofs.Shape
import SpecTree.Proofs.Suffix.Alternative

/-!
# Keys that are moved into alternatives

Components in which every plain parameter with a suffix has moved from its collection into an
alternative at the end (`Component.withSuffixes`). Where no key is declared in two components
(`Component.Apart`), nobody can tell who does not ask for the suffixes:

* `forall₂_alike_withSuffixes`: the components that declare a key answer alike;
* `all_isComplete_withSuffixes`, `any_hasValue_withSuffixes`: the components together are as
  complete as before, and hold as many values.
-/

namespace SpecTree

variable {ν : Type}

/-! ## Lists of parameters -/

namespace Parameter

variable {ps : List (Parameter ν)} {key : String}

theorem find?_filter_name (keep : String → Bool) (ps : List (Parameter ν)) (k : String) :
    find? (ps.filter fun p => keep p.name) k = if keep k then find? ps k else none := by
  induction ps with
  | nil => rw [List.filter_nil]; split <;> rfl
  | cons p ps ih =>
    rw [find?_cons]
    by_cases hp : keep p.name
    · rw [List.filter_cons_of_pos (by simpa using hp), find?_cons, ih]
      by_cases hk : p.name = k
      · rw [if_pos hk, if_pos hk, if_pos (hk ▸ hp)]
      · rw [if_neg hk, if_neg hk]
    · rw [List.filter_cons_of_neg (by simpa using hp), ih]
      by_cases hk : p.name = k
      · rw [if_neg (hk ▸ hp), if_neg (hk ▸ hp)]
      · rw [if_neg hk]

/-- Where no name comes twice, a list that is drawn from the parameters of one name has one item
at most. -/
theorem filterMap_eq_toList {α : Type} {f : Parameter ν → Option α} (h : Distinct ps)
    (hf : ∀ p ∈ ps, p.name ≠ key → f p = none) :
    ps.filterMap f = ((find? ps key).bind f).toList := by
  induction ps with
  | nil => rfl
  | cons p ps ih =>
    rw [Distinct, List.map_cons, List.nodup_cons] at h
    rw [find?_cons]
    by_cases hp : p.name = key
    · have hrest : ps.filterMap f = [] := by
        rw [List.filterMap_eq_nil_iff]
        intro q hq
        apply hf q (List.mem_cons_of_mem _ hq)
        intro hname
        exact h.1 (List.mem_map.2 ⟨q, hq, hname.trans hp.symm⟩)
      rw [if_pos hp, List.filterMap_cons, hrest, Option.bind_some]
      cases f p <;> rfl
    · rw [if_neg hp, List.filterMap_cons, hf p List.mem_cons_self hp,
        ih h.2 fun q hq => hf q (List.mem_cons_of_mem _ hq)]

end Parameter

/-! ## Moving keys -/

/-- What is left of a collection without the keys that have a suffix. -/
def Collection.withoutKeys (suffix? : String → Option String) (c : Collection ν) : Collection ν :=
  { c with parameters := c.parameters.filter fun p => (suffix? p.name).isNone }

namespace Component

/-- What is left of a component without the keys that have a suffix. -/
def withoutKeys (suffix? : String → Option String) : Component ν → List (Component ν)
  | collection c =>
    if (c.withoutKeys suffix?).isEmpty then [] else [collection (c.withoutKeys suffix?)]
  | c => [c]

/-- The alternatives between the keys of a component and their suffixes. -/
def alternatives (suffix? : String → Option String) : Component ν → List (Component ν)
  | collection c => c.parameters.filterMap fun p => (suffix? p.name).map fun name =>
      oneOf (p.keyOrSuffix name)
  | _ => []

theorem withoutKeys_collection (suffix? : String → Option String) (c : Collection ν) :
    withoutKeys suffix? (collection c) =
      if (c.withoutKeys suffix?).isEmpty then [] else [collection (c.withoutKeys suffix?)] := rfl

theorem alternatives_collection (suffix? : String → Option String) (c : Collection ν) :
    alternatives suffix? (collection c) =
      c.parameters.filterMap fun p => (suffix? p.name).map fun name =>
        oneOf (p.keyOrSuffix name) := rfl

/-- Components with alternatives at the end for the keys that have a suffix. -/
def withSuffixes (suffix? : String → Option String) (cs : List (Component ν)) :
    List (Component ν) :=
  cs.flatMap (withoutKeys suffix?) ++ cs.flatMap (alternatives suffix?)

/-- The suffixes for the plain parameters of a component are among the names. -/
def SuffixesIn (suffix? : String → Option String) (names : List String) : Component ν → Prop
  | collection c => ∀ p ∈ c.parameters, ∀ name, suffix? p.name = some name → name ∈ names
  | _ => True

/-- Components that are fit, with something to fill in each, and that have no key in common. -/
structure Apart [Judged ν] (suffix? : String → Option String) (names : List String)
    (cs : List (Component ν)) : Prop where
  shaped : ∀ c ∈ cs, c.Shaped
  fit : ∀ c ∈ cs, c.Fit fun _ => True
  suffixesIn : ∀ c ∈ cs, c.SuffixesIn suffix? names
  apart : cs.Pairwise fun c d => ∀ k, c.contains k = true → d.contains k = false

/-- Both components answer alike where a key is concerned. -/
structure Alike [Judged ν] (key : String) (c d : Component ν) : Prop where
  checkSet : ∀ value, c.checkSet key value = d.checkSet key value
  parameter? : c.parameter? key = d.parameter? key

theorem Alike.refl [Judged ν] (key : String) (c : Component ν) : Alike key c c :=
  ⟨fun _ => rfl, rfl⟩

end Component

variable {suffix? : String → Option String} {names : List String} {key : String}

/-! ## Where a key is declared -/

/-- What is left of a collection declares the keys without a suffix. -/
theorem Collection.parameter?_withoutKeys (suffix? : String → Option String) (c : Collection ν)
    (key : String) :
    (c.withoutKeys suffix?).parameter? key
      = if (suffix? key).isNone then c.parameter? key else none :=
  Parameter.find?_filter_name (fun k => (suffix? k).isNone) c.parameters key

/-- A collection that declares a key is not empty. -/
theorem Collection.isEmpty_of_contains {c : Collection ν} (h : c.contains key = true) :
    c.isEmpty = false := by
  obtain ⟨p, hp⟩ := contains_iff.1 h
  exact List.isEmpty_eq_false_iff.2 (List.ne_nil_of_mem (Parameter.mem_of_find? hp))

namespace Component

variable {c : Collection ν}

theorem filter_withoutKeys (c : Collection ν) (key : String) :
    (withoutKeys suffix? (.collection c)).filter (·.contains key)
      = if (c.withoutKeys suffix?).contains key then [.collection (c.withoutKeys suffix?)]
        else [] := by
  cases hkey : (c.withoutKeys suffix?).contains key with
  | true =>
    rw [withoutKeys, Collection.isEmpty_of_contains hkey, if_pos rfl]
    exact List.filter_cons_of_pos (p := fun d : Component ν => d.contains key) hkey
  | false =>
    rw [withoutKeys, if_neg Bool.false_ne_true, List.filter_eq_nil_iff]
    intro d hd
    split at hd
    · cases hd
    · rw [List.mem_singleton.1 hd]
      exact Bool.eq_false_iff.1 hkey

theorem contains_keyOrSuffix (hnames : (collection c).SuffixesIn suffix? names)
    (hkey : key ∉ names) {p : Parameter ν} (hp : p ∈ c.parameters) {name : String}
    (hname : suffix? p.name = some name) :
    (oneOf (p.keyOrSuffix name)).contains key = decide (p.name = key) := by
  apply OneOf.contains_keyOrSuffix
  rintro rfl
  exact hkey (hnames p hp key hname)

/-- A key is declared in the alternative that it has moved to. -/
theorem filter_alternatives (hfit : c.Fit fun _ => True)
    (hnames : (collection c).SuffixesIn suffix? names) (hkey : key ∉ names) :
    (alternatives suffix? (.collection c)).filter (·.contains key)
      = ((c.parameter? key).bind fun p => (suffix? p.name).map fun name =>
          Component.oneOf (p.keyOrSuffix name)).toList := by
  -- the alternatives of all other parameters are filtered out:
  have hfilter : (alternatives suffix? (.collection c)).filter (·.contains key)
      = c.parameters.filterMap fun p => if p.name = key then
          (suffix? p.name).map fun name => Component.oneOf (p.keyOrSuffix name) else none := by
    unfold alternatives
    rw [List.filter_filterMap]
    apply List.filterMap_congr
    intro p hp
    cases hname : suffix? p.name with
    | none => simp
    | some name =>
      have hcontains := contains_keyOrSuffix hnames hkey hp hname
      by_cases hpk : p.name = key
      · simp [hpk, hcontains]
      · simp [hpk, hcontains]
  rw [hfilter, Parameter.filterMap_eq_toList hfit.distinct fun p _ hpk => if_neg hpk]
  congr 1
  unfold Collection.parameter?
  cases hp : Parameter.find? c.parameters key with
  | none => rfl
  | some p => simp only [Option.bind_some, if_pos (Parameter.name_of_find? hp)]

variable [Judged ν]

/-- A parameter with a suffix answers from its alternative as from its collection. -/
theorem alike_keyOrSuffix {p : Parameter ν} (hp : c.parameter? key = some p) {name : String}
    (hkey : key ≠ name) : Alike key (.collection c) (.oneOf (p.keyOrSuffix name)) := by
  have hname := Collection.name_of_parameter? hp
  subst hname
  constructor
  · intro value
    show c.checkSet p.name value = ((p.keyOrSuffix name).plan p.name (some value)).map fun _ => ()
    rw [Collection.checkSet_of_parameter? hp, OneOf.plan_keyOrSuffix p hkey]
    cases p.check value <;> rfl
  · show c.parameter? p.name = (p.keyOrSuffix name).parameter? p.name
    rw [hp, OneOf.parameter?_keyOrSuffix p hkey, if_pos rfl]

/-- What a component is split into does not declare other keys than the component. -/
theorem filter_split_of_not_contains {c : Component ν} (hfit : c.Fit fun _ => True)
    (hnames : c.SuffixesIn suffix? names) (hkey : key ∉ names) (h : c.contains key = false) :
    (withoutKeys suffix? c).filter (·.contains key) = [] ∧
      (alternatives suffix? c).filter (·.contains key) = [] := by
  cases c with
  | oneOf o => exact ⟨by simp [withoutKeys, h], rfl⟩
  | conditional s => exact ⟨by simp [withoutKeys, h], rfl⟩
  | collection c =>
    have hnone : c.parameter? key = none := parameter?_eq_none h
    have hleft : (c.withoutKeys suffix?).contains key = false := by
      unfold Collection.contains
      rw [Collection.parameter?_withoutKeys, hnone]
      split <;> rfl
    rw [filter_withoutKeys, hleft, filter_alternatives hfit hnames hkey, hnone]
    exact ⟨rfl, rfl⟩

/-- What a component is split into declares the keys of the component in one place each. -/
theorem filter_split_of_contains {c : Component ν} (hfit : c.Fit fun _ => True)
    (hnames : c.SuffixesIn suffix? names) (hkey : key ∉ names) (h : c.contains key = true) :
    ∃ d, Alike key c d ∧ (withoutKeys suffix? c).filter (·.contains key)
      ++ (alternatives suffix? c).filter (·.contains key) = [d] := by
  cases c with
  | oneOf o => exact ⟨.oneOf o, .refl _ _, by simp [withoutKeys, alternatives, h]⟩
  | conditional s => exact ⟨.conditional s, .refl _ _, by simp [withoutKeys, alternatives, h]⟩
  | collection c =>
    obtain ⟨p, hp⟩ := Collection.contains_iff.1 h
    have hname := Collection.name_of_parameter? hp
    have hleft := Collection.parameter?_withoutKeys suffix? c key
    rw [filter_withoutKeys, filter_alternatives hfit hnames hkey, hp, Option.bind_some, hname]
    unfold Collection.contains
    -- a key with a suffix is moved into alternatives, any other one stays:
    cases hsuffix : suffix? key with
    | some name =>
      have hne : key ≠ name := by
        rintro rfl
        exact hkey (hnames p (Parameter.mem_of_find? hp) key (hname.symm ▸ hsuffix))
      rw [hleft, hsuffix]
      exact ⟨_, alike_keyOrSuffix hp hne, rfl⟩
    | none =>
      simp only [hsuffix, Option.isNone_none, if_true, hp] at hleft
      rw [hleft]
      refine ⟨.collection (c.withoutKeys suffix?), ⟨fun value => ?_, hp.trans hleft.symm⟩, rfl⟩
      show c.checkSet key value = (c.withoutKeys suffix?).checkSet key value
      rw [Collection.checkSet_of_parameter? hp, Collection.checkSet_of_parameter? hleft]

/-- Where one item of a list gives something at most, so does the whole list. -/
theorem flatMap_of_single {α β : Type} {f : α → List β} {pre post : List α} {a : α}
    (hpre : ∀ b ∈ pre, f b = []) (hpost : ∀ b ∈ post, f b = []) :
    (pre ++ a :: post).flatMap f = f a := by
  rw [List.flatMap_append, List.flatMap_cons, List.flatMap_eq_nil_iff.2 hpre,
    List.flatMap_eq_nil_iff.2 hpost, List.nil_append, List.append_nil]

variable {cs : List (Component ν)}

/-- Where no key is declared twice, the components that declare a key answer like those that did
before the keys were moved. -/
theorem forall₂_alike_withSuffixes (h : Apart suffix? names cs) (hkey : key ∉ names) :
    List.Forall₂ (Alike key) (cs.filter (·.contains key))
      ((withSuffixes suffix? cs).filter (·.contains key)) := by
  have hnot : ∀ c ∈ cs, c.contains key = false →
      (withoutKeys suffix? c).filter (·.contains key) = [] ∧
        (alternatives suffix? c).filter (·.contains key) = [] := fun c hc =>
    filter_split_of_not_contains (h.fit c hc) (h.suffixesIn c hc) hkey
  rw [withSuffixes, List.filter_append, List.filter_flatMap, List.filter_flatMap]
  cases hfind : cs.find? (·.contains key) with
  | none =>
    have hnone : ∀ c ∈ cs, c.contains key = false := fun c hc => by
      simpa using List.find?_eq_none.1 hfind c hc
    rw [List.flatMap_eq_nil_iff.2 fun c hc => (hnot c hc (hnone c hc)).1,
      List.flatMap_eq_nil_iff.2 fun c hc => (hnot c hc (hnone c hc)).2,
      List.filter_eq_nil_iff.2 fun c hc => Bool.eq_false_iff.1 (hnone c hc)]
    exact .nil
  | some c =>
    obtain ⟨hc, pre, post, rfl, hpre⟩ := List.find?_eq_some_iff_append.1 hfind
    -- the key is declared neither in front of the component nor behind it:
    have hpre : ∀ d ∈ pre, d.contains key = false := fun d hd => by simpa using hpre d hd
    have hpost : ∀ d ∈ post, d.contains key = false := fun d hd =>
      (List.pairwise_cons.1 (List.pairwise_append.1 h.apart).2.1).1 d hd key hc
    have hpremem : ∀ d ∈ pre, d ∈ pre ++ c :: post := fun d hd => List.mem_append_left _ hd
    have hpostmem : ∀ d ∈ post, d ∈ pre ++ c :: post := fun d hd =>
      List.mem_append_right _ (List.mem_cons_of_mem _ hd)
    have hcmem : c ∈ pre ++ c :: post := List.mem_append_right _ List.mem_cons_self
    rw [flatMap_of_single (fun d hd => (hnot d (hpremem d hd) (hpre d hd)).1)
        (fun d hd => (hnot d (hpostmem d hd) (hpost d hd)).1),
      flatMap_of_single (fun d hd => (hnot d (hpremem d hd) (hpre d hd)).2)
        (fun d hd => (hnot d (hpostmem d hd) (hpost d hd)).2),
      List.filter_append, List.filter_eq_nil_iff.2 fun d hd => Bool.eq_false_iff.1 (hpre d hd),
      List.filter_cons_of_pos (p := fun d : Component ν => d.contains key) hc,
      List.filter_eq_nil_iff.2 fun d hd => Bool.eq_false_iff.1 (hpost d hd)]
    obtain ⟨d, hd, hsplit⟩ := filter_split_of_contains (h.fit c hcmem) (h.suffixesIn c hcmem)
      hkey hc
    rw [hsplit]
    exact .cons hd .nil

/-! ## What is shown -/

/-- Only the components that declare a key can show it. -/
theorem findSome?_parameter?_eq (cs : List (Component ν)) (key : String) :
    cs.findSome? (·.parameter? key) = (cs.filter (·.contains key)).findSome? (·.parameter? key) := by
  induction cs with
  | nil => rfl
  | cons c cs ih =>
    rw [List.findSome?_cons]
    cases hc : c.contains key with
    | true =>
      rw [List.filter_cons_of_pos (p := fun d : Component ν => d.contains key) hc,
        List.findSome?_cons, ih]
    | false =>
      rw [List.filter_cons_of_neg (p := fun d : Component ν => d.contains key)
        (Bool.eq_false_iff.1 hc), parameter?_eq_none hc, ih]

theorem findSome?_parameter?_of_alike {ds es : List (Component ν)}
    (h : List.Forall₂ (Alike key) ds es) :
    ds.findSome? (·.parameter? key) = es.findSome? (·.parameter? key) := by
  induction h with
  | nil => rfl
  | cons hd _ ih => rw [List.findSome?_cons, List.findSome?_cons, hd.parameter?, ih]

/-- Components that declare a key and answer alike accept the same values, and refuse the others
with the same error. -/
theorem forM_checkSet_of_alike {ds es : List (Component ν)} (h : List.Forall₂ (Alike key) ds es)
    (value : Value) :
    ds.forM (checkSet key value) = es.forM (checkSet key value) := by
  induction h with
  | nil => rfl
  | cons hd _ ih => rw [List.forM, List.forM, hd.checkSet, ih]

/-! ## What is complete, and what holds a value -/

/-- What is left of a collection is complete if all parameters without a suffix are. -/
theorem isComplete_withoutKeys_iff {c : Collection ν} :
    (∀ d ∈ withoutKeys suffix? (.collection c), d.isComplete = true) ↔
      ∀ p ∈ c.parameters, suffix? p.name = none → p.isComplete = true := by
  rw [withoutKeys_collection]
  split
  · next hempty =>
    have hnil : c.parameters.filter (fun p => (suffix? p.name).isNone) = [] :=
      List.isEmpty_iff.1 hempty
    have hnone := List.filter_eq_nil_iff.1 hnil
    refine ⟨fun _ p hp hsuffix => ?_, fun _ => List.forall_mem_nil _⟩
    exact absurd (Option.isNone_iff_eq_none.2 hsuffix) (hnone p hp)
  · next hempty =>
    rw [List.forall_mem_singleton]
    show (if (c.withoutKeys suffix?).isEmpty then _ else _) = true ↔ _
    rw [if_neg hempty, List.all_eq_true]
    simp [Collection.withoutKeys]

/-- An alternative is complete if its key is. -/
theorem isComplete_alternatives_iff {c : Collection ν} (hfit : c.Fit fun _ => True) :
    (∀ d ∈ alternatives suffix? (.collection c), d.isComplete = true) ↔
      ∀ p ∈ c.parameters, suffix? p.name ≠ none → p.isComplete = true := by
  rw [alternatives_collection, List.forall_mem_filterMap]
  refine forall₂_congr fun p hp => ?_
  cases suffix? p.name with
  | none => simp
  | some name =>
    have hcomplete : (p.keyOrSuffix name).isComplete = p.isComplete :=
      OneOf.isComplete_keyOrSuffix p (hfit.parameters p hp).optional
    simpa [isComplete] using hcomplete

theorem isComplete_iff_split {c : Component ν} (hfit : c.Fit fun _ => True) (hshaped : c.Shaped) :
    c.isComplete = true ↔ (∀ d ∈ withoutKeys suffix? c, d.isComplete = true) ∧
      ∀ d ∈ alternatives suffix? c, d.isComplete = true := by
  cases c with
  | oneOf o => simp [withoutKeys, alternatives]
  | conditional s => simp [withoutKeys, alternatives]
  | collection c =>
    have hne : c.parameters ≠ [] := hshaped
    rw [isComplete_withoutKeys_iff, isComplete_alternatives_iff hfit]
    show (if c.isEmpty then _ else _) = true ↔ _
    rw [if_neg (by simpa [Collection.isEmpty] using hne), List.all_eq_true, ← forall₂_and]
    refine forall₂_congr fun p _ => ?_
    by_cases hsuffix : suffix? p.name = none <;> simp [hsuffix]

/-- Nothing is more or less complete for its keys having been moved. -/
theorem all_isComplete_withSuffixes (h : Apart suffix? names cs) :
    (withSuffixes suffix? cs).all isComplete = cs.all isComplete := by
  rw [Bool.eq_iff_iff, List.all_eq_true, List.all_eq_true]
  unfold withSuffixes
  rw [List.forall_mem_append, List.forall_mem_flatMap, List.forall_mem_flatMap, ← forall₂_and]
  exact forall₂_congr fun c hc => (isComplete_iff_split (h.fit c hc) (h.shaped c hc)).symm

theorem hasValue_withoutKeys_iff {c : Collection ν} :
    (∃ d ∈ withoutKeys suffix? (.collection c), d.hasValue = true) ↔
      ∃ p ∈ c.parameters, suffix? p.name = none ∧ p.hasValue = true := by
  have hleft : (c.withoutKeys suffix?).hasValue = true ↔
      ∃ p ∈ c.parameters, suffix? p.name = none ∧ p.hasValue = true := by
    unfold Collection.hasValue
    rw [List.any_eq_true]
    simp [Collection.withoutKeys, and_assoc]
  rw [withoutKeys_collection, ← hleft]
  split
  · next hempty =>
    have hnil : (c.withoutKeys suffix?).parameters = [] := List.isEmpty_iff.1 hempty
    simp [Collection.hasValue, hnil]
  · refine ⟨?_, fun hv => ⟨_, List.mem_singleton_self _, hv⟩⟩
    rintro ⟨d, hd, hv⟩
    rwa [List.mem_singleton.1 hd] at hv

theorem hasValue_alternatives_iff {c : Collection ν} :
    (∃ d ∈ alternatives suffix? (.collection c), d.hasValue = true) ↔
      ∃ p ∈ c.parameters, suffix? p.name ≠ none ∧ p.hasValue = true := by
  rw [alternatives_collection]
  constructor
  · rintro ⟨d, hd, hv⟩
    obtain ⟨p, hp, hmap⟩ := List.mem_filterMap.1 hd
    obtain ⟨name, hname, rfl⟩ := Option.map_eq_some_iff.1 hmap
    exact ⟨p, hp, by simp [hname], (OneOf.hasValue_keyOrSuffix p).symm.trans hv⟩
  · rintro ⟨p, hp, hsuffix, hv⟩
    obtain ⟨name, hname⟩ := Option.ne_none_iff_exists'.1 hsuffix
    exact ⟨.oneOf (p.keyOrSuffix name), List.mem_filterMap.2 ⟨p, hp, by rw [hname]; rfl⟩,
      (OneOf.hasValue_keyOrSuffix p).trans hv⟩

theorem hasValue_iff_split (suffix? : String → Option String) (c : Component ν) :
    c.hasValue = true ↔ (∃ d ∈ withoutKeys suffix? c, d.hasValue = true) ∨
      ∃ d ∈ alternatives suffix? c, d.hasValue = true := by
  cases c with
  | oneOf o => simp [withoutKeys, alternatives]
  | conditional s => simp [withoutKeys, alternatives]
  | collection c =>
    rw [hasValue_withoutKeys_iff, hasValue_alternatives_iff, ← exists_or]
    show c.parameters.any Parameter.hasValue = true ↔ _
    rw [List.any_eq_true]
    refine exists_congr fun p => ?_
    by_cases hsuffix : suffix? p.name = none <;> simp [hsuffix]

/-- No value is lost, and none is found, for the keys having been moved. -/
theorem any_hasValue_withSuffixes (suffix? : String → Option String) (cs : List (Component ν)) :
    (withSuffixes suffix? cs).any hasValue = cs.any hasValue := by
  rw [Bool.eq_iff_iff, List.any_eq_true, List.any_eq_true]
  unfold withSuffixes
  simp only [List.mem_append, List.mem_flatMap]
  constructor
  · rintro ⟨d, ⟨c, hc, hd⟩ | ⟨c, hc, hd⟩, hv⟩
    · exact ⟨c, hc, (hasValue_iff_split suffix? c).2 (.inl ⟨d, hd, hv⟩)⟩
    · exact ⟨c, hc, (hasValue_iff_split suffix? c).2 (.inr ⟨d, hd, hv⟩)⟩
  · rintro ⟨c, hc, hv⟩
    rcases (hasValue_iff_split suffix? c).1 hv with ⟨d, hd, hdv⟩ | ⟨d, hd, hdv⟩
    · exact ⟨d, .inl ⟨c, hc, hd⟩, hdv⟩
    · exact ⟨d, .inr ⟨c, hc, hd⟩, hdv⟩

end Component

end SpecTree
