import SpecTree.Proofs.Sound.Node
import SpecTree.Proofs.Suffix.Building
import SpecTree.Proofs.Suffix.Trees

/-!
# Suffixes for keys are a conservative extension

Whoever does not ask for the suffixes that a definition is given cannot tell its tree from that of
the definition as it was read: `Definition.withSuffixes_conservative`. Where the tree is a choice,
the selector takes the place of a parameter of its name; that it does so before the keys are moved
or after makes no difference (`Component.withSuffixes_filterMap_without`).
-/

namespace SpecTree

variable {ν : Type}

/-! ## Taking a parameter out -/

namespace Component

/-- The component without a plain parameter, unless nothing is left of it. -/
def without (key : String) : Component ν → Option (Component ν)
  | collection c => if (c.remove key).isEmpty then none else some (collection (c.remove key))
  | c => some c

theorem without_collection (key : String) (c : Collection ν) :
    (collection c).without key =
      if (c.remove key).isEmpty then none else some (collection (c.remove key)) := rfl

/-- A parameter is taken out of each collection, and a collection goes with its last one. -/
theorem components_removeParameter (s : Spec ν) (key : String) :
    (s.removeParameter key).components = s.components.filterMap (without key) := by
  unfold Spec.removeParameter
  apply List.filterMap_congr
  intro c _
  cases c <;> rfl

variable {suffix? : String → Option String} {names : List String} {key : String}

/-- Something is taken out of collections only, and never all that is in them. -/
theorem without_cases {c d : Component ν} (h : c.without key = some d) :
    d = c ∨ ∃ g : Collection ν, c = .collection g ∧ (g.remove key).isEmpty = false ∧
      d = .collection (g.remove key) := by
  cases c with
  | oneOf o => exact .inl (Option.some.inj h).symm
  | conditional s => exact .inl (Option.some.inj h).symm
  | collection g =>
    rw [without_collection] at h
    split at h
    · cases h
    · next hleft => exact .inr ⟨g, rfl, Bool.eq_false_iff.2 hleft, (Option.some.inj h).symm⟩

/-- A component without a key declares no more than before. -/
theorem contains_of_without {c d : Component ν} (h : c.without key = some d) {k : String}
    (hk : d.contains k = true) : c.contains k = true := by
  obtain rfl | ⟨g, rfl, -, rfl⟩ := without_cases h
  · exact hk
  · obtain ⟨p, hp⟩ := Collection.contains_iff.1 hk
    have hp : Parameter.find? (g.parameters.filter fun p => decide (p.name ≠ key)) k = some p := hp
    rw [Parameter.find?_filter_name (fun name => decide (name ≠ key))] at hp
    split at hp
    · exact Collection.contains_iff.2 ⟨p, hp⟩
    · cases hp

/-- Keys may be moved out of a component before a parameter is taken out, or after. -/
theorem flatMap_withoutKeys_without (key : String) (c : Component ν) :
    (c.without key).toList.flatMap (withoutKeys suffix?)
      = (withoutKeys suffix? c).filterMap (without key) := by
  cases c with
  | oneOf o => rfl
  | conditional s => rfl
  | collection c =>
    -- both take parameters out, so it does not matter which is first:
    have hcomm : (c.remove key).withoutKeys suffix? = (c.withoutKeys suffix?).remove key := by
      unfold Collection.remove Collection.withoutKeys
      simp only [List.filter_filter, Bool.and_comm]
    have hsub : ∀ {c : Collection ν} {keep : Parameter ν → Bool}, c.isEmpty = true →
        (c.parameters.filter keep).isEmpty = true := by
      intro c keep h
      rw [List.isEmpty_iff.1 h]
      rfl
    rw [without_collection, withoutKeys_collection]
    -- a collection that is left empty is dropped, by either of the two:
    by_cases hremoved : (c.remove key).isEmpty = true
    · have hboth : ((c.withoutKeys suffix?).remove key).isEmpty = true := by
        rw [← hcomm]
        exact hsub hremoved
      rw [if_pos hremoved]
      split
      · rfl
      · rw [List.filterMap_cons, without_collection, if_pos hboth]
        rfl
    · rw [if_neg hremoved, Option.toList_some, List.flatMap_singleton, withoutKeys_collection,
        hcomm]
      by_cases hkeys : (c.withoutKeys suffix?).isEmpty = true
      · have hboth : ((c.withoutKeys suffix?).remove key).isEmpty = true := hsub hkeys
        rw [if_pos hkeys, if_pos hboth]
        rfl
      · rw [if_neg hkeys, List.filterMap_cons, without_collection]
        split <;> rfl

/-- A parameter that has no suffix has no alternative. -/
theorem flatMap_alternatives_without (hkey : suffix? key = none) (c : Component ν) :
    (c.without key).toList.flatMap (alternatives suffix?)
      = (alternatives suffix? c).filterMap (without key) := by
  cases c with
  | oneOf o => rfl
  | conditional s => rfl
  | collection c =>
    -- nothing is taken out of alternatives:
    have hkept : (alternatives suffix? (collection c)).filterMap (without key)
        = alternatives suffix? (collection c) := by
      rw [alternatives_collection, List.filterMap_filterMap]
      apply List.filterMap_congr
      intro p _
      cases suffix? p.name <;> rfl
    have hremoved : alternatives suffix? (collection (c.remove key))
        = alternatives suffix? (collection c) := by
      rw [alternatives_collection, alternatives_collection]
      unfold Collection.remove
      rw [List.filterMap_filter]
      apply List.filterMap_congr
      intro p _
      by_cases hp : p.name = key
      · rw [hp, hkey]
        split <;> rfl
      · rw [if_pos (decide_eq_true hp)]
    rw [hkept, ← hremoved, without_collection]
    split
    · next hempty =>
      have hnil : (c.remove key).parameters = [] := List.isEmpty_iff.1 hempty
      rw [alternatives_collection, hnil]
      rfl
    · rw [Option.toList_some, List.flatMap_singleton]

/-- A rearrangement that goes with taking a key out of each component goes with taking it out of
all. -/
theorem flatMap_filterMap_without {move : Component ν → List (Component ν)}
    (h : ∀ c, (c.without key).toList.flatMap move = (move c).filterMap (without key))
    (cs : List (Component ν)) :
    (cs.filterMap (without key)).flatMap move = (cs.flatMap move).filterMap (without key) := by
  induction cs with
  | nil => rfl
  | cons c cs ih =>
    rw [List.flatMap_cons, List.filterMap_append, ← h c, ← ih, List.filterMap_cons]
    cases without key c with
    | none => rfl
    | some d => rw [List.flatMap_cons, Option.toList_some, List.flatMap_singleton]

/-- A key that is no suffix may be taken out before or after the suffixes are put in. -/
theorem withSuffixes_filterMap_without (hkey : suffix? key = none) (cs : List (Component ν)) :
    withSuffixes suffix? (cs.filterMap (without key))
      = (withSuffixes suffix? cs).filterMap (without key) := by
  unfold withSuffixes
  rw [List.filterMap_append, flatMap_filterMap_without (flatMap_withoutKeys_without key),
    flatMap_filterMap_without (flatMap_alternatives_without hkey)]

/-- A spec loses a key that is no suffix before or after the suffixes are put in. -/
theorem removeParameter_withSuffixes (hkey : suffix? key = none) (s : Spec ν) :
    ({ s with components := withSuffixes suffix? s.components } : Spec ν).removeParameter key
      = { s.removeParameter key with
          components := withSuffixes suffix? (s.removeParameter key).components } := by
  rw [components_removeParameter, withSuffixes_filterMap_without hkey]
  exact congrArg (fun components => { s with components })
    (components_removeParameter { s with components := withSuffixes suffix? s.components } key)

/-- Components stay apart when a parameter is taken out. -/
theorem Apart.without [Judged ν] {cs : List (Component ν)} (h : Apart suffix? names cs)
    (key : String) : Apart suffix? names (cs.filterMap (Component.without key)) where
  shaped c hc := by
    obtain ⟨d, hd, hdc⟩ := List.mem_filterMap.1 hc
    obtain rfl | ⟨g, rfl, hleft, rfl⟩ := without_cases hdc
    · exact h.shaped _ hd
    · exact List.isEmpty_eq_false_iff.1 hleft
  fit c hc := by
    obtain ⟨d, hd, hdc⟩ := List.mem_filterMap.1 hc
    obtain rfl | ⟨g, rfl, -, rfl⟩ := without_cases hdc
    · exact h.fit _ hd
    · exact Collection.Fit.remove (h.fit _ hd) key
  suffixesIn c hc := by
    obtain ⟨d, hd, hdc⟩ := List.mem_filterMap.1 hc
    obtain rfl | ⟨g, rfl, -, rfl⟩ := without_cases hdc
    · exact h.suffixesIn _ hd
    · exact fun p hp => h.suffixesIn _ hd p (List.mem_filter.1 hp).1
  apart := by
    refine h.apart.filterMap _ fun c d hcd c' hc d' hd k hk => ?_
    have hk : d.contains k = false := hcd k (contains_of_without hc hk)
    rw [Bool.eq_false_iff] at hk ⊢
    exact fun hk' => hk (contains_of_without hd hk')

end Component

/-! ## Trees of definitions -/

namespace Definition

variable {d : Definition}

/-- What has the suffix of a key ends like one. -/
theorem getLast?_of_suffix? {key name : String} (h : d.suffix? key = some name) :
    key.toList.getLast? = some 'y' ∧ name.toList.getLast? = some 'x' := by
  obtain ⟨stem, hstem, rfl⟩ := Option.map_eq_some_iff.1 (Option.filter_eq_some_iff.1 h).1
  obtain ⟨before, hbefore⟩ := Naming.suffix_of_withoutSuffix? (Option.filter_eq_some_iff.1 hstem).1
  constructor
  · rw [← hbefore, List.getLast?_append]
    rfl
  · rw [String.toList_append, List.getLast?_append]
    rfl

/-- A selector ends with the last letter of its word. -/
theorem getLast?_selectorOf (field : String) :
    (Choice.selectorOf field).toList.getLast? = some 'e' := by
  rw [Choice.selectorOf, String.toList_append, List.getLast?_append]
  rfl

/-- A selector has no suffix, and it is none. -/
theorem suffix?_selectorOf (d : Definition) (field : String) :
    d.suffix? (Choice.selectorOf field) = none := by
  rw [Option.eq_none_iff_forall_ne_some]
  intro name h
  have hlast := (getLast?_selectorOf field).symm.trans (getLast?_of_suffix? h).1
  cases hlast

/-- No suffix is a selector. -/
theorem selectorOf_not_mem_suffixNames (d : Definition) (field : String) :
    Choice.selectorOf field ∉ d.suffixNames := by
  intro h
  obtain ⟨part, -, hpart⟩ := List.mem_flatMap.1 h
  cases part with
  | parameters ds =>
    obtain ⟨p, -, hname⟩ := List.mem_filterMap.1 hpart
    have hlast := (getLast?_selectorOf field).symm.trans (getLast?_of_suffix? hname).2
    cases hlast
  | oneOf branches => cases hpart
  | conditional condition yes no => cases hpart

end Definition

namespace Definition

variable {d : Definition} {catalog : Catalog} {path : List String} {s : Spec Node}

/-- The spec of a definition with suffixes is the extension of that of the definition. -/
theorem extended_of_build (hd : d.WellFormed) (hnodup : (d.declarations.map (·.name)).Nodup)
    (hs : d.build (catalog.buildBelow path) = .ok s) :
    Component.Apart d.suffix? d.suffixNames s.components ∧ s.unknown = .error := by
  have hfit : s.Fit Node.Fresh := (Spec.fresh_of_build (fun _ _ hm => Catalog.fresh_of_buildBelow hm)
    (fun _ hm => hm.hasValue) hs).fit
  refine ⟨apart_of_build hd hnodup hs (hfit.mono fun _ _ => trivial), ?_⟩
  obtain ⟨components, -, hpure⟩ := bind_eq_ok.1 hs
  cases hpure
  rfl

/-- A choice is extended if the spec that is registered under its name is. -/
theorem extended_ofField (name field : String) (placement : Placement)
    (hapart : Component.Apart d.suffix? d.suffixNames s.components) :
    Choice.Extended d.suffix? d.suffixNames (.ofField name field placement (some s))
      (.ofField name field placement
        (some { s with components := Component.withSuffixes d.suffix? s.components })) := by
  refine ⟨?_, rfl, d.selectorOf_not_mem_suffixNames field⟩
  have hapart := hapart.without (Choice.selectorOf field)
  rw [← Component.components_removeParameter] at hapart
  unfold Choice.ofField
  by_cases hplacement : placement.hasTypeParameter = true
  · refine ⟨[.ofList [.primitive (Choice.selectorOf field) (.scalar .string)]], ⟨?_, _, [], hapart,
      ?_, ?_⟩, fun _ => List.cons_ne_nil _ _⟩
    all_goals simp only [if_pos hplacement]
    · rfl
    · rw [List.append_nil]
      rfl
    · rw [List.append_nil, Component.removeParameter_withSuffixes (d.suffix?_selectorOf field)]
      rfl
  · refine ⟨[], ⟨?_, _, [], hapart, ?_, ?_⟩, fun h => absurd h hplacement⟩
    all_goals simp only [if_neg hplacement]
    · rfl
    · rw [List.append_nil]
      rfl
    · rw [List.append_nil, Component.removeParameter_withSuffixes (d.suffix?_selectorOf field)]
      rfl

/-- Trees of a spec with and without suffixes are alike, whatever kind of node they are. -/
theorem extended_ofSpec (name : String)
    (hapart : Component.Apart d.suffix? d.suffixNames s.components) (hunknown : s.unknown = .error) :
    Node.Extended d.suffix? d.suffixNames (.ofSpec name s)
      (.ofSpec name { s with components := Component.withSuffixes d.suffix? s.components }) := by
  unfold Node.ofSpec
  split
  · next field placement _ => exact .choice (extended_ofField name field placement hapart)
  · exact .spec ⟨hunknown, s.components, [], hapart, (List.append_nil _).symm, by
      rw [List.append_nil]
      rfl⟩

/-- **Suffixes are a conservative extension.** If a tree can be built of a definition that was read
and that declares no name twice, then it can also be built with suffixes, and all writes to other
keys are answered alike and lead to trees that look alike. -/
theorem withSuffixes_conservative (hread : d.WasRead)
    (hnodup : (d.declarations.map (·.name)).Nodup)
    (hs : d.build (catalog.buildBelow path) = .ok s) :
    ∃ t, d.withSuffixes.build (catalog.buildBelow path) = .ok t ∧
      ∀ writes : List (String × Value), (∀ write ∈ writes, write.1 ∉ d.suffixNames) →
        let before := Node.setAll catalog writes (.ofSpec d.name s)
        let after := Node.setAll catalog writes (.ofSpec d.name t)
        before.1 = after.1 ∧
          before.2.isComplete = after.2.isComplete ∧ before.2.hasValue = after.2.hasValue ∧
          ∀ key ∉ d.suffixNames, before.2.get? key = after.2.get? key := by
  obtain ⟨hapart, hunknown⟩ := extended_of_build hread.wellFormed hnodup hs
  refine ⟨_, build_withSuffixes hread.wellFormed hnodup hs, fun writes hwrites => ?_⟩
  obtain ⟨hanswers, hlast⟩ := (extended_ofSpec d.name hapart hunknown).setAll catalog hwrites
  exact ⟨hanswers, hlast.isComplete, hlast.hasValue, fun _ hkey => hlast.get? hkey⟩

/-- A key, and a parameter that is not one. -/
def exampleKeyed : Definition where
  name := "beam-spec"
  parts := [.parameters [
    ⟨"beam key", .primitive (.scalar .string), none, false, "", ⟨"beam.hh", 2⟩⟩,
    ⟨"width", .primitive (.scalar .int), some (.int 1), true, "", ⟨"beam.hh", 3⟩⟩]]
  evaluators := []
  keys := []
  includes := []
  dependencies := []
  origin := ⟨"beam.hh", 1⟩

theorem wasRead_exampleKeyed : exampleKeyed.WasRead := by
  refine ⟨"beam.hh", "beam", CommentLine.numbered ["``[beam-spec]``", "* `\"beam key`\" ``[string]``",
    "* `\"width`\" ``[int]`` **1**"], [exampleKeyed], ?_, List.mem_cons_self⟩
  decide +kernel

theorem withSuffixes_conservative_exampleKeyed :
    exampleKeyed.suffixNames = ["beam suffix"] ∧
      ∀ catalog : Catalog, ∃ s t, exampleKeyed.build (catalog.buildBelow []) = .ok s ∧
        exampleKeyed.withSuffixes.build (catalog.buildBelow []) = .ok t ∧
        (Node.setAll catalog [("width", .int 2), ("beam key", .string "b")]
            (.ofSpec "beam-spec" s)).1
          = (Node.setAll catalog [("width", .int 2), ("beam key", .string "b")]
            (.ofSpec "beam-spec" t)).1 := by
  have hnames : exampleKeyed.suffixNames = ["beam suffix"] := by decide +kernel
  refine ⟨hnames, fun catalog => ?_⟩
  obtain ⟨s, hs⟩ : ∃ s, exampleKeyed.build (catalog.buildBelow []) = .ok s := by
    have hprimitive : ∀ part ∈ exampleKeyed.parts, ∀ p ∈ part.declarations,
        p.type.specName? = none := by decide
    refine exists_build wasRead_exampleKeyed.wellFormed fun part hpart p hp name hname => ?_
    have hnone := hprimitive part hpart p hp
    rw [hname] at hnone
    cases hnone
  obtain ⟨t, ht, halike⟩ := withSuffixes_conservative wasRead_exampleKeyed (by decide) hs
  refine ⟨s, t, hs, ht, (halike _ ?_).1⟩
  rw [hnames]
  decide

end Definition

end SpecTree
