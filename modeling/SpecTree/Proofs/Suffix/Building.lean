import Mathlib.Data.List.Forall2
import Mathlib.Data.List.Nodup
import SpecTree.Proofs.Suffix.Components

/-!
# Building definitions with suffixes for keys

A definition with suffixes is built into the components of the definition itself, with the keys
moved (`Definition.build_withSuffixes`). What is built declares what the definition does
(`Spec.contains_of_build`). Where that declares no name twice, the components have no key in common
(`Definition.apart_of_build`).
-/

namespace SpecTree

variable {ν : Type} {make : String → Except TreeError ν}

theorem mapM_eq_ok_iff_forall₂ {ε α β : Type} {f : α → Except ε β} {xs : List α} {ys : List β} :
    xs.mapM f = .ok ys ↔ List.Forall₂ (fun x y => f x = .ok y) xs ys := by
  induction xs generalizing ys with
  | nil =>
    rw [List.mapM_nil, List.forall₂_nil_left_iff]
    constructor
    · intro h
      cases h
      rfl
    · rintro rfl
      rfl
  | cons x xs ih =>
    rw [List.mapM_cons, bind_eq_ok, List.forall₂_cons_left_iff]
    constructor
    · rintro ⟨y, hy, hrest⟩
      obtain ⟨rest, hys, hpure⟩ := bind_eq_ok.1 hrest
      cases hpure
      exact ⟨y, rest, hy, ih.1 hys, rfl⟩
    · rintro ⟨y, rest, hy, hys, rfl⟩
      exact ⟨y, hy, bind_eq_ok.2 ⟨rest, ih.2 hys, rfl⟩⟩

/-! ## Declarations -/

/-- A value is one of its own type already. -/
theorem Value.coerce_self (v : Value) : v.coerce v.type = .ok v := by
  unfold coerce
  rw [if_pos rfl]

namespace Parameter

/-- Parameters with names of their own are all kept. -/
theorem putAll_of_distinct {ps : List (Parameter ν)} (h : Distinct ps) : putAll ps = ps := by
  have hput : ∀ (kept : List (Parameter ν)) (p : Parameter ν), (∀ q ∈ kept, q.name ≠ p.name) →
      put p kept = kept ++ [p] := by
    intro kept p hnot
    induction kept with
    | nil => rfl
    | cons q kept ih =>
      obtain ⟨hq, hrest⟩ := List.forall_mem_cons.1 hnot
      rw [put, if_neg hq, ih hrest]
      rfl
  -- the induction is on what is still to be put in, behind what is there already:
  have hfold : ∀ kept : List (Parameter ν), Distinct (kept ++ ps) →
      ps.foldl (fun kept p => put p kept) kept = kept ++ ps := by
    clear h
    induction ps with
    | nil => exact fun kept _ => (List.append_nil kept).symm
    | cons p ps ih =>
      intro kept hkept
      have hnot : ∀ q ∈ kept, q.name ≠ p.name := by
        intro q hq hname
        rw [Distinct, List.map_append, List.nodup_append] at hkept
        exact hkept.2.2 q.name (List.mem_map.2 ⟨q, hq, rfl⟩) p.name
          (List.mem_map.2 ⟨p, List.mem_cons_self, rfl⟩) hname
      rw [List.foldl_cons, hput kept p hnot, ih]
      · rw [List.append_assoc]
        rfl
      · rwa [List.append_assoc]
  exact hfold [] h

end Parameter

namespace Declaration

/-- A slot has the name and the comment of its declaration, and its default if that is of the
declared type. -/
theorem of_build {d : Declaration} {p : Parameter ν} (h : d.WellTyped)
    (hp : d.build make = .ok p) :
    p.name = d.name ∧ p.doc = d.doc ∧ p.value = none ∧ p.default = d.default := by
  unfold build at hp
  split at hp
  · next t ht =>
    split at hp
    · next v hv =>
      obtain ⟨q, hq, hpure⟩ := bind_eq_ok.1 hp
      cases hpure
      obtain ⟨w, hw, hpure⟩ := bind_eq_ok.1 hq
      cases hpure
      obtain ⟨t', ht', hcoerce⟩ := Parameter.check_eq_ok.1 hw
      -- a value of the declared type is taken as it is:
      have htype : v.type = t' := by
        have hprim : TypeRef.primitive v.type = .primitive t' := (h v hv).symm.trans (ht.trans ht')
        cases hprim
        rfl
      rw [← htype, Value.coerce_self] at hcoerce
      cases hcoerce
      exact ⟨rfl, rfl, rfl, hv.symm⟩
    · next hnone =>
      cases hp
      exact ⟨rfl, rfl, rfl, hnone.symm⟩
  · next s hs =>
    obtain ⟨q, hq, hpure⟩ := bind_eq_ok.1 hp
    cases hpure
    obtain ⟨m, -, rfl⟩ := map_eq_ok.1 hq
    refine ⟨rfl, rfl, rfl, ?_⟩
    -- a slot for a sub-spec has no default
    cases hdefault : d.default with
    | none => rfl
    | some v =>
      have htype := h v hdefault
      rw [hs] at htype
      cases htype

/-- The parameter that may stand for a key is built from its declaration. -/
theorem build_suffixParameter {d : Declaration} {p : Parameter ν} (h : d.WellTyped)
    (hp : d.build make = .ok p) (name : String) :
    (d.suffixParameter name).build make = .ok (p.suffixed name) := by
  obtain ⟨-, hdoc, -, hdefault⟩ := of_build h hp
  unfold build suffixParameter Parameter.suffixed
  rw [hdefault, hdoc]
  cases d.default.bind Value.asString? <;> rfl

end Declaration

/-! ## Suffixes of a definition -/

namespace Definition

/-- The name of the parameter that may stand for a key, unless the definition declares it. -/
def suffix? (d : Definition) (key : String) : Option String :=
  (((Text.withoutSuffix? " key" key).filter (· ≠ "")).map (· ++ " suffix")).filter
    (· ∉ d.declarations.map (·.name))

/-- The names of all parameters that may stand for keys. -/
def suffixNames (d : Definition) : List String :=
  d.parts.flatMap fun
    | .parameters ds => ds.filterMap fun p => d.suffix? p.name
    | _ => []

variable {d : Definition}

theorem keyOrSuffix?_eq (d : Definition) (p : Declaration) :
    p.keyOrSuffix? (d.declarations.map (·.name))
      = (d.suffix? p.name).map fun name => .oneOf [[p], [p.suffixParameter name]] := rfl

/-- The part without the keys that have a suffix. -/
def withoutKeys (d : Definition) : Part → List Part
  | .parameters ds =>
    let left := ds.filter fun p => (d.suffix? p.name).isNone
    if left.isEmpty then [] else [.parameters left]
  | part => [part]

/-- The alternatives between the keys of a part and their suffixes. -/
def alternatives (d : Definition) : Part → List Part
  | .parameters ds => ds.filterMap fun p =>
      (d.suffix? p.name).map fun name => .oneOf [[p], [p.suffixParameter name]]
  | _ => []

theorem parts_withSuffixes (d : Definition) :
    d.withSuffixes.parts = d.parts.flatMap d.withoutKeys ++ d.parts.flatMap d.alternatives := by
  unfold withSuffixes
  simp only [keyOrSuffix?_eq, Option.isNone_map]
  congr 1
  generalize d.parts = parts
  induction parts with
  | nil => rfl
  | cons part parts ih =>
    rw [List.flatMap_cons, ← ih, List.map_cons, List.filter_cons]
    cases part with
    | parameters ds =>
      unfold withoutKeys
      by_cases hempty : (ds.filter fun p => (d.suffix? p.name).isNone).isEmpty <;>
        simp [Part.isEmptyGroup, hempty]
    | oneOf branches => rfl
    | conditional condition yes no => rfl

/-! ## Building -/

theorem forall₂_of_buildAll {ds : List Declaration} {c : Collection ν}
    (h : Declaration.buildAll make ds = .ok c) :
    ∃ ps, List.Forall₂ (fun p q => p.build make = .ok q) ds ps ∧ c = .ofList ps := by
  obtain ⟨ps, hps, hpure⟩ := bind_eq_ok.1 h
  cases hpure
  exact ⟨ps, mapM_eq_ok_iff_forall₂.1 hps, rfl⟩

theorem buildAll_of_forall₂ {ds : List Declaration} {ps : List (Parameter ν)}
    (h : List.Forall₂ (fun p q => p.build make = .ok q) ds ps) :
    Declaration.buildAll make ds = .ok (.ofList ps) :=
  bind_eq_ok.2 ⟨ps, mapM_eq_ok_iff_forall₂.2 h, rfl⟩

/-- Slots that are built have the names of their declarations. -/
theorem names_of_forall₂ {ds : List Declaration} {ps : List (Parameter ν)}
    (htyped : ∀ p ∈ ds, p.WellTyped)
    (h : List.Forall₂ (fun p q => p.build make = .ok q) ds ps) :
    ps.map (·.name) = ds.map (·.name) := by
  induction h with
  | nil => rfl
  | cons hp _ ih =>
    obtain ⟨hd, hds⟩ := List.forall_mem_cons.1 htyped
    rw [List.map_cons, List.map_cons, ih hds, (Declaration.of_build hd hp).1]

theorem distinct_of_forall₂ {ds : List Declaration} {ps : List (Parameter ν)}
    (htyped : ∀ p ∈ ds, p.WellTyped) (hnodup : (ds.map (·.name)).Nodup)
    (h : List.Forall₂ (fun p q => p.build make = .ok q) ds ps) : Parameter.Distinct ps := by
  unfold Parameter.Distinct
  rw [names_of_forall₂ htyped h]
  exact hnodup

theorem forall₂_filter {f : String → Bool} {ds : List Declaration} {ps : List (Parameter ν)}
    (htyped : ∀ p ∈ ds, p.WellTyped)
    (h : List.Forall₂ (fun p q => p.build make = .ok q) ds ps) :
    List.Forall₂ (fun p q => p.build make = .ok q) (ds.filter fun p => f p.name)
      (ps.filter fun q => f q.name) := by
  induction h with
  | nil => exact .nil
  | cons hp _ ih =>
    obtain ⟨hd, hds⟩ := List.forall_mem_cons.1 htyped
    rw [List.filter_cons, List.filter_cons, (Declaration.of_build hd hp).1]
    split
    · exact .cons hp (ih hds)
    · exact ih hds

/-- The alternative between a key and its suffix is built from the declarations of both. -/
theorem build_keyOrSuffix {p : Declaration} {q : Parameter ν} (htyped : p.WellTyped)
    (hq : p.build make = .ok q) (name : String) :
    (Part.oneOf [[p], [p.suffixParameter name]]).build make
      = .ok (.oneOf (q.keyOrSuffix name)) := by
  have hkey := buildAll_of_forall₂ (.cons hq .nil)
  have hsuffix := buildAll_of_forall₂
    (.cons (Declaration.build_suffixParameter htyped hq name) .nil)
  have hvalue := (Declaration.of_build htyped hq).2.2.1
  refine bind_eq_ok.2 ⟨[.ofList [q], .ofList [q.suffixed name]], ?_, ?_⟩
  · exact mapM_eq_ok_iff_forall₂.2 (.cons hkey (.cons hsuffix .nil))
  · rw [Parameter.keyOrSuffix, hvalue]
    rfl

theorem forall₂_keyOrSuffix {suffix? : String → Option String} {ds : List Declaration}
    {ps : List (Parameter ν)} (htyped : ∀ p ∈ ds, p.WellTyped)
    (h : List.Forall₂ (fun p q => p.build make = .ok q) ds ps) :
    List.Forall₂ (fun part c => part.build make = .ok c)
      (ds.filterMap fun p => (suffix? p.name).map fun name =>
        Part.oneOf [[p], [p.suffixParameter name]])
      (ps.filterMap fun q => (suffix? q.name).map fun name =>
        Component.oneOf (q.keyOrSuffix name)) := by
  induction h with
  | nil => exact .nil
  | @cons p q _ _ hq _ ih =>
    obtain ⟨hp, hds⟩ := List.forall_mem_cons.1 htyped
    rw [List.filterMap_cons, List.filterMap_cons, (Declaration.of_build hp hq).1]
    cases suffix? p.name with
    | none => exact ih hds
    | some name => exact .cons (build_keyOrSuffix hp hq name) (ih hds)

/-- The collection without its keys is that of the declarations without the keys, and it is empty
if these are none. -/
theorem withoutKeys_ofList {ds : List Declaration} {ps : List (Parameter ν)}
    (hdistinct : Parameter.Distinct ps)
    (hleft : List.Forall₂ (fun p q => p.build make = .ok q)
      (ds.filter fun p => (d.suffix? p.name).isNone)
      (ps.filter fun q => (d.suffix? q.name).isNone)) :
    (Collection.ofList ps).withoutKeys d.suffix?
        = .ofList (ps.filter fun q => (d.suffix? q.name).isNone) ∧
      (Collection.ofList (ps.filter fun q => (d.suffix? q.name).isNone)).isEmpty
        = (ds.filter fun p => (d.suffix? p.name).isNone).isEmpty := by
  -- what is left has names of its own, and so it is kept as it is:
  have hkept := Parameter.putAll_of_distinct (hdistinct.sublist
    (List.filter_sublist (p := fun q => (d.suffix? q.name).isNone).map _))
  constructor
  · unfold Collection.withoutKeys Collection.ofList
    rw [Parameter.putAll_of_distinct hdistinct, hkept]
  · show (Parameter.putAll _).isEmpty = _
    rw [hkept, Bool.eq_iff_iff, List.isEmpty_iff_length_eq_zero, List.isEmpty_iff_length_eq_zero,
      hleft.length_eq]

/-- A part without its keys is built into the component without its keys. -/
theorem forall₂_withoutKeys {part : Part} {c : Component ν} (hpart : part.WellFormed)
    (hnodup : (part.declarations.map (·.name)).Nodup) (hc : part.build make = .ok c) :
    List.Forall₂ (fun part c => part.build make = .ok c) (d.withoutKeys part)
      (Component.withoutKeys d.suffix? c) := by
  cases Part.built_of_build hc with
  | oneOf | conditional => exact .cons hc .nil
  | @parameters ds _ hbuilt =>
    obtain ⟨ps, hps, rfl⟩ := forall₂_of_buildAll hbuilt
    have htyped : ∀ p ∈ ds, p.WellTyped := hpart.wellTyped
    have hleft := forall₂_filter (f := fun k => (d.suffix? k).isNone) htyped hps
    obtain ⟨hcollection, hempty⟩ :=
      withoutKeys_ofList (distinct_of_forall₂ htyped hnodup hps) hleft
    rw [Component.withoutKeys_collection, hcollection, hempty]
    unfold withoutKeys
    simp only
    split
    · exact .nil
    · exact .cons (bind_eq_ok.2 ⟨_, buildAll_of_forall₂ hleft, rfl⟩) .nil

/-- The alternatives of a part are built into those of the component. -/
theorem forall₂_alternatives {part : Part} {c : Component ν} (hpart : part.WellFormed)
    (hnodup : (part.declarations.map (·.name)).Nodup) (hc : part.build make = .ok c) :
    List.Forall₂ (fun part c => part.build make = .ok c) (d.alternatives part)
      (Component.alternatives d.suffix? c) := by
  cases Part.built_of_build hc with
  | oneOf | conditional => exact .nil
  | @parameters ds _ hbuilt =>
    obtain ⟨ps, hps, rfl⟩ := forall₂_of_buildAll hbuilt
    have htyped : ∀ p ∈ ds, p.WellTyped := hpart.wellTyped
    rw [Component.alternatives_collection, Collection.ofList,
      Parameter.putAll_of_distinct (distinct_of_forall₂ htyped hnodup hps)]
    exact forall₂_keyOrSuffix htyped hps

/-- **A definition with suffixes is built like the definition itself, with the keys moved.** -/
theorem build_withSuffixes {s : Spec ν} (hd : d.WellFormed)
    (hnodup : (d.declarations.map (·.name)).Nodup) (hs : d.build make = .ok s) :
    d.withSuffixes.build make
      = .ok { s with components := Component.withSuffixes d.suffix? s.components } := by
  obtain ⟨components, hcomponents, hpure⟩ := bind_eq_ok.1 hs
  cases hpure
  have hparts : ∀ part ∈ d.parts,
      part.WellFormed ∧ (part.declarations.map (·.name)).Nodup := by
    intro part hpart
    refine ⟨hd part hpart, hnodup.sublist (List.Sublist.map _ ?_)⟩
    exact List.sublist_flatten_of_mem (List.mem_map.2 ⟨part, hpart, rfl⟩)
  have hbuilt := (List.forall₂_and_left _ _).2 ⟨hparts, mapM_eq_ok_iff_forall₂.1 hcomponents⟩
  refine bind_eq_ok.2 ⟨_, mapM_eq_ok_iff_forall₂.2 ?_, rfl⟩
  rw [parts_withSuffixes]
  exact List.rel_append
    (List.rel_flatMap hbuilt fun _ _ h => forall₂_withoutKeys h.1.1 h.1.2 h.2)
    (List.rel_flatMap hbuilt fun _ _ h => forall₂_alternatives h.1.1 h.1.2 h.2)

end Definition

/-! ## Keys that are declared -/

theorem Collection.contains_ofList (ps : List (Parameter ν)) (k : String) :
    (ofList ps).contains k = true ↔ k ∈ ps.map (·.name) := by
  -- the induction is on what is still to be put in, whatever is there already:
  have hfold : ∀ kept : List (Parameter ν),
      (Parameter.find? (ps.foldl (fun kept p => p.put kept) kept) k).isSome = true ↔
        k ∈ ps.map (·.name) ∨ (Parameter.find? kept k).isSome = true := by
    induction ps with
    | nil => exact fun kept => (or_iff_right List.not_mem_nil).symm
    | cons p ps ih =>
      intro kept
      rw [List.foldl_cons, ih, Parameter.find?_put, List.map_cons, List.mem_cons]
      by_cases hp : p.name = k
      · simp [hp]
      · simp [hp, Ne.symm hp]
  exact (hfold []).trans (or_iff_left Bool.false_ne_true)

/-- A collection that was built declares the names that its declarations give. -/
theorem Collection.contains_of_buildAll {ds : List Declaration} {c : Collection ν}
    (htyped : ∀ p ∈ ds, p.WellTyped) (hc : Declaration.buildAll make ds = .ok c) (k : String) :
    c.contains k = true ↔ k ∈ ds.map (·.name) := by
  obtain ⟨ps, hps, rfl⟩ := Definition.forall₂_of_buildAll hc
  rw [contains_ofList, Definition.names_of_forall₂ htyped hps]

/-- If related items pass a test alike, then both lists have one that does, or neither. -/
theorem exists_mem_of_forall₂ {α β : Type} {R : α → β → Prop} {P : α → Prop} {Q : β → Prop}
    (hPQ : ∀ {a b}, R a b → (Q b ↔ P a)) {xs : List α} {ys : List β} (h : List.Forall₂ R xs ys) :
    (∃ y ∈ ys, Q y) ↔ ∃ x ∈ xs, P x := by
  induction h with
  | nil => simp
  | cons hab _ ih => rw [List.exists_mem_cons_iff, List.exists_mem_cons_iff, hPQ hab, ih]

theorem OneOf.contains_of_ofBranches {branches : List (List Declaration)}
    {built : List (Collection ν)} {o : OneOf ν} (htyped : ∀ p ∈ branches.flatten, p.WellTyped)
    (hbuilt : branches.mapM (Declaration.buildAll make) = .ok built)
    (ho : ofBranches built = .ok o) (k : String) :
    o.contains k = true ↔ k ∈ branches.flatten.map (·.name) := by
  obtain ⟨-, rfl⟩ := ofBranches_eq_ok.1 ho
  have hmembers : ∀ ds ∈ branches, ∀ p ∈ ds, p.WellTyped := fun ds hds p hp =>
    htyped p (List.mem_flatten_of_mem hds hp)
  have hrelated := (List.forall₂_and_left _ _).2 ⟨hmembers, mapM_eq_ok_iff_forall₂.1 hbuilt⟩
  rw [contains, List.any_eq_true, exists_mem_of_forall₂
    (fun hds => Collection.contains_of_buildAll hds.1 hds.2 k) hrelated]
  simp only [List.mem_map, List.mem_flatten]
  exact ⟨fun ⟨ds, hds, p, hp, hname⟩ => ⟨p, ⟨ds, hds, hp⟩, hname⟩,
    fun ⟨p, ⟨ds, hds, hp⟩, hname⟩ => ⟨ds, hds, p, hp, hname⟩⟩

/-- A component that was built declares the names that its part does. -/
theorem Component.contains_of_build {part : Part} {c : Component ν} (hpart : part.WellFormed)
    (hc : part.build make = .ok c) (k : String) :
    c.contains k = true ↔ k ∈ part.declarations.map (·.name) := by
  cases Part.built_of_build hc with
  | parameters hbuilt => exact Collection.contains_of_buildAll hpart.wellTyped hbuilt k
  | oneOf hbuilt ho => exact OneOf.contains_of_ofBranches hpart.wellTyped hbuilt ho k
  | @conditional _ _ _ case yes no _ hcase hyes hno hs =>
    obtain ⟨htyped, hgroups⟩ := List.forall_mem_cons.1 hpart.wellTyped
    obtain ⟨hyesTyped, hnoTyped⟩ := List.forall_mem_append.1 hgroups
    rw [Conditional.ifThenElse_eq yes no
      ((Declaration.type_of_build hcase).trans hpart.shaped)] at hs
    cases hs
    rw [Part.declarations, List.cons_append, List.map_cons, List.map_append, List.mem_cons,
      List.mem_append, ← Collection.contains_of_buildAll hyesTyped hyes k,
      ← Collection.contains_of_buildAll hnoTyped hno k, ← (Declaration.of_build htyped hcase).1]
    show (decide (k = case.name) || (yes.contains k || (no.contains k || false))) = true ↔ _
    rw [Bool.or_eq_true, Bool.or_eq_true, Bool.or_false, decide_eq_true_iff]

/-- A spec that was built declares the names that its definition does. -/
theorem Spec.contains_of_build {d : Definition} {s : Spec ν} (hd : d.WellFormed)
    (hs : d.build make = .ok s) (k : String) :
    s.contains k = true ↔ k ∈ d.declarations.map (·.name) := by
  obtain ⟨components, hcomponents, hpure⟩ := bind_eq_ok.1 hs
  cases hpure
  have hrelated := (List.forall₂_and_left _ _).2 ⟨hd, mapM_eq_ok_iff_forall₂.1 hcomponents⟩
  rw [contains, List.any_eq_true, exists_mem_of_forall₂
    (fun hpart => Component.contains_of_build hpart.1 hpart.2 k) hrelated,
    Definition.declarations, List.map_flatMap, List.mem_flatMap]

/-! ## Keys that are apart -/

/-- What two related lists say about each pair of their items carries over. -/
theorem pairwise_of_forall₂ {α β : Type} {R : α → β → Prop} {P : α → α → Prop} {Q : β → β → Prop}
    (hPQ : ∀ {a a' b b'}, R a b → R a' b' → P a a' → Q b b') {xs : List α} {ys : List β}
    (h : List.Forall₂ R xs ys) (hxs : xs.Pairwise P) : ys.Pairwise Q := by
  obtain ⟨hlength, hR⟩ := List.forall₂_iff_get.1 h
  rw [List.pairwise_iff_getElem] at hxs ⊢
  intro i j hi hj hij
  have hi' : i < xs.length := hlength.symm ▸ hi
  have hj' : j < xs.length := hlength.symm ▸ hj
  exact hPQ (hR i hi' hi) (hR j hj' hj) (hxs i j hi' hj' hij)

namespace Definition

/-- The parts of a definition that declares no name twice have no name in common. -/
theorem pairwise_disjoint_declarations {d : Definition}
    (hnodup : (d.declarations.map (·.name)).Nodup) :
    d.parts.Pairwise fun a b =>
      (a.declarations.map (·.name)).Disjoint (b.declarations.map (·.name)) := by
  rw [declarations, List.map_flatMap] at hnodup
  exact (List.nodup_flatMap.1 hnodup).2

/-- The suffixes for the keys of a part are among those of the definition. -/
theorem suffixesIn_of_build {d : Definition} {part : Part} {c : Component ν}
    (hpart : part.WellFormed) (hmem : part ∈ d.parts) (hc : part.build make = .ok c) :
    c.SuffixesIn d.suffix? d.suffixNames := by
  cases Part.built_of_build hc with
  | oneOf | conditional => trivial
  | @parameters ds _ hbuilt =>
    obtain ⟨ps, hps, rfl⟩ := forall₂_of_buildAll hbuilt
    intro q hq name hname
    have htyped : ∀ p ∈ ds, p.WellTyped := hpart.wellTyped
    have hq' : q.name ∈ ds.map (·.name) := by
      rw [← names_of_forall₂ htyped hps]
      exact List.mem_map.2 ⟨q, Parameter.mem_putAll hq, rfl⟩
    obtain ⟨p, hp, hpq⟩ := List.mem_map.1 hq'
    exact List.mem_flatMap.2 ⟨_, hmem, List.mem_filterMap.2 ⟨p, hp, by rw [hpq, hname]⟩⟩

/-- The components of a definition that declares no name twice have no key in common. -/
theorem apart_of_build [Judged ν] {d : Definition} {s : Spec ν} (hd : d.WellFormed)
    (hnodup : (d.declarations.map (·.name)).Nodup) (hs : d.build make = .ok s)
    (hfit : s.Fit fun _ => True) :
    Component.Apart d.suffix? d.suffixNames s.components := by
  have hshaped := shaped_of_build hd hs
  obtain ⟨components, hcomponents, hpure⟩ := bind_eq_ok.1 hs
  cases hpure
  refine ⟨hshaped, hfit, fun c hc => ?_, ?_⟩
  · obtain ⟨part, hpart, hbuild⟩ := exists_of_mem_mapM hcomponents hc
    exact suffixesIn_of_build (hd part hpart) hpart hbuild
  · have hbuilt := (List.forall₂_and_left _ _).2 ⟨hd, mapM_eq_ok_iff_forall₂.1 hcomponents⟩
    refine pairwise_of_forall₂ ?_ hbuilt (pairwise_disjoint_declarations hnodup)
    intro a b c c' ha hb hdisjoint k hk
    rw [Bool.eq_false_iff]
    intro hk'
    exact hdisjoint ((Component.contains_of_build ha.1 ha.2 k).1 hk)
      ((Component.contains_of_build hb.1 hb.2 k).1 hk')

end Definition

end SpecTree
