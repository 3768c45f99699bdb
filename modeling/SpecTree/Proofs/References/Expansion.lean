import SpecTree.Catalog
import SpecTree.Proofs.References.Order

/-!
# What an expanded definition is made of

An expanded definition has the parts of the definition itself and of those that it includes,
directly or not, with suffixes for keys. Main statements: `find?_expanded`, the expanded
definition of a name is made from the registered one; `expand_eq_foldl`, an expansion takes in one
definition after the other; `exists_of_mem_expanded`, where the parts come from.
-/

namespace SpecTree

namespace Definition

/-- Suffixes for keys bring no new references. -/
theorem mem_declarations_of_withSuffixes {d : Definition} {part : Part}
    (hpart : part ∈ d.withSuffixes.parts) {p : Declaration} (hp : p ∈ part.declarations)
    {s : String} (hs : p.type = .spec s) : p ∈ d.declarations := by
  rcases cases_of_mem_withSuffixes hpart with
    hpart | ⟨ds, kept, hds, rfl, -, hkept⟩ | ⟨ds, key, name, hds, hkey, rfl⟩
  · exact List.mem_flatMap.2 ⟨part, hpart, hp⟩
  · exact List.mem_flatMap.2 ⟨.parameters ds, hds, hkept p hp⟩
  · have hp : p = key ∨ p = key.suffixParameter name := by
      simpa [Part.declarations] using hp
    rcases hp with rfl | rfl
    · exact List.mem_flatMap.2 ⟨.parameters ds, hds, hkey⟩
    · cases hs

/-- A declaration of a derived type makes a reference at its own line. -/
theorem mem_references_of_declarations {d : Definition} {p : Declaration} (hp : p ∈ d.declarations)
    {s : String} (hs : p.type = .spec s) : (s, p.origin.line) ∈ d.references := by
  refine List.mem_append_left _ (List.mem_filterMap.2 ⟨p, hp, ?_⟩)
  rw [hs]
  rfl

/-- An include makes a reference at the line of the definition. -/
theorem mem_references_of_includes {d : Definition} {s : String} (h : s ∈ d.includes) :
    (s, d.origin.line) ∈ d.references :=
  List.mem_append_right _ (List.mem_map_of_mem h)

/-! ## Taking in one definition after the other -/

theorem union_append (into other more : List String) :
    union into (other ++ more) = union (union into other) more :=
  List.foldl_append

/-- A name is in the union if it is in one of both. -/
theorem mem_union {s : String} {into other : List String} :
    s ∈ union into other ↔ s ∈ into ∨ s ∈ other := by
  induction other generalizing into with
  | nil => exact (or_iff_left List.not_mem_nil).symm
  | cons t other ih =>
    rw [← List.singleton_append, union_append, ih, List.mem_append, List.mem_singleton, ← or_assoc]
    refine or_congr_left ?_
    show s ∈ (if t ∈ into then into else into ++ [t]) ↔ _
    split
    · next ht => exact ⟨.inl, fun h => h.elim id fun hs => hs ▸ ht⟩
    · rw [List.mem_append, List.mem_singleton]

/-- It does not matter which names are taken in first. -/
theorem union_assoc (a b c : List String) : union (union a b) c = union a (union b c) := by
  induction c generalizing b with
  | nil => rfl
  | cons s c ih =>
    rw [← List.singleton_append, union_append, union_append, ← ih]
    congr 1
    show (if s ∈ union a b then union a b else union a b ++ [s])
      = union a (if s ∈ b then b else b ++ [s])
    by_cases hb : s ∈ b
    · rw [if_pos hb, if_pos (mem_union.2 (.inr hb))]
    · rw [if_neg hb, union_append]
      rfl

/-- It does not matter which definitions are taken in first. -/
theorem absorb_assoc (d e f : Definition) : (d.absorb e).absorb f = d.absorb (e.absorb f) := by
  unfold absorb
  simp only [List.append_assoc, union_assoc]

/-- A definition may be taken in before the others, or together with them. -/
theorem foldl_absorb (d e : Definition) (fs : List Definition) :
    fs.foldl absorb (d.absorb e) = d.absorb (fs.foldl absorb e) := by
  induction fs generalizing e with
  | nil => rfl
  | cons f fs ih => rw [List.foldl_cons, List.foldl_cons, absorb_assoc, ih]

/-- The parts are those of all definitions, one after the other. -/
theorem parts_foldl_absorb (d : Definition) (es : List Definition) :
    (es.foldl absorb d).parts = (d :: es).flatMap (·.parts) := by
  induction es generalizing d with
  | nil => exact (List.append_nil _).symm
  | cons e es ih =>
    rw [List.foldl_cons, ih]
    simp only [absorb, List.flatMap_cons, List.append_assoc]

/-- Taking in definitions leaves the includes alone. -/
theorem includes_foldl_absorb (d : Definition) (es : List Definition) :
    (es.foldl absorb d).includes = d.includes := by
  induction es generalizing d with
  | nil => rfl
  | cons e es ih => exact ih (d.absorb e)

/-- A list of names that is united when a definition takes in another one. -/
theorem mem_foldl_absorb {field : Definition → List String}
    (hfield : ∀ d e, field (d.absorb e) = union (field d) (field e)) {s : String}
    (d : Definition) (es : List Definition) :
    s ∈ field (es.foldl absorb d) ↔ ∃ e ∈ d :: es, s ∈ field e := by
  induction es generalizing d with
  | nil => simp
  | cons e es ih => rw [List.foldl_cons, ih]; grind [mem_union]

end Definition

namespace Index

variable {index : Index}

/-- A name is registered exactly if it is among the names. -/
theorem contains_iff_mem_names {name : String} : index.contains name = true ↔ name ∈ index.names := by
  unfold contains find? names
  rw [List.find?_isSome]
  simp

/-! ## Expanded definitions -/

/-- A definition with one of its includes taken in. -/
def absorbInclude (index : Index) (path : List String) (d : Definition) (name : String) :
    Definition :=
  if name ∈ path then d
  else match index.find? name with
    | some included => d.absorb (index.expand (path ++ [name]) included)
    | none => d

/-- A definition is expanded by taking in its includes one by one. -/
theorem expand_eq (index : Index) (path : List String) (d : Definition) :
    index.expand path d = d.includes.foldl (index.absorbInclude path) d := by
  rw [expand]
  congr 1
  funext expanded name
  unfold absorbInclude
  split
  · rfl
  · split <;> simp_all

/-- Expansion leaves the name alone. -/
theorem name_expand (index : Index) (path : List String) (d : Definition) :
    (index.expand path d).name = d.name := by
  rw [expand_eq]
  generalize d.includes = names
  induction names generalizing d with
  | nil => rfl
  | cons name names ih =>
    rw [List.foldl_cons, ih]
    unfold absorbInclude
    split
    · rfl
    · split <;> rfl

/-- Suffixes do not change under which name a definition is found. -/
theorem find?_withSuffixes (index : Index) (name : String) :
    index.withSuffixes.find? name = (index.find? name).map (·.withSuffixes) := by
  unfold find? withSuffixes
  rw [List.find?_map]
  rfl

/-- The expanded definition of a name is made from the one that is registered. -/
theorem find?_expanded (index : Index) (name : String) :
    index.expanded.find? name = (index.find? name).map fun d =>
      index.withSuffixes.expand [d.name] d.withSuffixes := by
  unfold find? expanded
  rw [List.find?_map]
  have hname : ((fun d : Definition => decide (d.name = name)) ∘
      fun d => index.withSuffixes.expand [d.name] d) = fun d => decide (d.name = name) := by
    funext d
    simp only [Function.comp, name_expand]
  rw [hname]
  show ((index.withSuffixes.find? name).map _) = _
  rw [find?_withSuffixes, Option.map_map]
  rfl

/-- Expansion registers no other names. -/
theorem contains_expanded (index : Index) (name : String) :
    index.expanded.contains name = index.contains name := by
  unfold contains
  rw [find?_expanded, Option.isSome_map]

theorem names_expanded (index : Index) : index.expanded.names = index.names := by
  unfold names expanded withSuffixes
  simp only [List.map_map]
  apply List.map_congr_left
  intro d _
  exact name_expand _ _ _

/-! ## What is taken in -/

/-- Does the definition of the first of two names include the second, which is registered? -/
def Includes (index : Index) (a b : String) : Prop :=
  ∃ d, index.find? a = some d ∧ b ∈ d.includes ∧ index.contains b = true

/-- Is the definition registered under a name, or included there, directly or not? -/
def Comprises (index : Index) (name : String) (d : Definition) : Prop :=
  ∃ b, Relation.ReflTransGen index.Includes name b ∧ index.find? b = some d

/-- The definitions that an expansion takes in, in order. -/
def inclusions (index : Index) (path : List String) (d : Definition) : List Definition :=
  d.includes.flatMap fun name =>
    if _hpath : name ∈ path then []
    else match _h : index.find? name with
      | some included => included :: inclusions index (path ++ [name]) included
      | none => []
termination_by remaining index.names path
decreasing_by exact remaining_append_lt (name_of_find? _h).2 _hpath

/-- The definitions that come with an include. -/
def broughtBy (index : Index) (path : List String) (name : String) : List Definition :=
  if name ∈ path then []
  else match index.find? name with
    | some included => included :: index.inclusions (path ++ [name]) included
    | none => []

/-- The inclusions of a definition are what its includes bring, one by one. -/
theorem inclusions_eq (index : Index) (path : List String) (d : Definition) :
    index.inclusions path d = d.includes.flatMap (index.broughtBy path) := by
  rw [inclusions]
  congr 1
  funext name
  unfold broughtBy
  split
  · rfl
  · split <;> simp_all

/-- An include brings the definition of its name, and what that includes. -/
theorem broughtBy_of_find? {path : List String} {name : String} {d : Definition}
    (hpath : name ∉ path) (hd : index.find? name = some d) :
    index.broughtBy path name = d :: index.inclusions (path ++ [name]) d := by
  unfold broughtBy
  rw [if_neg hpath, hd]

/-- An expansion takes in one definition after the other. -/
theorem expand_eq_foldl (index : Index) (path : List String) (d : Definition) :
    index.expand path d = (index.inclusions path d).foldl Definition.absorb d := by
  induction hn : remaining index.names path using Nat.strongRecOn generalizing path d with
  | _ n ih =>
  rw [expand_eq, inclusions_eq, List.foldl_flatMap]
  congr 1
  funext expanded name
  unfold absorbInclude broughtBy
  split
  · rfl
  · next hpath =>
    split
    · next included hfound =>
      have hshort := remaining_append_lt (name_of_find? hfound).2 hpath
      rw [ih _ (hn ▸ hshort) _ _ rfl, List.foldl_cons, Definition.foldl_absorb]
    · rfl

/-- Suffixes for keys do not change what is taken in. -/
theorem inclusions_withSuffixes (index : Index) (path : List String) (d : Definition) :
    index.withSuffixes.inclusions path d.withSuffixes
      = (index.inclusions path d).map (·.withSuffixes) := by
  induction hn : remaining index.names path using Nat.strongRecOn generalizing path d with
  | _ n ih =>
  rw [inclusions_eq, inclusions_eq, List.map_flatMap]
  show d.includes.flatMap _ = _
  congr 1
  funext name
  unfold broughtBy
  rw [find?_withSuffixes]
  split
  · rfl
  · next hpath =>
    cases hfound : index.find? name with
    | none => rfl
    | some included =>
      have hshort := remaining_append_lt (name_of_find? hfound).2 hpath
      exact congrArg (included.withSuffixes :: ·) (ih _ (hn ▸ hshort) _ _ rfl)

/-- What is taken in is included, directly or not. -/
theorem comprises_of_mem_inclusions {path : List String} {name : String} {d e : Definition}
    (hd : index.find? name = some d) (h : e ∈ d :: index.inclusions path d) :
    index.Comprises name e := by
  induction hn : remaining index.names path using Nat.strongRecOn generalizing path name d with
  | _ n ih =>
  rcases List.mem_cons.1 h with rfl | h
  · exact ⟨name, .refl, hd⟩
  · rw [inclusions_eq] at h
    obtain ⟨c, hc, he⟩ := List.mem_flatMap.1 h
    unfold broughtBy at he
    split at he
    · cases he
    · next hpath =>
      split at he
      · next included hfound =>
        have hshort := remaining_append_lt (name_of_find? hfound).2 hpath
        obtain ⟨b, hreach, hb⟩ := ih _ (hn ▸ hshort) hfound he rfl
        have hstep : index.Includes name c := ⟨d, hd, hc, by unfold contains; rw [hfound]; rfl⟩
        exact ⟨b, .head hstep hreach, hb⟩
      · cases he

/-- **Where the parts of an expanded definition come from.** -/
theorem exists_of_mem_expanded {name : String} {d : Definition} {part : Part}
    (hd : index.expanded.find? name = some d) (h : part ∈ d.parts) :
    ∃ name' d', Relation.ReflTransGen index.Includes name name' ∧ index.find? name' = some d' ∧
      part ∈ d'.withSuffixes.parts := by
  rw [find?_expanded] at hd
  obtain ⟨raw, hraw, rfl⟩ := Option.map_eq_some_iff.1 hd
  rw [expand_eq_foldl, inclusions_withSuffixes, Definition.parts_foldl_absorb, ← List.map_cons,
    List.flatMap_map] at h
  obtain ⟨e, he, hpart⟩ := List.mem_flatMap.1 h
  obtain ⟨b, hreach, hb⟩ := comprises_of_mem_inclusions hraw he
  exact ⟨b, e, hreach, hb, hpart⟩

end Index

end SpecTree
