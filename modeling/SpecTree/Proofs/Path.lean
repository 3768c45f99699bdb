import SpecTree.File.Disk
import SpecTree.Proofs.Text

/-!
# Where paths lead

A path of which points and double points are worked out by its spelling alone leads where it leads
on a disk, as long as no double point stands where there is nothing left to go back from: above the
root, or above the place where relative paths start. Main statements:

* `isNormal_normalize`, `normalize_ofNormal`: what is left are names, perhaps below the root, and
  these are read back from their spelling;
* `namesOf_ofNormal_normalize_iff`, `isAbsolute_ofNormal_normalize`: the spelling leads to the same
  place, and an absolute path stays absolute, exactly if the path does not climb out;
* `normalize_eq_iff`, `normalize_prefix_iff`: paths that do not climb out have the same components if
  they lead to the same place, and the first of them if they lead below it.
-/

namespace SpecTree

open PathComponent

namespace Disk

/-- Does a way climb out, going on from a place? It does if a double point stands where nothing is
left to go back from. -/
def climbsFrom (here : List String) : List String → Bool
  | [] => false
  | part :: rest => (part = ".." && isOutside here) || climbsFrom (follow here part) rest

/-- Does a path climb out of the place where it starts? -/
def climbs (path : String) : Bool := climbsFrom (start path) (Path.parts path)

/-- Does a path lead to the place of another, or below it? The start of relative paths counts as
a place above the root. -/
def IsBelow (root path : String) : Prop :=
  (wayDown? (namesOf root) (namesOf path)).isSome ∨
    (namesOf root = [] ∧ Path.isAbsolute path = true)

end Disk

namespace Path

/-! ## Normal forms -/

/-- May the text stand for a name in a path? -/
structure IsName (s : String) : Prop where
  ne_empty : s ≠ ""
  ne_current : s ≠ "."
  ne_parent : s ≠ ".."
  noSlash : '/' ∉ s.toList

/-- Names, below the root if `absolute` is set. -/
def normal (absolute : Bool) (names : List String) : List PathComponent :=
  (if absolute then [root] else []) ++ names.map name

/-- Are the components names, perhaps below the root? -/
def IsNormal (cs : List PathComponent) : Prop :=
  ∃ absolute names, (∀ s ∈ names, IsName s) ∧ cs = normal absolute names

/-- The place that names lead to. -/
def place (absolute : Bool) (names : List String) : List String :=
  (if absolute then ["/"] else []) ++ names

/-- The root is not a name. -/
theorem IsName.ne_slash {s : String} (h : IsName s) : s ≠ "/" := by
  rintro rfl
  exact h.noSlash (by decide)

/-- The root and the names of a normal form are told apart in the place that it leads to. -/
theorem place_inj {a b : Bool} {ss ts : List String} (hs : ∀ s ∈ ss, IsName s)
    (ht : ∀ t ∈ ts, IsName t) : place a ss = place b ts ↔ a = b ∧ ss = ts := by
  constructor
  · cases a <;> cases b <;> intro h
    · exact ⟨rfl, h⟩
    · have hroot : "/" ∈ ss := (show ss = "/" :: ts from h) ▸ List.mem_cons_self
      exact absurd rfl (hs _ hroot).ne_slash
    · have hroot : "/" ∈ ts := (show "/" :: ss = ts from h) ▸ List.mem_cons_self
      exact absurd rfl (ht _ hroot).ne_slash
    · exact ⟨rfl, (List.cons.inj h).2⟩
  · rintro ⟨rfl, rfl⟩
    rfl

/-- Two normal forms are one only if both are absolute or both relative, with the same names. -/
theorem normal_eq_iff {a b : Bool} {ss ts : List String} :
    normal a ss = normal b ts ↔ a = b ∧ ss = ts := by
  have hinj : ∀ us vs : List String, us.map name = vs.map name ↔ us = vs :=
    fun us vs => List.map_inj_right fun _ _ h => PathComponent.name.inj h
  unfold normal
  cases a <;> cases b
  · simpa using hinj ss ts
  · cases ss <;> simp
  · cases ts <;> simp
  · simpa using hinj ss ts

/-- Components that are all names begin alike exactly if the names do. -/
theorem prefix_map_name_iff {ss ts : List String} : ss.map name <+: ts.map name ↔ ss <+: ts :=
  List.prefix_map_iff_of_injective fun _ _ h => PathComponent.name.inj h

/-- One normal form begins with another if both are absolute or none is, and the names do. With
nothing begins an absolute one as well. -/
theorem normal_prefix_iff {a b : Bool} {ss ts : List String} :
    normal a ss <+: normal b ts ↔ (a = b ∧ ss <+: ts) ∨ (a = false ∧ ss = [] ∧ b = true) := by
  unfold normal
  cases a <;> cases b
  · simp [prefix_map_name_iff]
  · cases ss <;> simp
  · cases ts <;> simp
  · simp [prefix_map_name_iff]

/-! ## Going on by one part -/

/-- Go on by one part of a path, by its spelling alone. -/
def resolve (kept : List PathComponent) (part : String) : List PathComponent :=
  match component? part with
  | none | some .current => kept
  | some .parent => kept.dropLast
  | some c => kept ++ [c]

/-- An empty part and a point lead nowhere. -/
theorem resolve_of_idle (kept : List PathComponent) {part : String} (h : part = "" ∨ part = ".") :
    resolve kept part = kept := by
  unfold resolve component?
  rw [if_pos h]

/-- Two points take the last component away, whatever it is. -/
theorem resolve_parent (kept : List PathComponent) : resolve kept ".." = kept.dropLast := rfl

/-- A name goes on below what was kept. -/
theorem resolve_name (absolute : Bool) (names : List String) {s : String} (h : IsName s) :
    resolve (normal absolute names) s = normal absolute (names ++ [s]) := by
  unfold resolve component?
  rw [if_neg (not_or.2 ⟨h.ne_empty, h.ne_current⟩), if_neg h.ne_parent]
  simp [normal]

/-- Going back from the root leads out of it. -/
theorem dropLast_normal_nil (absolute : Bool) : (normal absolute []).dropLast = normal false [] := by
  cases absolute <;> rfl

/-- The last name is taken away again. -/
theorem dropLast_normal_concat (absolute : Bool) (names : List String) (s : String) :
    (normal absolute (names ++ [s])).dropLast = normal absolute names := by
  unfold normal
  rw [List.map_append, ← List.append_assoc, List.map_singleton, List.dropLast_concat]

/-- A part between slashes is idle, goes back, or is a name. -/
theorem part_cases {part : String} (h : '/' ∉ part.toList) :
    (part = "" ∨ part = ".") ∨ part = ".." ∨ IsName part := by
  by_cases hidle : part = "" ∨ part = "."
  · exact .inl hidle
  · by_cases hparent : part = ".."
    · exact .inr (.inl hparent)
    · exact .inr (.inr ⟨fun h => hidle (.inl h), fun h => hidle (.inr h), hparent, h⟩)

/-- No part of a path holds a slash. -/
theorem not_mem_toList_of_mem_parts {path part : String} (h : part ∈ parts path) :
    '/' ∉ part.toList := by
  obtain ⟨chars, hchars, rfl⟩ := List.mem_map.1 h
  rw [String.toList_ofList]
  exact Text.not_mem_of_mem_splitOnChar hchars

/-- Normalization goes on part by part, from the root or from nothing. -/
theorem normalize_eq (path : String) :
    normalize path = (parts path).foldl resolve (normal (isAbsolute path) []) := by
  unfold normalize components
  rw [List.foldl_append, List.foldl_filterMap]
  congr 1
  · funext kept part
    unfold resolve
    cases component? part with
    | none => rfl
    | some c => cases c <;> rfl
  · cases habsolute : isAbsolute path with
    | true => rfl
    | false =>
      show List.foldl _ [] (if (parts path).head? = some "." then [current] else []) = _
      split <;> rfl

/-! ## The spelling of a normal form -/

/-- A normal form is written with its names between slashes, and a slash in front if it is absolute.
-/
theorem ofNormal_normal (absolute : Bool) (names : List String) :
    ofNormal (normal absolute names)
      = (if absolute then "/" else "") ++ "/".intercalate names := by
  unfold ofNormal normal
  cases absolute <;> cases names <;> simp [List.filterMap_map]

/-- The parts of joined names are the names, but for nothing at all there is one empty part. -/
theorem parts_intercalate {names : List String} (h : ∀ s ∈ names, IsName s) :
    ∃ lead, (∀ s ∈ lead, s = "") ∧ parts ("/".intercalate names) = lead ++ names := by
  cases names with
  | nil => exact ⟨[""], List.forall_mem_singleton.2 rfl, rfl⟩
  | cons s names =>
    refine ⟨[], List.forall_mem_nil _, ?_⟩
    have hsplit : Text.splitOnChar '/' (['/'].intercalate ((s :: names).map String.toList))
        = (s :: names).map String.toList := by
      refine Text.splitOnChar_intercalate (by simp) fun part hpart => ?_
      obtain ⟨t, ht, rfl⟩ := List.mem_map.1 hpart
      exact (h t ht).noSlash
    unfold parts
    rw [String.toList_intercalate, show "/".toList = ['/'] from rfl, hsplit, List.map_map]
    simp [Function.comp_def]

/-- A slash in front makes an empty first part. -/
theorem parts_slash_append (s : String) : parts ("/" ++ s) = "" :: parts s := by
  unfold parts
  rw [String.toList_append, show "/".toList = ['/'] from rfl, List.singleton_append,
    Text.splitOnChar, if_pos rfl, List.map_cons]

/-- The parts of what a normal form is written as are its names, but for the empty part in front. -/
theorem parts_ofNormal (absolute : Bool) {names : List String} (h : ∀ s ∈ names, IsName s) :
    ∃ lead, (∀ s ∈ lead, s = "") ∧ parts (ofNormal (normal absolute names)) = lead ++ names := by
  obtain ⟨lead, hlead, hparts⟩ := parts_intercalate h
  rw [ofNormal_normal]
  cases absolute with
  | false => exact ⟨lead, hlead, by simpa using hparts⟩
  | true =>
    refine ⟨"" :: lead, List.forall_mem_cons.2 ⟨rfl, hlead⟩, ?_⟩
    rw [if_pos rfl, parts_slash_append, hparts, List.cons_append]

/-- The spelling starts with a slash if and only if the root comes first. -/
theorem isAbsolute_ofNormal {absolute : Bool} {names : List String} (h : ∀ s ∈ names, IsName s) :
    isAbsolute (ofNormal (normal absolute names)) = absolute := by
  unfold isAbsolute
  rw [ofNormal_normal, String.toList_append, String.toList_intercalate]
  cases absolute with
  | true => simp
  | false =>
    cases names with
    | nil => rfl
    | cons s names =>
      have hs := h s List.mem_cons_self
      obtain ⟨c, cs, hchars⟩ := List.exists_cons_of_ne_nil
        (show s.toList ≠ [] from fun hnil => hs.ne_empty (String.toList_eq_nil_iff.1 hnil))
      have hslash : c ≠ '/' := by
        rintro rfl
        exact hs.noSlash (hchars ▸ List.mem_cons_self)
      cases names <;> simp [hchars, hslash, List.intercalate_cons_cons]

/-- Empty parts in front lead nowhere. -/
theorem foldl_resolve_of_idle {lead : List String} (h : ∀ s ∈ lead, s = "")
    (kept : List PathComponent) : lead.foldl resolve kept = kept := by
  induction lead with
  | nil => rfl
  | cons s lead ih =>
    obtain ⟨hs, hlead⟩ := List.forall_mem_cons.1 h
    rw [List.foldl_cons, resolve_of_idle kept (.inl hs), ih hlead]

/-- Names are kept one after the other. -/
theorem foldl_resolve_names {ss : List String} (h : ∀ s ∈ ss, IsName s) (absolute : Bool)
    (names : List String) :
    ss.foldl resolve (normal absolute names) = normal absolute (names ++ ss) := by
  induction ss generalizing names with
  | nil => rw [List.append_nil]; rfl
  | cons s ss ih =>
    obtain ⟨hs, hss⟩ := List.forall_mem_cons.1 h
    rw [List.foldl_cons, resolve_name absolute names hs, ih hss, List.append_assoc,
      List.singleton_append]

/-- **A normal form is read back from its spelling.** -/
theorem normalize_ofNormal {cs : List PathComponent} (h : IsNormal cs) :
    normalize (ofNormal cs) = cs := by
  obtain ⟨absolute, names, hnames, rfl⟩ := h
  obtain ⟨lead, hlead, hparts⟩ := parts_ofNormal absolute hnames
  rw [normalize_eq, isAbsolute_ofNormal hnames, hparts, List.foldl_append,
    foldl_resolve_of_idle hlead, foldl_resolve_names hnames, List.nil_append]

/-- Names are components as they are. -/
theorem filterMap_component?_names {names : List String} (h : ∀ s ∈ names, IsName s) :
    names.filterMap component? = names.map name := by
  rw [← List.filterMap_eq_map]
  refine List.filterMap_congr fun s hs => ?_
  unfold component?
  rw [if_neg (not_or.2 ⟨(h s hs).ne_empty, (h s hs).ne_current⟩), if_neg (h s hs).ne_parent]
  rfl

/-- The components of a spelling are the ones that were spelled. -/
theorem components_ofNormal {cs : List PathComponent} (h : IsNormal cs) :
    components (ofNormal cs) = cs := by
  obtain ⟨absolute, names, hnames, rfl⟩ := h
  obtain ⟨lead, hlead, hparts⟩ := parts_ofNormal absolute hnames
  have hfirst : (lead ++ names).head? ≠ some "." := by
    intro hpoint
    rcases List.mem_append.1 (List.mem_of_head? hpoint) with hmem | hmem
    · exact absurd (hlead _ hmem) (by decide)
    · exact (hnames _ hmem).ne_current rfl
  have hleads : lead.filterMap component? = [] := by
    refine List.filterMap_eq_nil_iff.2 fun s hs => ?_
    rw [hlead s hs]
    rfl
  unfold components
  dsimp only
  rw [hparts, isAbsolute_ofNormal hnames, if_neg hfirst, List.filterMap_append, hleads,
    filterMap_component?_names hnames]
  rfl

end Path

namespace Disk

open SpecTree.Path

/-! ## Going on by one part on a disk -/

/-- An absolute path starts at the root, any other at no name. -/
theorem start_eq (path : String) : start path = place (isAbsolute path) [] := by
  unfold start place
  rw [List.append_nil]

/-- The outermost places are those without a name, absolute or not. -/
theorem isOutside_place (absolute : Bool) {names : List String} (h : ∀ s ∈ names, IsName s) :
    isOutside (place absolute names) = true ↔ names = [] := by
  constructor
  · intro hout
    rcases Bool.or_eq_true _ _ ▸ hout with hall | hroot
    · cases names with
      | nil => rfl
      | cons s names =>
        have hs : s ∈ place absolute (s :: names) :=
          List.mem_append_right _ List.mem_cons_self
        have hparent := List.all_eq_true.1 hall s hs
        exact absurd (beq_iff_eq.1 hparent) (h s List.mem_cons_self).ne_parent
    · have heq : place absolute names = place true [] := beq_iff_eq.1 hroot
      exact ((place_inj h (List.forall_mem_nil _)).1 heq).2
  · rintro rfl
    cases absolute <;> decide

theorem follow_of_idle (here : List String) {part : String} (h : part = "" ∨ part = ".") :
    follow here part = here := by
  unfold follow
  rw [if_pos h]

/-- A name leads one place down. -/
theorem follow_name (here : List String) {s : String} (h : IsName s) : follow here s = here ++ [s] := by
  unfold follow
  rw [if_neg (not_or.2 ⟨h.ne_empty, h.ne_current⟩), if_neg h.ne_parent]

/-- Two points lead back to where a name led from. -/
theorem follow_parent_of_concat {absolute : Bool} {names : List String} {s : String}
    (h : ∀ t ∈ names ++ [s], IsName t) :
    follow (place absolute (names ++ [s])) ".." = place absolute names := by
  have hout : isOutside (place absolute (names ++ [s])) = false := by
    rw [Bool.eq_false_iff, Ne, isOutside_place absolute h]
    simp
  have hroot : place absolute (names ++ [s]) ≠ ["/"] := by
    intro heq
    rw [heq] at hout
    exact absurd hout (by decide)
  show above (place absolute (names ++ [s])) = _
  unfold above
  rw [if_neg hroot, if_neg (ne_true_of_eq_false hout)]
  unfold place
  rw [← List.append_assoc, List.dropLast_concat]

/-- From a normal form and the place that it leads to, one part leads to the same again, unless it
climbs out. -/
theorem step_cases (absolute : Bool) {names : List String} (hnames : ∀ s ∈ names, IsName s)
    {part : String} (hpart : '/' ∉ part.toList) :
    (∃ next, (∀ s ∈ next, IsName s) ∧ resolve (normal absolute names) part = normal absolute next ∧
      follow (place absolute names) part = place absolute next ∧
      (part = ".." && isOutside (place absolute names)) = false) ∨
      (names = [] ∧ part = "..") := by
  rcases part_cases hpart with hidle | rfl | hname
  · refine .inl ⟨names, hnames, resolve_of_idle _ hidle, follow_of_idle _ hidle, ?_⟩
    rcases hidle with rfl | rfl <;> rfl
  · rcases List.eq_nil_or_concat' names with rfl | ⟨before, s, rfl⟩
    · exact .inr ⟨rfl, rfl⟩
    · have hin : isOutside (place absolute (before ++ [s])) = false := by
        rw [Bool.eq_false_iff, Ne, isOutside_place absolute hnames]
        simp
      refine .inl ⟨before, (List.forall_mem_append.1 hnames).1, dropLast_normal_concat _ _ _,
        follow_parent_of_concat hnames, ?_⟩
      rw [hin, Bool.and_false]
  · refine .inl ⟨names ++ [part], ?_, resolve_name absolute names hname, ?_, ?_⟩
    · exact List.forall_mem_append.2 ⟨hnames, List.forall_mem_singleton.2 hname⟩
    · rw [follow_name _ hname]
      exact List.append_assoc _ _ _
    · rw [decide_eq_false hname.ne_parent, Bool.false_and]

/-- The way down to a place goes on from the first one, and begins with neither a step out nor the
root. -/
theorem isSome_wayDown?_iff (here there : List String) :
    (wayDown? here there).isSome ↔
      ∃ way, here ++ way = there ∧ way.head? ≠ some ".." ∧ way.head? ≠ some "/" := by
  unfold wayDown?
  rw [Option.isSome_ite, List.isPrefixOf_iff_prefix]
  constructor
  · rintro ⟨⟨way, rfl⟩, hhead⟩
    rw [List.drop_left] at hhead
    exact ⟨way, rfl, hhead⟩
  · rintro ⟨way, rfl, hhead⟩
    rw [List.drop_left]
    exact ⟨List.prefix_append _ _, hhead⟩

/-- There is a way down from one place to another if both are absolute or none is, and the names of
the one come first. -/
theorem isSome_wayDown?_place {a b : Bool} {ss ts : List String} (hs : ∀ s ∈ ss, IsName s)
    (ht : ∀ t ∈ ts, IsName t) :
    (wayDown? (place a ss) (place b ts)).isSome ↔ a = b ∧ ss <+: ts := by
  rw [isSome_wayDown?_iff]
  constructor
  · rintro ⟨way, hway, -, hslash⟩
    -- a slash is no name, and does not come first on the way
    cases a <;> cases b
    · exact ⟨rfl, way, hway⟩
    · cases ss with
      | nil => exact absurd ((show way = "/" :: ts from hway) ▸ rfl) hslash
      | cons s ss => exact absurd (List.cons.inj hway).1 (hs s List.mem_cons_self).ne_slash
    · have hroot : "/" ∈ ts := (show "/" :: (ss ++ way) = ts from hway) ▸ List.mem_cons_self
      exact absurd rfl (ht _ hroot).ne_slash
    · exact ⟨rfl, way, (List.cons.inj hway).2⟩
  · rintro ⟨rfl, way, rfl⟩
    have hname : ∀ s, way.head? = some s → IsName s :=
      fun s h => ht s (List.mem_append_right _ (List.mem_of_head? h))
    exact ⟨way, List.append_assoc _ _ _, fun h => (hname _ h).ne_parent rfl,
      fun h => (hname _ h).ne_slash rfl⟩

/-- A way that does not climb out leads where it leads by its spelling. -/
theorem foldl_follow {ps : List String} (hps : ∀ part ∈ ps, '/' ∉ part.toList) {absolute : Bool}
    {names : List String} (hnames : ∀ s ∈ names, IsName s)
    (h : climbsFrom (place absolute names) ps = false) :
    ∃ left, (∀ s ∈ left, IsName s) ∧ ps.foldl resolve (normal absolute names) = normal absolute left ∧
      ps.foldl follow (place absolute names) = place absolute left := by
  induction ps generalizing names with
  | nil => exact ⟨names, hnames, rfl, rfl⟩
  | cons part ps ih =>
    obtain ⟨hpart, hrest⟩ := List.forall_mem_cons.1 hps
    rw [climbsFrom, Bool.or_eq_false_iff] at h
    rw [List.foldl_cons, List.foldl_cons]
    rcases step_cases absolute hnames hpart with ⟨next, hnext, hresolve, hfollow, -⟩ | ⟨rfl, rfl⟩
    · rw [hfollow] at h ⊢
      rw [hresolve]
      exact ih hrest hnext h.2
    · -- nothing is left to go back from
      rw [(isOutside_place absolute hnames).2 rfl] at h
      exact absurd h.1 (by decide)

/-- Empty parts in front do not climb. -/
theorem climbsFrom_of_idle {lead : List String} (h : ∀ s ∈ lead, s = "") (here ps : List String) :
    climbsFrom here (lead ++ ps) = climbsFrom here ps := by
  induction lead with
  | nil => rfl
  | cons s lead ih =>
    obtain ⟨rfl, hlead⟩ := List.forall_mem_cons.1 h
    rw [List.cons_append, climbsFrom, follow_of_idle here (.inl rfl), ih hlead]
    rfl

/-- A way down by names does not climb. -/
theorem climbsFrom_names {names : List String} (h : ∀ s ∈ names, IsName s) (here : List String) :
    climbsFrom here names = false := by
  induction names generalizing here with
  | nil => rfl
  | cons s names ih =>
    obtain ⟨hs, hnames⟩ := List.forall_mem_cons.1 h
    rw [climbsFrom, ih hnames, Bool.or_false, decide_eq_false hs.ne_parent, Bool.false_and]

/-- No normal form climbs out. -/
theorem climbs_ofNormal {cs : List PathComponent} (h : IsNormal cs) : climbs (ofNormal cs) = false := by
  obtain ⟨absolute, names, hnames, rfl⟩ := h
  obtain ⟨lead, hlead, hparts⟩ := parts_ofNormal absolute hnames
  rw [climbs, hparts, climbsFrom_of_idle hlead, climbsFrom_names hnames]

/-- Where a path leads that does not climb out. -/
theorem exists_place {path : String} (h : climbs path = false) :
    ∃ names, (∀ s ∈ names, IsName s) ∧ normalize path = normal (isAbsolute path) names ∧
      namesOf path = place (isAbsolute path) names := by
  rw [climbs, start_eq] at h
  rw [normalize_eq, namesOf, start_eq]
  exact foldl_follow (fun _ => not_mem_toList_of_mem_parts) (List.forall_mem_nil _) h

/-! ## Ways that climb out -/

/-- Whoever is above the start of relative paths, or in the root, does not come back from there. -/
theorem head?_follow {here : List String} (h : here.head? = some "/" ∨ here.head? = some "..")
    (part : String) : (follow here part).head? = here.head? := by
  obtain ⟨first, later, rfl⟩ : ∃ first later, here = first :: later := by
    cases here with
    | nil => simp at h
    | cons first later => exact ⟨first, later, rfl⟩
  unfold follow
  split
  · rfl
  · split
    · unfold above
      split
      · rfl
      · next hroot =>
        split
        · rfl
        · next hin =>
          -- a place inside has a name behind the first
          cases later with
          | nil =>
            rcases h with h | h
            · exact absurd (congrArg (· :: []) (Option.some.inj h)) hroot
            · rw [Option.some.inj h] at hin
              exact absurd rfl hin
          | cons second later => rfl
    · rfl

/-- A place that begins outside stays so, whatever is followed from there. -/
theorem head?_foldl_follow {here : List String}
    (h : here.head? = some "/" ∨ here.head? = some "..") (ps : List String) :
    (ps.foldl follow here).head? = here.head? := by
  induction ps generalizing here with
  | nil => rfl
  | cons part ps ih =>
    have hhead := head?_follow h part
    rw [List.foldl_cons, ih (by rwa [hhead]), hhead]

/-- Above an outermost place there is the root, or a place outside. -/
theorem head?_above_of_isOutside {here : List String} (h : isOutside here = true) :
    (above here).head? = some "/" ∨ (above here).head? = some ".." := by
  unfold above
  split
  · next hroot => exact .inl (by rw [hroot]; rfl)
  · next hroot =>
    have hall : here.all (· == "..") = true :=
      (Bool.or_eq_true _ _ ▸ h).resolve_right fun heq => hroot (beq_iff_eq.1 heq)
    cases here with
    | nil => exact .inr rfl
    | cons first later =>
      have hfirst := List.all_eq_true.1 hall first List.mem_cons_self
      exact .inr (congrArg some (beq_iff_eq.1 hfirst))

/-- A relative path without a climb comes to names only. -/
theorem foldl_resolve_relative {ps : List String} (hps : ∀ part ∈ ps, '/' ∉ part.toList)
    {names : List String} (hnames : ∀ s ∈ names, IsName s) :
    ∃ left, (∀ s ∈ left, IsName s) ∧ ps.foldl resolve (normal false names) = normal false left := by
  induction ps generalizing names with
  | nil => exact ⟨names, hnames, rfl⟩
  | cons part ps ih =>
    obtain ⟨hpart, hrest⟩ := List.forall_mem_cons.1 hps
    rw [List.foldl_cons]
    rcases step_cases false hnames hpart with ⟨next, hnext, hresolve, -⟩ | ⟨rfl, rfl⟩
    · rw [hresolve]
      exact ih hrest hnext
    · exact ih hrest (List.forall_mem_nil _)

/-- A way that climbs out leads to the root or above the start of relative paths. By its spelling it
leads to names, and the root is lost. -/
theorem foldl_follow_of_climbsFrom {ps : List String} (hps : ∀ part ∈ ps, '/' ∉ part.toList)
    {absolute : Bool} {names : List String} (hnames : ∀ s ∈ names, IsName s)
    (h : climbsFrom (place absolute names) ps = true) :
    (∃ left, (∀ s ∈ left, IsName s) ∧ ps.foldl resolve (normal absolute names) = normal false left) ∧
      ((ps.foldl follow (place absolute names)).head? = some "/" ∨
        (ps.foldl follow (place absolute names)).head? = some "..") := by
  induction ps generalizing names with
  | nil => cases h
  | cons part ps ih =>
    obtain ⟨hpart, hrest⟩ := List.forall_mem_cons.1 hps
    rw [climbsFrom, Bool.or_eq_true] at h
    rw [List.foldl_cons, List.foldl_cons]
    rcases step_cases absolute hnames hpart with
      ⟨next, hnext, hresolve, hfollow, hinside⟩ | ⟨rfl, rfl⟩
    · rw [hfollow, hinside] at h
      rw [hresolve, hfollow]
      exact ih hrest hnext (h.resolve_left Bool.false_ne_true)
    · have hhead := head?_above_of_isOutside ((isOutside_place absolute hnames).2 rfl)
      have hstays : (ps.foldl follow (follow (place absolute []) "..")).head?
          = (above (place absolute [])).head? := head?_foldl_follow hhead ps
      rw [resolve_parent, dropLast_normal_nil, hstays]
      exact ⟨foldl_resolve_relative hrest (List.forall_mem_nil _), hhead⟩

/-- What becomes of a path that climbs out. -/
theorem exists_relative {path : String} (h : climbs path = true) :
    (∃ names, (∀ s ∈ names, IsName s) ∧ normalize path = normal false names) ∧
      ((namesOf path).head? = some "/" ∨ (namesOf path).head? = some "..") := by
  rw [climbs, start_eq] at h
  rw [normalize_eq, namesOf, start_eq]
  exact foldl_follow_of_climbsFrom (fun _ => not_mem_toList_of_mem_parts) (List.forall_mem_nil _) h

/-! ## Paths and their spellings -/

/-- **Normalization leaves names**, perhaps below the root. -/
theorem isNormal_normalize (path : String) : IsNormal (normalize path) := by
  cases h : climbs path with
  | false =>
    obtain ⟨names, hnames, hnormalize, -⟩ := exists_place h
    exact ⟨_, names, hnames, hnormalize⟩
  | true =>
    obtain ⟨⟨names, hnames, hnormalize⟩, -⟩ := exists_relative h
    exact ⟨_, names, hnames, hnormalize⟩

/-- A normal form leads where its names say. -/
theorem namesOf_ofNormal {absolute : Bool} {names : List String} (h : ∀ s ∈ names, IsName s) :
    namesOf (ofNormal (normal absolute names)) = place absolute names := by
  have hnormal : IsNormal (normal absolute names) := ⟨absolute, names, h, rfl⟩
  obtain ⟨left, hleft, hnormalize, hplace⟩ := exists_place (climbs_ofNormal hnormal)
  rw [normalize_ofNormal hnormal, isAbsolute_ofNormal h] at hnormalize
  rw [hplace, isAbsolute_ofNormal h, (normal_eq_iff.1 hnormalize).2]

/-- **A normalized path leads where the path does, exactly if the path does not climb out.** -/
theorem namesOf_ofNormal_normalize_iff (path : String) :
    namesOf (ofNormal (normalize path)) = namesOf path ↔ climbs path = false := by
  cases h : climbs path with
  | false =>
    obtain ⟨names, hnames, hnormalize, hplace⟩ := exists_place h
    rw [hnormalize, namesOf_ofNormal hnames, hplace]
    simp
  | true =>
    obtain ⟨⟨names, hnames, hnormalize⟩, hhead⟩ := exists_relative h
    rw [hnormalize, namesOf_ofNormal hnames]
    refine iff_of_false (fun heq => ?_) (by simp)
    rw [← heq] at hhead
    have hname : ∀ s, (place false names).head? = some s → IsName s :=
      fun s hs => hnames s (List.mem_of_head? hs)
    exact hhead.elim (fun h => (hname _ h).ne_slash rfl) fun h => (hname _ h).ne_parent rfl

/-- **An absolute path stays absolute, exactly if it does not climb above the root.** -/
theorem isAbsolute_ofNormal_normalize (path : String) :
    isAbsolute (ofNormal (normalize path)) = (isAbsolute path && !climbs path) := by
  cases h : climbs path with
  | false =>
    obtain ⟨names, hnames, hnormalize, -⟩ := exists_place h
    rw [hnormalize, isAbsolute_ofNormal hnames]
    simp
  | true =>
    obtain ⟨⟨names, hnames, hnormalize⟩, -⟩ := exists_relative h
    rw [hnormalize, isAbsolute_ofNormal hnames]
    simp

/-- Paths that do not climb out are one by their components if they lead to one place. -/
theorem normalize_eq_iff {p q : String} (hp : climbs p = false) (hq : climbs q = false) :
    normalize p = normalize q ↔ namesOf p = namesOf q := by
  obtain ⟨ps, hps, hp, hpplace⟩ := exists_place hp
  obtain ⟨qs, hqs, hq, hqplace⟩ := exists_place hq
  rw [hp, hq, hpplace, hqplace, normal_eq_iff, place_inj hps hqs]

/-- One of two such paths begins with the components of the other if it leads below it. -/
theorem normalize_prefix_iff {root path : String} (hroot : climbs root = false)
    (hpath : climbs path = false) : normalize root <+: normalize path ↔ IsBelow root path := by
  obtain ⟨rs, hrs, hr, hrplace⟩ := exists_place hroot
  obtain ⟨ps, hps, hp, hpplace⟩ := exists_place hpath
  have hnothing : namesOf root = [] ↔ isAbsolute root = false ∧ rs = [] := by
    rw [hrplace]
    exact place_inj (b := false) hrs (List.forall_mem_nil _)
  unfold IsBelow
  rw [hr, hp, normal_prefix_iff, hnothing, hrplace, hpplace, isSome_wayDown?_place hrs hps, and_assoc]

end Disk

end SpecTree
