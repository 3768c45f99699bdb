import SpecTree.Proofs.Path

/-!
# Texts in memory

What is stored in memory is what a disk would hold, as long as no path climbs out: above the root,
or above the place where relative paths start. Main statements:

* `listLe_trans`, `listLe_antisymm`, `listLe_total`: the order of paths is linear;
* `Ascending.insertEntry`, `find?_insertEntry`: storing one text keeps the order and changes what is
  found under one path;
* `ascending_ofList`, `text?_ofList`, `mem_keys_ofList`: what is stored after all;
* `lookups_of_ofList`: reading and listing in terms of where paths lead.
-/

namespace SpecTree

namespace PathComponent

/-! ## The order of paths -/

theorem le_total (c d : PathComponent) : c.le d = true ∨ d.le c = true := by
  cases c <;> cases d <;> simp [le, rank, String.le_total]

theorem le_trans {c d e : PathComponent} (hcd : c.le d = true) (hde : d.le e = true) :
    c.le e = true := by
  cases c <;> cases d <;> cases e <;> simp_all [le, rank]
  exact String.le_trans hcd hde

theorem le_antisymm {c d : PathComponent} (hcd : c.le d = true) (hdc : d.le c = true) : c = d := by
  cases c <;> cases d <;> simp_all [le, rank]
  exact String.le_antisymm hcd hdc

/-- Of two paths with one first component, the rest decides. -/
theorem listLe_cons_cons (c d : PathComponent) (cs ds : List PathComponent) :
    listLe (c :: cs) (d :: ds) = true ↔
      (c = d ∧ listLe cs ds = true) ∨ (c ≠ d ∧ c.le d = true) := by
  rw [listLe]
  split
  · next h => simp [h]
  · next h => simp [h]

/-- Of two paths one comes first, or both are one. -/
theorem listLe_total (ps qs : List PathComponent) : listLe ps qs = true ∨ listLe qs ps = true := by
  induction ps generalizing qs with
  | nil => exact .inl rfl
  | cons p ps ih =>
    cases qs with
    | nil => exact .inr rfl
    | cons q qs =>
      rw [listLe_cons_cons, listLe_cons_cons]
      by_cases h : p = q
      · exact (ih qs).imp (fun hle => .inl ⟨h, hle⟩) fun hle => .inl ⟨h.symm, hle⟩
      · exact (le_total p q).imp (fun hle => .inr ⟨h, hle⟩) fun hle => .inr ⟨Ne.symm h, hle⟩

/-- The order of paths is transitive. The induction follows all three paths at once. -/
theorem listLe_trans {ps qs rs : List PathComponent} (hpq : listLe ps qs = true)
    (hqr : listLe qs rs = true) : listLe ps rs = true := by
  induction ps generalizing qs rs with
  | nil => rfl
  | cons p ps ih =>
    cases qs with
    | nil => cases hpq
    | cons q qs =>
      cases rs with
      | nil => cases hqr
      | cons r rs =>
        rw [listLe_cons_cons] at hpq hqr ⊢
        rcases hpq with ⟨rfl, hpq⟩ | ⟨hne, hpq⟩
        · exact hqr.imp_left (.imp_right (ih hpq))
        · rcases hqr with ⟨rfl, -⟩ | ⟨hne', hqr⟩
          · exact .inr ⟨hne, hpq⟩
          · refine .inr ⟨?_, le_trans hpq hqr⟩
            rintro rfl
            exact hne (le_antisymm hpq hqr)

/-- Paths that come before each other are one. -/
theorem listLe_antisymm {ps qs : List PathComponent} (hpq : listLe ps qs = true)
    (hqp : listLe qs ps = true) : ps = qs := by
  induction ps generalizing qs with
  | nil =>
    cases qs with
    | nil => rfl
    | cons q qs => cases hqp
  | cons p ps ih =>
    cases qs with
    | nil => cases hpq
    | cons q qs =>
      rw [listLe_cons_cons] at hpq hqp
      rcases hpq with ⟨rfl, hpq⟩ | ⟨hne, hpq⟩
      · rcases hqp with ⟨-, hqp⟩ | ⟨hne, -⟩
        · rw [ih hpq hqp]
        · exact absurd rfl hne
      · rcases hqp with ⟨heq, -⟩ | ⟨-, hqp⟩
        · exact absurd heq.symm hne
        · exact absurd (le_antisymm hpq hqp) hne

/-- Does a path come before another one? -/
def Before (ps qs : List PathComponent) : Prop := listLe ps qs = true ∧ ps ≠ qs

/-- What comes before one path comes before those behind it. -/
theorem Before.trans {ps qs rs : List PathComponent} (hpq : Before ps qs) (hqr : Before qs rs) :
    Before ps rs := by
  refine ⟨listLe_trans hpq.1 hqr.1, ?_⟩
  rintro rfl
  exact hpq.2 (listLe_antisymm hpq.1 hqr.1)

/-- A path that does not come behind another one comes before it. -/
theorem before_of_not_listLe {ps qs : List PathComponent} (hne : qs ≠ ps)
    (h : listLe ps qs ≠ true) : Before qs ps :=
  ⟨(listLe_total ps qs).resolve_left h, hne⟩

end PathComponent

namespace MemoryFiles

open PathComponent SpecTree.Path

/-! ## Storing one text -/

/-- Entries in ascending order of their paths, each path once. -/
def Ascending (entries : List (List PathComponent × String)) : Prop :=
  entries.Pairwise fun e f => Before e.1 f.1

variable {entries : List (List PathComponent × String)}

/-- A path that is stored is the new one or was there. -/
theorem mem_keys_insertEntry (path : List PathComponent) (text : String) (q : List PathComponent) :
    q ∈ (insertEntry path text entries).map (·.1) ↔ q = path ∨ q ∈ entries.map (·.1) := by
  induction entries with
  | nil => simp [insertEntry]
  | cons e entries ih =>
    obtain ⟨p, t⟩ := e
    unfold insertEntry
    split
    · next h => simp [h]
    · split
      · simp
      · rw [List.map_cons, List.mem_cons, ih, List.map_cons, List.mem_cons, or_left_comm]

theorem forall_before_iff {p : List PathComponent} :
    (∀ e ∈ entries, Before p e.1) ↔ ∀ q ∈ entries.map (·.1), Before p q :=
  List.forall_mem_map.symm

/-- A new path is put where it belongs in the order. -/
theorem Ascending.insertEntry (h : Ascending entries) (path : List PathComponent) (text : String) :
    Ascending (insertEntry path text entries) := by
  induction entries with
  | nil => exact List.pairwise_singleton _ _
  | cons e entries ih =>
    obtain ⟨p, t⟩ := e
    obtain ⟨hfirst, hrest⟩ := List.pairwise_cons.1 h
    unfold MemoryFiles.insertEntry
    split
    · next heq =>
      subst heq
      exact List.pairwise_cons.2 ⟨hfirst, hrest⟩
    · next hne =>
      split
      · next hle =>
        have hbefore : Before path p := ⟨hle, Ne.symm hne⟩
        exact List.pairwise_cons.2
          ⟨List.forall_mem_cons.2 ⟨hbefore, fun e he => hbefore.trans (hfirst e he)⟩, h⟩
      · next hle =>
        refine List.pairwise_cons.2 ⟨forall_before_iff.2 fun q hq => ?_, ih hrest⟩
        rcases (mem_keys_insertEntry path text q).1 hq with rfl | hq
        · exact before_of_not_listLe hne hle
        · exact forall_before_iff.1 hfirst q hq

/-- What is found under one path changes, and nothing else. -/
theorem find?_insertEntry (path : List PathComponent) (text : String) (q : List PathComponent) :
    (insertEntry path text entries).find? (·.1 = q)
      = if path = q then some (path, text) else entries.find? (·.1 = q) := by
  induction entries with
  | nil => by_cases hq : path = q <;> simp [insertEntry, hq]
  | cons e entries ih =>
    obtain ⟨p, t⟩ := e
    unfold insertEntry
    split
    · next h =>
      subst h
      by_cases hq : p = q <;> simp [hq]
    · next hne =>
      split
      · by_cases hq : path = q <;> simp [hq]
      · rw [List.find?_cons, ih, List.find?_cons]
        by_cases hp : p = q
        · have hpath : path ≠ q := fun heq => hne (hp.trans heq.symm)
          simp [hp, hpath]
        · simp [hp]

/-! ## Storing texts one after another -/

variable (files : List (String × String))

/-- The text that comes last is stored last. -/
theorem ofList_concat (file : String × String) :
    (ofList (files ++ [file])).entries
      = insertEntry (normalize file.1) file.2 (ofList files).entries := by
  unfold ofList
  rw [List.foldl_append]
  rfl

/-- The stored paths are ascending, each of them once. -/
theorem ascending_ofList : Ascending (ofList files).entries := by
  induction files using List.reverseRecOn with
  | nil => exact List.Pairwise.nil
  | append_singleton files file ih =>
    rw [ofList_concat]
    exact ih.insertEntry _ _

/-- The stored paths are the normal forms of those that were given. -/
theorem mem_keys_ofList (q : List PathComponent) :
    q ∈ (ofList files).entries.map (·.1) ↔ ∃ file ∈ files, normalize file.1 = q := by
  induction files using List.reverseRecOn with
  | nil => simp [ofList, empty]
  | append_singleton files file ih =>
    rw [ofList_concat, mem_keys_insertEntry, ih]
    simp [or_and_right, exists_or, or_comm, eq_comm]

/-- What is found under a path is what was stored there last. -/
theorem text?_ofList (q : List PathComponent) :
    ((ofList files).entries.find? (·.1 = q)).map (·.2)
      = (files.reverse.find? fun file : String × String => normalize file.1 = q).map (·.2) := by
  induction files using List.reverseRecOn with
  | nil => rfl
  | append_singleton files file ih =>
    rw [ofList_concat, find?_insertEntry, List.reverse_concat, List.find?_cons]
    by_cases h : normalize file.1 = q
    · simp [h]
    · simp [h, ih]

/-- Only normal forms are stored. -/
theorem isNormal_of_mem_entries {e : List PathComponent × String} (h : e ∈ (ofList files).entries) :
    IsNormal e.1 := by
  obtain ⟨file, -, hnormal⟩ := (mem_keys_ofList files e.1).1 (List.mem_map_of_mem h)
  exact hnormal ▸ Disk.isNormal_normalize _

/-! ## Reading and listing -/

/-- The text that was stored last under a path that leads to the same place. -/
def lastText? (path : String) : Option String :=
  (files.reverse.find? fun file => Disk.namesOf file.1 = Disk.namesOf path).map (·.2)

/-- Are some paths those that were stored at or below another, in ascending order and each once? -/
structure IsListing (root : String) (found : List String) : Prop where
  ascending : found.Pairwise fun s t => Before (components s) (components t)
  mem_iff (s : String) : s ∈ found ↔
    ∃ file ∈ files, Disk.IsBelow root file.1 ∧ s = ofNormal (normalize file.1)

variable {files}

/-- What is read is what was stored last in the same place. -/
theorem read_ofList (hfiles : ∀ file ∈ files, Disk.climbs file.1 = false) {path : String}
    (hpath : Disk.climbs path = false) :
    (ofList files).read path = match lastText? files path with
      | some text => .ok text
      | none => .error (.noSource (ofNormal (normalize path))) := by
  have hlast : ((ofList files).entries.find? (·.1 = normalize path)).map (·.2)
      = lastText? files path := by
    unfold lastText?
    rw [text?_ofList, ← List.head?_filter, ← List.head?_filter]
    congr 2
    exact List.filter_congr fun file hfile => decide_eq_decide.2
      (Disk.normalize_eq_iff (hfiles file (List.mem_reverse.1 hfile)) hpath)
  unfold read
  dsimp only
  rw [← hlast]
  cases (ofList files).entries.find? (·.1 = normalize path) <;> rfl

/-- The paths at or below another. -/
def found (files : MemoryFiles) (root : String) : List String :=
  (files.entries.filter (normalize root |>.isPrefixOf ·.1)).map fun e => ofNormal e.1

/-- A listing fails only if it would be empty. -/
theorem list_eq (files : MemoryFiles) (root : String) :
    files.list root
      = if files.found root = [] then .error (.noSources (ofNormal (normalize root)))
        else .ok (files.found root) := by
  unfold list found
  dsimp only
  cases files.entries.filter (normalize root |>.isPrefixOf ·.1) <;> rfl

/-- What is found at or below a root is what lies there by the places that paths lead to. -/
theorem isListing_found (hfiles : ∀ file ∈ files, Disk.climbs file.1 = false) {root : String}
    (hroot : Disk.climbs root = false) : IsListing files root ((ofList files).found root) where
  ascending := by
    have hfilter := (ascending_ofList files).filter fun e => (normalize root).isPrefixOf e.1
    refine List.pairwise_map.2 (hfilter.imp_of_mem fun {e f} he hf hbefore => ?_)
    rwa [components_ofNormal (isNormal_of_mem_entries files (List.mem_filter.1 he).1),
      components_ofNormal (isNormal_of_mem_entries files (List.mem_filter.1 hf).1)]
  mem_iff s := by
    have hfound : s ∈ (ofList files).found root ↔
        ∃ q ∈ (ofList files).entries.map (·.1), normalize root <+: q ∧ ofNormal q = s := by
      simp [found, and_assoc]
    rw [hfound]
    constructor
    · rintro ⟨q, hq, hprefix, rfl⟩
      obtain ⟨file, hfile, rfl⟩ := (mem_keys_ofList files q).1 hq
      exact ⟨file, hfile, (Disk.normalize_prefix_iff hroot (hfiles file hfile)).1 hprefix, rfl⟩
    · rintro ⟨file, hfile, hbelow, rfl⟩
      exact ⟨_, (mem_keys_ofList files _).2 ⟨file, hfile, rfl⟩,
        (Disk.normalize_prefix_iff hroot (hfiles file hfile)).2 hbelow, rfl⟩

/-- **Texts in memory lie where their paths lead.** Normalization is idempotent. An absolute path
stays absolute, and its spelling leads to the same place, exactly if no double point stands where
there is nothing to go back from. Among paths of which this holds, reading yields the text that was
stored last in the same place, and listing the stored paths at or below a place, in ascending order
and each once. An error says that there is none. -/
theorem lookups_of_ofList (files : List (String × String)) (path : String) :
    normalize (ofNormal (normalize path)) = normalize path ∧
    isAbsolute (ofNormal (normalize path)) = (isAbsolute path && !Disk.climbs path) ∧
    (Disk.namesOf (ofNormal (normalize path)) = Disk.namesOf path ↔ Disk.climbs path = false) ∧
    ((∀ file ∈ files, Disk.climbs file.1 = false) → Disk.climbs path = false →
      ((ofList files).read path = match lastText? files path with
        | some text => .ok text
        | none => .error (.noSource (ofNormal (normalize path)))) ∧
      ∃ found, IsListing files path found ∧
        (ofList files).list path
          = if found = [] then .error (.noSources (ofNormal (normalize path))) else .ok found) := by
  refine ⟨normalize_ofNormal (Disk.isNormal_normalize path),
    Disk.isAbsolute_ofNormal_normalize path, Disk.namesOf_ofNormal_normalize_iff path,
    fun hfiles hpath => ⟨read_ofList hfiles hpath, ?_⟩⟩
  exact ⟨_, isListing_found hfiles hpath, list_eq _ _⟩

/-- Three files, of which two are at or below the path that is asked for, one of them stored twice. -/
theorem lookups_of_ofList_exampleSpelled :
    let files := [("/src/./b", "1"), ("/other/c", "2"), ("/src//a/", "3"), ("/src/x/../b", "4")]
    (ofList files).read "/src/b" = .ok "4" ∧
      ∃ found, IsListing files "/src/b/.." found ∧
        (ofList files).list "/src/b/.."
          = if found = [] then .error (.noSources "/src") else .ok found := by
  have hread := ((lookups_of_ofList
    [("/src/./b", "1"), ("/other/c", "2"), ("/src//a/", "3"), ("/src/x/../b", "4")] "/src/b").2.2.2
    (by decide +kernel) (by decide +kernel)).1
  have hlist := ((lookups_of_ofList
    [("/src/./b", "1"), ("/other/c", "2"), ("/src//a/", "3"), ("/src/x/../b", "4")] "/src/b/..").2.2.2
    (by decide +kernel) (by decide +kernel)).2
  refine ⟨hread.trans (by decide +kernel), ?_⟩
  rwa [show ofNormal (normalize "/src/b/..") = "/src" by decide +kernel] at hlist

/-- A double point that climbs above the root takes the root away: an absolute path becomes a
relative one, and a text stored under it is neither found nor listed where the path leads. In the same
way a path that leads above the start of relative paths is confused with one that does not. -/
theorem lookups_of_climbing_path :
    (Disk.namesOf "/../a" = Disk.namesOf "/a" ∧ isAbsolute "/../a" = true ∧
      isAbsolute (ofNormal (normalize "/../a")) = false ∧
      (ofList [("/../a", "x")]).read "/a" = .error (.noSource "/a") ∧
      (ofList [("/../a", "x")]).list "/" = .error (.noSources "/")) ∧
    (Disk.namesOf "../a" ≠ Disk.namesOf "a" ∧
      (ofList [("../a", "x"), ("a", "y")]).read "../a" = .ok "y") := by
  decide +kernel

end MemoryFiles

end SpecTree
