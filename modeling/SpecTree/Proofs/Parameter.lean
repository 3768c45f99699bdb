import SpecTree.Proofs.Edit
import SpecTree.Result
import SpecTree.Tree.Collection

/-!
# Laws of parameters and of lists of them

What is found under a name after a parameter was put into a list (`find?_put`), when a value
is accepted (`check_eq_ok`, `set_eq_ok`), and the same for collections.
-/

namespace SpecTree

variable {ν : Type}

namespace Parameter

/-! ## Lists of parameters -/

theorem name_of_find? {ps : List (Parameter ν)} {k : String} {p : Parameter ν}
    (h : find? ps k = some p) : p.name = k := by
  simpa using List.find?_some h

theorem mem_of_find? {ps : List (Parameter ν)} {k : String} {p : Parameter ν}
    (h : find? ps k = some p) : p ∈ ps :=
  List.mem_of_find?_eq_some h

/-- The first parameter is found if it has the name, and is passed over if not. -/
theorem find?_cons (p : Parameter ν) (ps : List (Parameter ν)) (k : String) :
    find? (p :: ps) k = if p.name = k then some p else find? ps k := by
  unfold find?
  by_cases h : p.name = k
  · rw [List.find?_cons_of_pos (by simpa using h), if_pos h]
  · rw [List.find?_cons_of_neg (by simpa using h), if_neg h]

/-- The second of two lists is searched only for what the first one lacks. -/
theorem find?_append (ps qs : List (Parameter ν)) (k : String) :
    find? (ps ++ qs) k = (find? ps k).or (find? qs k) :=
  List.find?_append

/-- A parameter is found under its own name, and the others as before. -/
theorem find?_put (p : Parameter ν) (ps : List (Parameter ν)) (k : String) :
    find? (put p ps) k = if p.name = k then some p else find? ps k := by
  induction ps with
  | nil => rw [put, find?_cons]
  | cons q ps ih =>
    rw [put]
    by_cases hq : q.name = p.name
    · rw [if_pos hq, find?_cons, find?_cons, hq]
      by_cases hk : p.name = k
      · rw [if_pos hk, if_pos hk]
      · simp only [if_neg hk]
    · rw [if_neg hq, find?_cons, find?_cons, ih]
      by_cases hk : q.name = k
      · rw [if_pos hk, if_pos hk, if_neg (hk ▸ fun h => hq h.symm)]
      · simp only [if_neg hk]

/-- Putting back what was found changes nothing. -/
theorem put_of_find? {ps : List (Parameter ν)} {p : Parameter ν} (h : find? ps p.name = some p) :
    put p ps = ps := by
  induction ps with
  | nil => cases h
  | cons q ps ih =>
    rw [find?_cons] at h
    rw [put]
    by_cases hq : q.name = p.name
    · rw [if_pos hq] at h ⊢
      rw [Option.some.inj h]
    · rw [if_neg hq] at h ⊢
      rw [ih h]

/-- Of two parameters of one name the later counts. -/
theorem put_put {p q : Parameter ν} (h : q.name = p.name) (ps : List (Parameter ν)) :
    put p (put q ps) = put p ps := by
  induction ps with
  | nil =>
    show (if q.name = p.name then [p] else q :: put p []) = [p]
    rw [if_pos h]
  | cons r ps ih =>
    by_cases hr : r.name = p.name
    · rw [put, if_pos (hr.trans h.symm), put, if_pos h, put, if_pos hr]
    · have hrq : ¬ r.name = q.name := fun he => hr (he.trans h)
      rw [put, if_neg hrq, put, if_neg hr, ih, put, if_neg hr]

/-- Putting a parameter in leaves no other one behind. -/
theorem mem_put {p q : Parameter ν} {ps : List (Parameter ν)} (h : q ∈ put p ps) :
    q = p ∨ q ∈ ps := by
  induction ps with
  | nil => exact Or.inl (List.mem_singleton.1 h)
  | cons r ps ih =>
    rw [put] at h
    split at h
    · rcases List.mem_cons.1 h with h | h
      · exact Or.inl h
      · exact Or.inr (List.mem_cons_of_mem _ h)
    · rcases List.mem_cons.1 h with h | h
      · exact Or.inr (h ▸ List.mem_cons_self)
      · exact (ih h).imp_right (List.mem_cons_of_mem _)

/-- Putting a parameter in place of one of its name changes no names. -/
theorem map_name_put {p q : Parameter ν} {ps : List (Parameter ν)} (h : find? ps p.name = some q) :
    (put p ps).map (·.name) = ps.map (·.name) := by
  induction ps with
  | nil => cases h
  | cons r ps ih =>
    rw [find?_cons] at h
    rw [put]
    by_cases hr : r.name = p.name
    · rw [if_pos hr, List.map_cons, List.map_cons, hr]
    · rw [if_neg hr] at h ⊢
      rw [List.map_cons, List.map_cons, ih h]

/-- No name twice. -/
def Distinct (ps : List (Parameter ν)) : Prop := (ps.map (·.name)).Nodup

/-- No name comes twice after a parameter is put in. -/
theorem distinct_put {p : Parameter ν} {ps : List (Parameter ν)} (h : Distinct ps) :
    Distinct (put p ps) := by
  unfold Distinct at h ⊢
  induction ps with
  | nil => simp [put]
  | cons q ps ih =>
    rw [List.map_cons, List.nodup_cons] at h
    rw [put]
    split
    · rename_i hq
      rw [List.map_cons, List.nodup_cons, ← hq]
      exact h
    · rename_i hq
      rw [List.map_cons, List.nodup_cons]
      refine ⟨?_, ih h.2⟩
      intro hmem
      obtain ⟨r, hr, hname⟩ := List.mem_map.1 hmem
      rcases mem_put hr with rfl | hr
      · exact hq hname.symm
      · exact h.1 (List.mem_map.2 ⟨r, hr, hname⟩)

/-- A parameter of another name can be added. -/
theorem distinct_concat {p : Parameter ν} {ps : List (Parameter ν)} (h : Distinct ps)
    (hnew : find? ps p.name = none) : Distinct (ps ++ [p]) := by
  unfold Distinct at h ⊢
  rw [List.map_append, List.map_singleton, List.nodup_append]
  refine ⟨h, List.nodup_cons.2 ⟨List.not_mem_nil, List.nodup_nil⟩, ?_⟩
  rintro _ ha _ hb rfl
  obtain ⟨q, hq, hname⟩ := List.mem_map.1 ha
  have hother := List.find?_eq_none.1 hnew q hq
  exact hother (decide_eq_true (hname.trans (List.mem_singleton.1 hb)))

/-- However often a name comes, it is put in once. -/
theorem distinct_putAll (ps : List (Parameter ν)) : Distinct (putAll ps) := by
  unfold putAll
  -- the induction is on what is still to be put in, whatever is there already:
  have hfold : ∀ kept : List (Parameter ν), Distinct kept →
      Distinct (ps.foldl (fun kept p => put p kept) kept) := by
    induction ps with
    | nil => exact fun _ h => h
    | cons p ps ih => exact fun kept h => ih _ (distinct_put h)
  exact hfold [] List.nodup_nil

theorem mem_putAll {p : Parameter ν} {ps : List (Parameter ν)} (h : p ∈ putAll ps) : p ∈ ps := by
  -- as above, with what is there already:
  have hfold : ∀ kept : List (Parameter ν),
      p ∈ ps.foldl (fun kept p => put p kept) kept → p ∈ ps ∨ p ∈ kept := by
    clear h
    induction ps with
    | nil => exact fun _ h => Or.inr h
    | cons q ps ih =>
      intro kept h
      rcases ih _ h with h | h
      · exact Or.inl (List.mem_cons_of_mem _ h)
      · rcases mem_put h with h | h
        · exact Or.inl (h ▸ List.mem_cons_self)
        · exact Or.inr h
  exact (hfold [] h).resolve_right List.not_mem_nil

/-- Where no name comes twice, every parameter is found under its name. -/
theorem find?_of_mem {ps : List (Parameter ν)} (h : Distinct ps) {p : Parameter ν} (hp : p ∈ ps) :
    find? ps p.name = some p := by
  induction ps with
  | nil => cases hp
  | cons q ps ih =>
    rw [Distinct, List.map_cons, List.nodup_cons] at h
    rw [find?_cons]
    rcases List.mem_cons.1 hp with rfl | hp
    · rw [if_pos rfl]
    · rw [if_neg fun he => h.1 (List.mem_map.2 ⟨p, hp, he.symm⟩)]
      exact ih h.2 hp

/-- Where no name comes twice, a parameter is put in by changing the one of its name. -/
theorem put_eq_map {ps : List (Parameter ν)} {q : Parameter ν} (h : Distinct ps)
    (hq : q.name ∈ ps.map (·.name)) :
    put q ps = ps.map fun p => if p.name = q.name then q else p := by
  induction ps with
  | nil => cases hq
  | cons p ps ih =>
    rw [Distinct, List.map_cons, List.nodup_cons] at h
    rw [put, List.map_cons]
    split
    · next hp =>
      -- no other parameter has the name:
      have hrest : ∀ r ∈ ps, (if r.name = q.name then q else r) = r := by
        intro r hr
        rw [if_neg]
        intro hname
        exact h.1 (List.mem_map.2 ⟨r, hr, hname.trans hp.symm⟩)
      rw [List.map_congr_left hrest, List.map_id']
    · next hp =>
      rw [List.map_cons, List.mem_cons] at hq
      rw [ih h.2 (hq.resolve_left fun he => hp he.symm)]

/-- Where no name comes twice, putting in what became of a parameter changes that one alone. -/
theorem put_eq_map_of_find? {ps : List (Parameter ν)} {p : Parameter ν} {k : String}
    {f : Parameter ν → Parameter ν} (h : Distinct ps) (hp : find? ps k = some p)
    (hname : (f p).name = p.name) :
    put (f p) ps = ps.map fun q => if q.name = k then f q else q := by
  have hpname : p.name = k := name_of_find? hp
  rw [put_eq_map h (hname ▸ List.mem_map.2 ⟨p, mem_of_find? hp, rfl⟩)]
  refine List.map_congr_left fun q hq => ?_
  rw [hname, hpname]
  by_cases hk : q.name = k
  · have hfound := find?_of_mem h hq
    rw [hk, hp] at hfound
    rw [if_pos hk, if_pos hk, Option.some.inj hfound]
  · rw [if_neg hk, if_neg hk]

/-- Where there is no parameter of a name, none is changed by its name. -/
theorem map_of_find?_eq_none {ps : List (Parameter ν)} {k : String} (h : find? ps k = none)
    (f : Parameter ν → Parameter ν) : (ps.map fun q => if q.name = k then f q else q) = ps := by
  refine (List.map_congr_left fun q hq => ?_).trans (List.map_id ps)
  exact if_neg fun hk => List.find?_eq_none.1 h q hq (decide_eq_true hk)

/-! ## Values -/

theorem isPrimitive_iff {p : Parameter ν} : p.isPrimitive ↔ ∃ t, p.type = .primitive t := by
  unfold isPrimitive TypeRef.primitive?
  cases p.type <;> simp

theorem isPrimitive_eq_false_iff {p : Parameter ν} :
    p.isPrimitive = false ↔ ∃ s, p.type = .spec s := by
  unfold isPrimitive TypeRef.primitive?
  cases p.type <;> simp

/-- A slot without a sub-spec in it holds no value. -/
theorem hasValue_of_node_eq_none [Judged ν] {p : Parameter ν} (hprim : p.isPrimitive = false)
    (hn : p.node = none) : p.hasValue = false := by
  obtain ⟨s, ht⟩ := isPrimitive_eq_false_iff.1 hprim
  unfold hasValue
  rw [ht, hn]
  rfl

/-- A value is taken by a parameter of a primitive type that it can be made one of. -/
theorem check_eq_ok {p : Parameter ν} {v w : Value} :
    p.check v = .ok w ↔ ∃ t, p.type = .primitive t ∧ v.coerce t = .ok w := by
  unfold check
  cases p.type with
  | spec s => simp
  | primitive t => cases hc : v.coerce t <;> simp [hc]

/-- A parameter is set to the value that it makes of the one it is given. -/
theorem set_eq_ok {p p' : Parameter ν} {v : Value} :
    p.set v = .ok p' ↔ ∃ w, p.check v = .ok w ∧ p' = { p with value := some w } := by
  unfold set
  cases hc : p.check v with
  | error e => simp [bind, Except.bind]
  | ok w => simp [bind, Except.bind, pure, Except.pure, eq_comm]

/-- Whether a value is accepted depends on the name and the type alone. -/
theorem check_congr {p q : Parameter ν} (hname : p.name = q.name) (htype : p.type = q.type)
    (v : Value) : p.check v = q.check v := by
  unfold check
  rw [hname, htype]

/-! ## Sub-specs -/

/-- Either the slot is for a value or empty, and stays as it is, or its sub-spec is edited. -/
theorem within_cases (p : Parameter ν) :
    Edit.Refuses within p p ∨
      ∃ m, p.isPrimitive = false ∧ p.node = some m ∧
        Edit.Reaches within p m fun m => { p with node := some m } := by
  cases hprim : p.isPrimitive with
  | true =>
    obtain ⟨t, ht⟩ := isPrimitive_iff.1 hprim
    have hview : p.subSpec = .error (.notDerived p.name) := by
      unfold subSpec
      rw [ht]
    exact Or.inl ⟨_, fun _ => Edit.zoom_of_view_error hview⟩
  | false =>
    obtain ⟨s, ht⟩ := isPrimitive_eq_false_iff.1 hprim
    cases hn : p.node with
    | none =>
      have hview : p.subSpec = .error (.unknownKey p.name s) := by
        unfold subSpec
        rw [ht, hn]
      exact Or.inl ⟨_, fun _ => Edit.zoom_of_view_error hview⟩
    | some m =>
      have hview : p.subSpec = .ok m := by
        unfold subSpec
        rw [ht, hn]
      exact Or.inr ⟨m, rfl, rfl, fun _ => Edit.zoom_of_view hview⟩

end Parameter

namespace Collection

/-! ## Collections -/

/-- What is put in is found under its name, and the rest is as it was. -/
theorem parameter?_insert (c : Collection ν) (p : Parameter ν) (k : String) :
    (c.insert p).parameter? k = if p.name = k then some p else c.parameter? k :=
  Parameter.find?_put p c.parameters k

/-- Putting in what is there changes nothing. -/
theorem insert_of_parameter? {c : Collection ν} {p : Parameter ν}
    (h : c.parameter? p.name = some p) : c.insert p = c := by
  unfold insert
  rw [Parameter.put_of_find? h]

/-- The second of two parameters of one name takes the place of the first. -/
theorem insert_insert {p q : Parameter ν} (h : q.name = p.name) (c : Collection ν) :
    (c.insert q).insert p = c.insert p := by
  simp only [insert, Parameter.put_put h]

/-- A key is declared exactly if a parameter is found under it. -/
theorem contains_iff {c : Collection ν} {k : String} :
    c.contains k ↔ ∃ p, c.parameter? k = some p := by
  rw [contains, Option.isSome_iff_exists]

theorem name_of_parameter? {c : Collection ν} {k : String} {p : Parameter ν}
    (h : c.parameter? k = some p) : p.name = k :=
  Parameter.name_of_find? h

/-- Whether a declared key may be set is for its parameter to say. -/
theorem checkSet_of_parameter? {c : Collection ν} {k : String} {p : Parameter ν}
    (h : c.parameter? k = some p) (v : Value) : c.checkSet k v = (p.check v).map fun _ => () := by
  simp only [checkSet, h]

/-- A declared key is set by setting its parameter. -/
theorem set_of_parameter? {c : Collection ν} {k : String} {p : Parameter ν}
    (h : c.parameter? k = some p) (v : Value) : c.set k v = (p.set v).map c.insert := by
  simp only [set, h]

/-- A declared key accepts a value if and only if its parameter does. -/
theorem checkSet_eq_ok {c : Collection ν} {k : String} {p : Parameter ν}
    (h : c.parameter? k = some p) {v : Value} :
    c.checkSet k v = .ok () ↔ ∃ w, p.check v = .ok w := by
  rw [checkSet_of_parameter? h, map_eq_ok]
  exact exists_congr fun w => and_iff_left rfl

/-- What an accepted value makes of a collection that declares the key. -/
theorem set_eq_ok {c c' : Collection ν} {k : String} {p : Parameter ν}
    (h : c.parameter? k = some p) {v : Value} :
    c.set k v = .ok c' ↔ ∃ w, p.check v = .ok w ∧ c' = c.insert { p with value := some w } := by
  rw [set_of_parameter? h]
  constructor
  · intro hset
    obtain ⟨p', hp', rfl⟩ := map_eq_ok.1 hset
    obtain ⟨w, hw, rfl⟩ := Parameter.set_eq_ok.1 hp'
    exact ⟨w, hw, rfl⟩
  · rintro ⟨w, hw, rfl⟩
    rw [Parameter.set_eq_ok.2 ⟨w, hw, rfl⟩]
    rfl

/-- A write to a collection puts a parameter in. -/
theorem exists_insert_of_set {c c' : Collection ν} {key : String} {value : Value}
    (h : c.set key value = .ok c') : ∃ p, c' = c.insert p := by
  have hinsert : ∀ q : Parameter ν, (q.set value).map c.insert = .ok c' → ∃ p, c' = c.insert p := by
    intro q hq
    obtain ⟨p, -, rfl⟩ := map_eq_ok.1 hq
    exact ⟨p, rfl⟩
  unfold set at h
  split at h
  · exact hinsert _ h
  · split at h
    · cases h
    · exact hinsert _ h

/-- Putting a parameter in place of one of its name declares nothing. -/
theorem contains_insert {c : Collection ν} {p : Parameter ν} (h : c.contains p.name = true) :
    (c.insert p).contains = c.contains := by
  funext k
  rw [Bool.eq_iff_iff, contains_iff, contains_iff, parameter?_insert]
  split
  · next hname =>
    rw [hname, contains_iff] at h
    exact ⟨fun _ => h, fun _ => ⟨p, rfl⟩⟩
  · exact Iff.rfl

/-- A write to a declared key declares nothing. -/
theorem contains_of_set {c c' : Collection ν} {k : String} {v : Value}
    (hk : c.contains k = true) (h : c.set k v = .ok c') : c'.contains = c.contains := by
  obtain ⟨p, hp⟩ := contains_iff.1 hk
  obtain ⟨w, -, rfl⟩ := (set_eq_ok hp).1 h
  rw [← name_of_parameter? hp] at hk
  exact contains_insert hk

/-- Either no sub-spec is found under the key, and nothing changes, or it is edited. -/
theorem within_cases (c : Collection ν) (key : String) :
    Edit.Refuses (within key) c c ∨
      ∃ p m, c.parameter? key = some p ∧ p.isPrimitive = false ∧ p.node = some m ∧
        Edit.Reaches (within key) c m fun m => c.insert { p with node := some m } := by
  cases hp : c.parameter? key with
  | none =>
    refine Or.inl ⟨.unknownKey key "collection", fun _ => Edit.zoom_of_view_error ?_⟩
    rw [hp]
  | some p =>
    have hwithin : ∀ {α : Type} (act : Edit ν α), within key act c
        = Edit.through (fun p => c.insert p) (Parameter.within act) p := by
      intro α act
      apply Edit.zoom_of_view
      rw [hp]
    rcases Parameter.within_cases p with hrefuses | ⟨m, hprim, hn, hreaches⟩
    · have hput : c.insert p = c := insert_of_parameter? (name_of_parameter? hp ▸ hp)
      have hsame := hrefuses.through hwithin
      rw [hput] at hsame
      exact Or.inl hsame
    · exact Or.inr ⟨p, m, rfl, hprim, hn, hreaches.through hwithin⟩

end Collection

end SpecTree
