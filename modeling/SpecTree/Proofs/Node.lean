import SpecTree.Proofs.Choice

/-!
# Edits of nodes, kind by kind

Every edit of a node is an edit of the spec, the list or the choice that it is (`set_spec`,
`within_spec` and their relatives). What a write and an append do when they succeed is said once, in
`Node.written_of_set`, `EntryList.append_eq_ok` and `Node.appendEmpty_eq_ok`. The sub-spec of an
entry is edited in its place (`EntryList.within_cases`).
-/

namespace SpecTree

namespace EntryList

variable {ν : Type} {l : EntryList ν} {key : String}

/-- An entry is set if there is one and it takes the value. -/
theorem set_eq_ok {l' : EntryList ν} {value : Value} :
    l.set key value = .ok l' ↔
      ∃ p w, l.parameter? key = some p ∧ p.check value = .ok w ∧
        l' = { l with entries := ({ p with value := some w } : Parameter ν).put l.entries } := by
  unfold set
  constructor
  · intro h
    split at h
    · rename_i p hp
      obtain ⟨p', hset, rfl⟩ := map_eq_ok.1 h
      obtain ⟨w, hw, rfl⟩ := Parameter.set_eq_ok.1 hset
      exact ⟨p, w, hp, hw, rfl⟩
    · cases h
  · rintro ⟨p, w, hp, hw, rfl⟩
    simp only [hp, Parameter.set_eq_ok.2 ⟨w, hw, rfl⟩, Except.map]

theorem contains_eq_false_iff : l.contains key = false ↔ l.parameter? key = none := by
  rw [contains, Option.isSome_eq_false_iff, Option.isNone_iff_eq_none]

/-- A new entry has the name that it was asked for. -/
theorem name_of_newEntry {make : String → Except TreeError ν} {p : Parameter ν}
    (h : l.newEntry make key = .ok p) : p.name = key := by
  unfold newEntry at h
  split at h
  · cases h
    rfl
  · obtain ⟨m, -, rfl⟩ := map_eq_ok.1 h
    rfl

/-- A new entry comes behind the others; there was none of its name. -/
theorem append_eq_ok {l' : EntryList ν} {make : String → Except TreeError ν} :
    append make key l = .ok () l' ↔
      l.parameter? key = none ∧
        ∃ p, l.newEntry make key = .ok p ∧ l' = { l with entries := l.entries ++ [p] } := by
  unfold append
  rw [Edit.replace_eq_ok, contains]
  cases l.parameter? key with
  | some q => simp
  | none =>
    rw [Option.isSome_none, if_neg Bool.false_ne_true, map_eq_ok]
    simp [eq_comm]

/-- The sub-spec of an entry is edited in its place. -/
theorem within_of_parameter? {α : Type} {p : Parameter ν} (h : l.parameter? key = some p)
    (act : Edit ν α) :
    within key act l = Edit.through (fun p => { l with entries := p.put l.entries })
      (Parameter.within act) p := by
  apply Edit.zoom_of_view
  rw [h]

/-- Without an entry of the name there is no sub-spec to be edited. -/
theorem within_of_parameter?_eq_none {α : Type} (h : l.parameter? key = none) (act : Edit ν α) :
    within key act l = .error (.unknownKey key l.typeName) l := by
  apply Edit.zoom_of_view_error
  rw [h]

/-- Either no sub-spec is found under the name, and nothing changes, or it is edited. -/
theorem within_cases (l : EntryList ν) (key : String) :
    Edit.Refuses (within key) l l ∨
      ∃ p m, l.parameter? key = some p ∧ p.isPrimitive = false ∧ p.node = some m ∧
        Edit.Reaches (within key) l m fun m => { l with
          entries := ({ p with node := some m } : Parameter ν).put l.entries } := by
  cases hp : l.parameter? key with
  | none => exact Or.inl ⟨_, within_of_parameter?_eq_none hp⟩
  | some p =>
    have hwithin : ∀ {α : Type} (act : Edit ν α), within key act l = Edit.through
        (fun p => { l with entries := p.put l.entries }) (Parameter.within act) p :=
      within_of_parameter? hp
    rcases Parameter.within_cases p with hrefuses | ⟨m, hprim, hn, hreaches⟩
    · have hput : p.put l.entries = l.entries :=
        Parameter.put_of_find? (Parameter.name_of_find? hp ▸ hp)
      have hsame := hrefuses.through hwithin
      rw [hput] at hsame
      exact Or.inl hsame
    · exact Or.inr ⟨p, m, rfl, hprim, hn, hreaches.through hwithin⟩

end EntryList

namespace Node

variable {α : Type}

/-- An edit of a spec is one of the node that holds it. -/
theorem inSpec_eq (act : Edit (Spec Node) α) (s : Spec Node) :
    inSpec act s = Edit.through .spec act s := by
  unfold inSpec Edit.through
  cases act s <;> rfl

theorem inList_eq (act : Edit (EntryList Node) α) (l : EntryList Node) :
    inList act l = Edit.through .list act l := by
  unfold inList Edit.through
  cases act l <;> rfl

theorem inChoice_eq (act : Edit (Choice Node) α) (c : Choice Node) :
    inChoice act c = Edit.through .choice act c := by
  unfold inChoice Edit.through
  cases act c <;> rfl

theorem set_spec (catalog : Catalog) (key : String) (value : Value) (s : Spec Node) :
    Node.set catalog key value (.spec s) = Edit.through .spec (Spec.set key value) s :=
  inSpec_eq _ _

theorem set_list (catalog : Catalog) (key : String) (value : Value) (l : EntryList Node) :
    Node.set catalog key value (.list l)
      = Edit.through .list (Edit.replace fun l => l.set key value) l :=
  inList_eq _ _

theorem set_choice (catalog : Catalog) (key : String) (value : Value) (c : Choice Node) :
    Node.set catalog key value (.choice c)
      = Edit.through .choice (Choice.set catalog key value) c :=
  inChoice_eq _ _

/-- What a write that succeeds does to a node: to the spec or the list that it is, or to the type or
the body of the choice. -/
inductive Written (catalog : Catalog) (key : String) (value : Value) : Node → Node → Prop
  | spec {s s' : Spec Node} (set : Spec.set key value s = .ok () s') :
      Written catalog key value (.spec s) (.spec s')
  | list {l l' : EntryList Node} (set : l.set key value = .ok l') :
      Written catalog key value (.list l) (.list l')
  | type {c c' : Choice Node} (selector : key = c.selector)
      (set : Choice.setType catalog value.toText c = .ok () c') :
      Written catalog key value (.choice c) (.choice c')
  | body {c : Choice Node} {body : Spec Node} (other : key ≠ c.selector)
      (set : Spec.set key value c.body = .ok () body) :
      Written catalog key value (.choice c) (.choice { c with body })

/-- A write that succeeds is one to a spec, to a list, of a type or to the body of a choice. -/
theorem written_of_set {catalog : Catalog} {key : String} {value : Value} {n n' : Node}
    (h : Node.set catalog key value n = .ok () n') : Written catalog key value n n' := by
  cases n with
  | spec s =>
    rw [set_spec] at h
    obtain ⟨s', hset, rfl⟩ := Edit.through_eq_ok.1 h
    exact .spec hset
  | list l =>
    rw [set_list] at h
    obtain ⟨l', hset, rfl⟩ := Edit.through_eq_ok.1 h
    exact .list (Edit.replace_eq_ok.1 hset)
  | choice c =>
    rw [set_choice] at h
    obtain ⟨c', hset, rfl⟩ := Edit.through_eq_ok.1 h
    by_cases hkey : key = c.selector
    · rw [hkey, Choice.set_selector] at hset
      exact .type hkey hset
    · rw [Choice.set_of_ne_selector hkey] at hset
      obtain ⟨body, hbody, rfl⟩ := Edit.through_eq_ok.1 hset
      exact .body hkey hbody

theorem appendEmpty_list (catalog : Catalog) (name : String) (l : EntryList Node) :
    appendEmpty catalog name (.list l)
      = Edit.through .list (EntryList.append catalog.build name) l :=
  inList_eq _ _

/-- Only lists take entries. -/
theorem appendEmpty_eq_ok {catalog : Catalog} {name : String} {n n' : Node}
    (h : appendEmpty catalog name n = .ok () n') :
    ∃ l l', n = .list l ∧ n' = .list l' ∧ EntryList.append catalog.build name l = .ok () l' := by
  cases n with
  | spec s => cases h
  | choice c => cases h
  | list l =>
    rw [appendEmpty_list] at h
    obtain ⟨l', hpart, rfl⟩ := Edit.through_eq_ok.1 h
    exact ⟨l, l', rfl, rfl, hpart⟩

theorem within_spec (key : String) (act : Edit Node α) (s : Spec Node) :
    within key act (.spec s) = Edit.through .spec (Spec.within key act) s :=
  inSpec_eq _ _

theorem within_list (key : String) (act : Edit Node α) (l : EntryList Node) :
    within key act (.list l) = Edit.through .list (EntryList.within key act) l :=
  inList_eq _ _

theorem within_choice (key : String) (act : Edit Node α) (c : Choice Node) :
    within key act (.choice c)
      = Edit.through (fun body => .choice { c with body }) (Spec.within key act) c.body :=
  (inChoice_eq _ _).trans (Edit.through_through (Choice.inBody_eq _ _))

end Node

end SpecTree
