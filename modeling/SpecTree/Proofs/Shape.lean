import SpecTree.Proofs.Everywhere
import SpecTree.Proofs.Loading
import SpecTree.Proofs.References.Building
import SpecTree.Proofs.References.Variants

/-!
# The shape of components

No component of a tree is ever without anything to fill: a collection has parameters, alternatives
have an open branch, and a conditional has a group for each truth value. This holds of what is built
from well-formed definitions, and no operation changes it. Main statements: `Part.shaped_of_build`,
`Node.lasting_shaped`, `Registry.Loaded.lasting_shaped`.
-/

namespace SpecTree

variable {ν : Type}

/-- A group for true and one for false, which need nothing if they are empty. -/
structure Conditional.Shaped (s : Conditional ν) : Prop where
  type : s.case.type = .primitive (.scalar .bool)
  values : s.branches.map (·.1) = [.bool true, .bool false]
  emptyIsComplete : ∀ g ∈ s.branches, g.2.emptyIsComplete = true

/-- Is there anything to fill in the component? -/
def Component.Shaped : Component ν → Prop
  | .collection c => c.parameters ≠ []
  | .oneOf o => o.committed ≠ []
  | .conditional s => s.Shaped

def Spec.Shaped (s : Spec ν) : Prop := ∀ c ∈ s.components, c.Shaped

/-- The free list starts with an empty collection. -/
def Node.Shaped : Node → Prop
  | spec s => s = .genericList ∨ s.Shaped
  | list _ => True
  | choice c => c.body.Shaped

/-! ## What is built -/

/-- A well-formed part gives a component with something to fill. -/
theorem Part.shaped_of_build {make : String → Except TreeError ν} {part : Part}
    {c : Component ν} (hpart : part.WellFormed) (hc : part.build make = .ok c) : c.Shaped := by
  cases Part.built_of_build hc with
  | parameters hbuilt =>
    have hempty := Declaration.isEmpty_of_buildAll hpart.shaped hbuilt
    exact List.isEmpty_eq_false_iff.1 hempty
  | @oneOf _ built _ hbuilt ho =>
    obtain ⟨hfew, rfl⟩ := OneOf.ofBranches_eq_ok.1 ho
    show List.range built.length ≠ []
    rw [ne_eq, List.range_eq_nil]
    omega
  | @conditional _ _ _ _ yes no _ hcase hyes hno hs =>
    have htype := (Declaration.type_of_build hcase).trans hpart.shaped
    rw [Conditional.ifThenElse_eq yes no htype] at hs
    cases hs
    exact ⟨htype, rfl, by simp⟩

/-- A spec that is built from a well formed definition has its shape. -/
theorem Definition.shaped_of_build {make : String → Except TreeError ν} {d : Definition}
    {s : Spec ν} (hd : d.WellFormed) (hs : d.build make = .ok s) : s.Shaped := by
  intro c hc
  obtain ⟨part, hpart, hbuild⟩ := Definition.exists_part_of_build hs hc
  exact Part.shaped_of_build (hd part hpart) hbuild

/-- A spec that a catalog describes has its shape. -/
theorem Catalog.Describes.shaped {catalog : Catalog} {s : Spec Node} (h : catalog.Describes s)
    (hwf : ∀ name d, catalog.index.find? name = some d → d.WellFormed) : s.Shaped := by
  obtain ⟨name, d, make, hd, hs⟩ := h
  exact Definition.shaped_of_build (hwf name d hd) hs

namespace Spec

variable {s : Spec ν}

theorem shaped_ofName (name : String) : (ofName name : Spec ν).Shaped := List.forall_mem_nil _

theorem Shaped.push (h : s.Shaped) {c : Component ν} (hc : c.Shaped) : (s.push c).Shaped :=
  List.forall_mem_append.2 ⟨h, List.forall_mem_singleton.2 hc⟩

theorem Shaped.merge (h : s.Shaped) {other : Spec ν} (hother : other.Shaped) :
    (s.merge other).Shaped :=
  List.forall_mem_append.2 ⟨h, hother⟩

theorem Shaped.removeParameter (h : s.Shaped) (key : String) : (s.removeParameter key).Shaped :=
  forall_removeParameter (fun _ => List.isEmpty_eq_false_iff.1) h

theorem shaped_alone (p : Parameter ν) :
    (Component.collection (Collection.ofList [p])).Shaped :=
  Parameter.putAll_ne_nil (List.cons_ne_nil p [])

theorem Shaped.insertFixed (h : s.Shaped) (p : Parameter ν) : (s.insertFixed p).Shaped :=
  forall_insertFixed (fun _ _ => Parameter.put_ne_nil _ _) (shaped_alone p) h

/-- A parameter may be added to the list of arbitrary entries. -/
theorem shaped_insertFixed_genericList (p : Parameter ν) :
    (Spec.insertFixed (genericList : Spec ν) p).Shaped :=
  List.forall_mem_singleton.2 (Parameter.put_ne_nil _ _)

end Spec

theorem Choice.shaped_ofField (name field : String) (placement : Placement)
    {others : Option (Spec ν)} (h : ∀ s, others = some s → s.Shaped) :
    (Choice.ofField name field placement others).body.Shaped :=
  Choice.body_ofField name field placement (Spec.shaped_ofName name)
    ((Spec.shaped_ofName name).push (Spec.shaped_alone _))
    fun s hs _ hown => hown.merge ((h s hs).removeParameter _)

/-! ## Writes and edits -/

namespace Conditional

variable {s : Conditional ν}

/-- A group may give way to another one that is complete when it is empty. -/
theorem Shaped.setGroup (h : s.Shaped) {i : Nat} {group : Collection ν}
    (hgroup : group.emptyIsComplete = true) : (s.setGroup i group).Shaped where
  type := h.type
  values := (map_fst_setGroup s i group).trans h.values
  emptyIsComplete g hg := by
    obtain ⟨j, hj⟩ := List.mem_iff_getElem?.1 hg
    rw [Conditional.setGroup, List.getElem?_modify] at hj
    cases hb : s.branches[j]? with
    | none =>
      rw [hb] at hj
      cases hj
    | some b =>
      rw [hb] at hj
      by_cases hij : i = j
      · simp only [if_pos hij] at hj
        cases hj
        exact hgroup
      · simp only [if_neg hij] at hj
        cases hj
        exact h.emptyIsComplete b (List.mem_of_getElem? hb)

theorem Shaped.insert (h : s.Shaped) {i : Nat} {x : Value} {group : Collection ν}
    (hb : s.branches[i]? = some (x, group)) (p : Parameter ν) :
    (s.setGroup i (group.insert p)).Shaped :=
  h.setGroup (h.emptyIsComplete _ (List.mem_of_getElem? hb))

/-- A write to a conditional keeps the shape. -/
theorem Shaped.set (h : s.Shaped) {key : String} {value : Value} {s' : Conditional ν}
    (hset : s.set key value = .ok s') : s'.Shaped := by
  rcases set_cases hset with ⟨-, w, -, rfl⟩ | ⟨i, x, group, group', -, -, hb, -, hgroup, rfl⟩
  · exact ⟨h.type, h.values, h.emptyIsComplete⟩
  · obtain ⟨p, rfl⟩ := Collection.exists_insert_of_set hgroup
    exact h.insert hb p

end Conditional

variable [Judged ν]

namespace Component

variable {S : ν → Prop} {c c' : Component ν} {key : String}

/-- A write to a component keeps the shape. -/
theorem Shaped.set (h : c.Shaped) {value : Value} (hset : Component.set key value c = .ok () c') :
    c'.Shaped := by
  cases written_of_set hset with
  | collection hpart =>
    obtain ⟨p, rfl⟩ := Collection.exists_insert_of_set hpart
    exact Parameter.put_ne_nil _ _
  | oneOf hpart =>
    obtain ⟨next, hplan, rfl⟩ := OneOf.set_eq_ok.1 hpart
    obtain ⟨hnext, hne, -⟩ := OneOf.plan_eq_ok.1 hplan
    exact hnext ▸ hne
  | conditional hpart => exact Conditional.Shaped.set h hpart

/-- Narrowing a component keeps the shape. -/
theorem Shaped.select (h : c.Shaped) (hselect : Component.select key c = .ok () c') :
    c'.Shaped := by
  rcases select_cases hselect with rfl | ⟨o, o', rfl, rfl, hpart⟩
  · exact h
  · obtain ⟨next, hplan, rfl⟩ := OneOf.select_eq_ok.1 hpart
    obtain ⟨hnext, hne, -⟩ := OneOf.plan_eq_ok.1 hplan
    exact hnext ▸ hne

/-- An edit of a sub-spec leaves something to fill in the component, whatever it does. -/
theorem Shaped.within {α : Type} (h : c.Shaped) (hfit : c.Fit S) (key : String)
    (act : Edit ν α) : ((Component.within key act).stateAfter c).Shaped := by
  cases c with
  | collection c =>
    rw [Edit.stateAfter_of_through (within_collection key act c)]
    rcases Collection.within_cases c key with ⟨e, he⟩ | ⟨p, m, -, -, -, hreaches⟩
    · rw [Edit.stateAfter_of_error (he act)]
      exact h
    · rw [Edit.stateAfter_of_through (hreaches act)]
      exact Parameter.put_ne_nil _ _
  | oneOf o =>
    rw [Edit.stateAfter_of_through (within_oneOf key act o)]
    -- a branch stays open, settled or handed out:
    have hsettle : o.settle.committed ≠ [] := by
      rw [OneOf.committed_settle]
      exact OneOf.visible_ne_nil (OneOf.Fit.liveFirst hfit) h
    have hlend : ∀ (i : Nat) (p : Parameter ν), (o.settle.lend key i p).committed ≠ [] := by
      intro i p
      rwa [OneOf.committed_lend]
    rcases OneOf.within_cases o key with
      ⟨e, he⟩ | ⟨i, p, -, -, -, ⟨-, e, he⟩ | ⟨m, -, hreaches⟩⟩
    · rw [Edit.stateAfter_of_error (he act)]
      exact hsettle
    · rw [Edit.stateAfter_of_error (he act)]
      exact hlend i p
    · rw [Edit.stateAfter_of_through (hreaches act)]
      exact hlend i _
  | conditional s =>
    rw [Edit.stateAfter_of_through (within_conditional key act s)]
    rcases Conditional.within_cases s key with
      ⟨e, he⟩ | ⟨i, x, group, p, m, -, -, hb, -, -, -, hreaches⟩
    · rw [Edit.stateAfter_of_error (he act)]
      exact h
    · rw [Edit.stateAfter_of_through (hreaches act)]
      exact Conditional.Shaped.insert h hb _

end Component

namespace Spec

variable {S : ν → Prop} {s s' : Spec ν} {key : String} {value : Value}

theorem Shaped.set (h : s.Shaped) (hset : Spec.set key value s = .ok () s') : s'.Shaped :=
  forall_set h.insertFixed (fun _ _ hc => hc.set) h hset

/-- The free list has no key yet, and so a write adds one. -/
theorem shaped_of_set_genericList (hset : Spec.set key value (genericList : Spec ν) = .ok () s') :
    s'.Shaped := by
  have hcontains : (genericList : Spec ν).contains key = false := rfl
  rcases set_cases (genericList : Spec ν) key value with
    ⟨e, he⟩ | ⟨-, p, -, hok⟩ | ⟨hkey, -⟩
  · rw [he] at hset
    cases hset
  · rw [hok] at hset
    cases hset
    exact shaped_insertFixed_genericList p
  · rw [hcontains] at hkey
    cases hkey

/-- An edit of a sub-spec keeps the shape, whether it succeeds or not. -/
theorem Shaped.within {α : Type} (h : s.Shaped) (hfit : s.Fit S) (key : String)
    (act : Edit ν α) : ((Spec.within key act).stateAfter s).Shaped :=
  forall_within (fun c hc hshaped => hshaped.within (hfit c hc) key act)
    (fun _ _ hc => hc.select) h

end Spec

/-! ## Trees -/

namespace Choice

variable {catalog : Catalog} {c c' : Choice Node} {type : String}

/-- A variant that is put in keeps the shape of the body. -/
theorem shaped_chosen {variant : String} {node : Node} {body : Spec Node} (hbody : body.Shaped)
    (hnode : ∀ s, node = .spec s → s.Shaped) : (c.chosen type variant node body).body.Shaped := by
  rcases chosen_cases c type variant node body with ⟨-, -, heq⟩ | ⟨s, hs, heq⟩ | ⟨k, heq⟩
  · rw [heq]
    exact hbody.insertFixed _
  · rw [heq]
    exact hbody.merge (hnode s hs)
  · rw [heq]
    exact hbody.push (Spec.shaped_alone _)

/-- A chosen type keeps the shape of the body. -/
theorem shaped_setType (hplain : catalog.HasPlainVariants)
    (hdescribed : ∀ s, catalog.Describes s → s.Shaped) (h : c.body.Shaped)
    (hset : setType catalog type c = .ok () c') : c'.body.Shaped := by
  obtain ⟨variant, node, body, hvariant, hwrite, rfl⟩ := setType_eq_ok hset
  obtain ⟨-, hfind, hbuild⟩ := variantFor_eq_ok.1 hvariant
  have hbody : body.Shaped := by
    rcases writeType_cases hwrite with ⟨-, hset⟩ | ⟨-, rfl⟩
    · exact h.set hset
    · exact h
  -- a variant is built from a definition:
  obtain ⟨d, s, make, hd, hs, rfl⟩ :=
    Catalog.exists_of_build_plain (hplain _ _ _ _ hfind).2 hbuild
  apply shaped_chosen hbody
  intro s' hs'
  cases hs'
  exact hdescribed s ⟨variant, d, make, hd, hs⟩

end Choice

namespace Node

/-- There is something to fill in every component, whatever is done to a tree. -/
theorem lasting_shaped {catalog : Catalog} (hplain : catalog.HasPlainVariants)
    (hwf : ∀ name d, catalog.index.find? name = some d → d.WellFormed) :
    Lasting catalog Shaped where
  generic := .inl rfl
  list _ _ := trivial
  spec s hs := .inr (hs.shaped hwf)
  choice name field placement others hothers :=
    Choice.shaped_ofField name field placement fun s hs => (hothers s hs).shaped hwf
  set {n n' key value} _ h hset := by
    cases written_of_set hset with
    | spec hpart =>
      -- the list of arbitrary entries gets its shape with the first one:
      rcases h with rfl | h
      · exact .inr (Spec.shaped_of_set_genericList hpart)
      · exact .inr (Spec.Shaped.set h hpart)
    | list => trivial
    | type _ hpart => exact Choice.shaped_setType hplain (fun _ hs => hs.shaped hwf) h hpart
    | @body c _ _ hpart => exact Spec.Shaped.set (s := c.body) h hpart
  append {n n' name} _ happend := by
    obtain ⟨l, l', rfl, rfl, -⟩ := appendEmpty_eq_ok happend
    trivial
  within {n key α} act hsound h := by
    cases n with
    | spec s =>
      rw [Edit.stateAfter_of_through (within_spec key act s)]
      -- and hands out nothing as long as it is empty:
      rcases h with rfl | h
      · rw [Edit.stateAfter_of_error (Spec.within_of_not_contains rfl act)]
        exact .inl rfl
      · exact .inr (Spec.Shaped.within h hsound.fit key act)
    | list l =>
      rw [Edit.stateAfter_of_through (within_list key act l)]
      trivial
    | choice c =>
      rw [Edit.stateAfter_of_through (within_choice key act c)]
      exact Spec.Shaped.within (s := c.body) h hsound.fit key act

end Node

/-- In a registry that came about by loading there is something to fill in every component of every
tree. -/
theorem Registry.Loaded.lasting_shaped {r : Registry} (h : r.Loaded) :
    Node.Lasting r.catalog Node.Shaped := by
  rcases h.wasRead.catalog with hempty | ⟨index, hread, hindex⟩
  · rw [hempty]
    exact Node.lasting_shaped Catalog.hasPlainVariants_empty fun name d hd => by cases hd
  · rw [hindex]
    exact Node.lasting_shaped index.hasPlainVariants_catalog fun name d hd =>
      Index.wellFormed_expanded (fun d hd => (hread d hd).wellFormed) hd

end SpecTree
