import SpecTree.Proofs.Everywhere
import SpecTree.Proofs.OneOf.Indistinct
import SpecTree.Proofs.References.Building
import SpecTree.Proofs.Sharing

/-!
# Open branches in order

The branches that alternatives leave open are in increasing order in everything that is built, and
no operation changes that. Main statement: `Node.lasting_ordered`.
-/

namespace SpecTree

variable {ν : Type}

/-- Are the open branches in order, if the component has any? -/
def Component.Ordered : Component ν → Prop
  | .collection _ => True
  | .oneOf o => o.Ordered
  | .conditional _ => True

def Spec.Ordered (s : Spec ν) : Prop := ∀ c ∈ s.components, c.Ordered

def Node.Ordered (n : Node) : Prop := ∀ c ∈ n.components, c.Ordered

/-! ## What is built -/

/-- In what is built all branches are open, in their order. -/
theorem Part.ordered_of_build {make : String → Except TreeError ν} {part : Part}
    {c : Component ν} (hc : part.build make = .ok c) : c.Ordered := by
  cases Part.built_of_build hc with
  | parameters => trivial
  | conditional => trivial
  | oneOf _ ho =>
    obtain ⟨-, rfl⟩ := OneOf.ofBranches_eq_ok.1 ho
    exact OneOf.ordered_of_active_eq_none rfl

namespace Spec

variable {s : Spec ν}

theorem ordered_genericList : (genericList : Spec ν).Ordered := List.forall_mem_singleton.2 trivial

theorem ordered_ofName (name : String) : (ofName name : Spec ν).Ordered := List.forall_mem_nil _

theorem Ordered.push (h : s.Ordered) {c : Component ν} (hc : c.Ordered) : (s.push c).Ordered :=
  List.forall_mem_append.2 ⟨h, List.forall_mem_singleton.2 hc⟩

theorem Ordered.merge (h : s.Ordered) {other : Spec ν} (hother : other.Ordered) :
    (s.merge other).Ordered :=
  List.forall_mem_append.2 ⟨h, hother⟩

theorem Ordered.removeParameter (h : s.Ordered) (key : String) :
    (s.removeParameter key).Ordered :=
  forall_removeParameter (fun _ _ => trivial) h

theorem Ordered.insertFixed (h : s.Ordered) (p : Parameter ν) : (s.insertFixed p).Ordered :=
  forall_insertFixed (fun _ _ => trivial) trivial h

end Spec

/-- A spec that a catalog describes has its branches in order. -/
theorem Catalog.Describes.ordered {catalog : Catalog} {s : Spec Node}
    (h : catalog.Describes s) : s.Ordered := by
  obtain ⟨name, d, make, -, hs⟩ := h
  intro c hc
  obtain ⟨part, -, hbuild⟩ := Definition.exists_part_of_build hs hc
  exact Part.ordered_of_build hbuild

/-- A spec that is built is the free list or follows a definition. -/
theorem Catalog.spec_of_build {catalog : Catalog} {name : String} {s : Spec Node}
    (h : catalog.build name = .ok (.spec s)) : s = .genericList ∨ catalog.Describes s := by
  unfold build buildBelow at h
  split at h
  · cases h
    exact .inl rfl
  · split at h
    · cases h
    · split at h <;> cases h
  · split at h
    · next d hd =>
      split at h
      · cases h
      · obtain ⟨s', hs', h⟩ := bind_eq_ok.1 h
        split at h
        · cases h
        · cases h
          exact .inr ⟨name, d, _, hd, hs'⟩
    · split at h <;> cases h

/-! ## Writes and edits -/

variable [Judged ν] {key : String} {value : Value}

namespace Component

variable {c c' : Component ν}

/-- A write to a component keeps its branches in order. -/
theorem Ordered.set (h : c.Ordered) (hset : Component.set key value c = .ok () c') :
    c'.Ordered := by
  cases written_of_set hset with
  | collection => trivial
  | conditional => trivial
  | oneOf hpart =>
    obtain ⟨next, hplan, rfl⟩ := OneOf.set_eq_ok.1 hpart
    exact OneOf.Ordered.set h hplan

/-- Narrowing a component keeps its branches in order. -/
theorem Ordered.select (h : c.Ordered) (hselect : Component.select key c = .ok () c') :
    c'.Ordered := by
  rcases select_cases hselect with rfl | ⟨o, o', rfl, rfl, hpart⟩
  · exact h
  · obtain ⟨next, hplan, rfl⟩ := OneOf.select_eq_ok.1 hpart
    exact OneOf.Ordered.select h hplan

/-- An edit of a sub-spec keeps the branches in order, whether it succeeds or not. -/
theorem Ordered.within {α : Type} (h : c.Ordered) (key : String) (act : Edit ν α) :
    ((Component.within key act).stateAfter c).Ordered := by
  cases c with
  | collection c =>
    rw [Edit.stateAfter_of_through (within_collection key act c)]
    trivial
  | conditional s =>
    rw [Edit.stateAfter_of_through (within_conditional key act s)]
    trivial
  | oneOf o =>
    rw [Edit.stateAfter_of_through (within_oneOf key act o)]
    have hsettle : o.settle.Ordered := OneOf.Ordered.settle h
    rcases OneOf.within_cases o key with
      ⟨e, he⟩ | ⟨i, p, -, -, -, ⟨-, e, he⟩ | ⟨m, -, hreaches⟩⟩
    · rw [Edit.stateAfter_of_error (he act)]
      exact hsettle
    · rw [Edit.stateAfter_of_error (he act)]
      exact hsettle.lend key i p
    · rw [Edit.stateAfter_of_through (hreaches act)]
      exact hsettle.lend key i _

end Component

namespace Spec

variable {s s' : Spec ν}

theorem Ordered.set (h : s.Ordered) (hset : Spec.set key value s = .ok () s') : s'.Ordered :=
  forall_set h.insertFixed (fun _ _ hc => hc.set) h hset

theorem Ordered.within {α : Type} (h : s.Ordered) (key : String) (act : Edit ν α) :
    ((Spec.within key act).stateAfter s).Ordered :=
  forall_within (fun _ _ hc => hc.within key act) (fun _ _ hc => hc.select) h

end Spec

/-! ## Trees -/

namespace Choice

omit [Judged ν] in
theorem ordered_ofField (name field : String) (placement : Placement)
    {others : Option (Spec ν)} (h : ∀ s, others = some s → s.Ordered) :
    (Choice.ofField name field placement others).body.Ordered :=
  body_ofField name field placement (Spec.ordered_ofName name)
    ((Spec.ordered_ofName name).push trivial)
    fun s hs _ hown => hown.merge ((h s hs).removeParameter _)

/-- A chosen type keeps the branches of the body in order. -/
theorem ordered_setType {catalog : Catalog} {type : String} {c c' : Choice Node}
    (h : c.body.Ordered) (hset : setType catalog type c = .ok () c') : c'.body.Ordered := by
  obtain ⟨variant, node, body, hvariant, hwrite, rfl⟩ := setType_eq_ok hset
  have hbody : body.Ordered := by
    rcases writeType_cases hwrite with ⟨-, hset⟩ | ⟨-, rfl⟩
    · exact h.set hset
    · exact h
  rcases chosen_cases c type variant node body with ⟨-, -, heq⟩ | ⟨s, rfl, heq⟩ | ⟨k, heq⟩
  · rw [heq]
    exact hbody.insertFixed _
  · rw [heq]
    refine hbody.merge ?_
    -- the components of the variant are freshly built, and no branch of them is closed yet
    rcases Catalog.spec_of_build (variantFor_eq_ok.1 hvariant).2.2 with rfl | hs
    · exact Spec.ordered_genericList
    · exact hs.ordered
  · rw [heq]
    exact hbody.push trivial

end Choice

namespace Node

/-- The open branches of all alternatives stay in order, whatever is done to a tree. -/
theorem lasting_ordered (catalog : Catalog) : Lasting catalog Ordered where
  generic := Spec.ordered_genericList
  list _ _ := List.forall_mem_nil _
  spec _ hs := hs.ordered
  choice name field placement others hothers :=
    Choice.ordered_ofField name field placement fun s hs => (hothers s hs).ordered
  set _ h hset := by
    cases written_of_set hset with
    | spec hpart => exact Spec.Ordered.set h hpart
    | list => exact List.forall_mem_nil _
    | type _ hpart => exact Choice.ordered_setType h hpart
    | @body c _ _ hpart => exact Spec.Ordered.set (s := c.body) h hpart
  append _ happend := by
    obtain ⟨l, l', rfl, rfl, -⟩ := appendEmpty_eq_ok happend
    exact List.forall_mem_nil _
  within {n key α} act _ h := by
    cases n with
    | spec s =>
      rw [Edit.stateAfter_of_through (within_spec key act s)]
      exact Spec.Ordered.within h key act
    | list l =>
      rw [Edit.stateAfter_of_through (within_list key act l)]
      exact List.forall_mem_nil _
    | choice c =>
      rw [Edit.stateAfter_of_through (within_choice key act c)]
      exact Spec.Ordered.within (s := c.body) h key act

end Node

end SpecTree
