import SpecTree.Proofs.Coercion
import SpecTree.Proofs.OneOf.Reading
import SpecTree.Tree.Node

/-!
# Sound trees

What holds of every part of a tree that was built from a catalog and then changed by any
operations. A part is fit if it is well-formed itself and its sub-specs fulfil a given
predicate; a tree is sound if it is fit all the way down.

* `Parameter.Fit`: a slot holds what its type says;
* `OneOf.Fit`: branches that are open hold the same (`OneOf.Uniform`), and a sub-spec that was
  handed out lives where a reader looks first (`OneOf.LiveFirst`);
* `Node.Sound`, and `Node.Sound.fit`, which opens it.
-/

namespace SpecTree

/-! ## Parts -/

/-- A slot for a value holds values of its type, and one for a sub-spec holds a sub-spec. -/
structure Parameter.Fit {ν : Type} (S : ν → Prop) (p : Parameter ν) : Prop where
  node_none : p.isPrimitive = true → p.node = none
  node_some : p.isPrimitive = false → ∃ m, p.node = some m ∧ S m
  typed : ∀ v, p.value = some v ∨ p.default = some v → p.type = .primitive v.type
  optional : p.default.isSome → p.isOptional = true

structure Collection.Fit {ν : Type} (S : ν → Prop) (c : Collection ν) : Prop where
  distinct : Parameter.Distinct c.parameters
  parameters : ∀ p ∈ c.parameters, p.Fit S

/-- What one committed branch holds the others hold too: the same sub-spec, or a value, which may
be one of another type. -/
def OneOf.Uniform {ν : Type} [Judged ν] (o : OneOf ν) : Prop :=
  ∀ i ∈ o.committed, ∀ j ∈ o.committed, ∀ k p, o.declared? i k = some p → p.hasValue = true →
    ∃ q, o.declared? j k = some q ∧ q.hasValue = true ∧
      (q = p ∨ p.isPrimitive = true ∧ q.isPrimitive = true)

/-- Open branches agree as soon as the sub-spec that was handed out is copied to them. -/
structure OneOf.Fit {ν : Type} [Judged ν] (S : ν → Prop) (o : OneOf ν) : Prop where
  branches : ∀ b ∈ o.branches, b.Fit S
  liveFirst : o.LiveFirst
  uniform : o.settle.Uniform

structure Conditional.Fit {ν : Type} (S : ν → Prop) (s : Conditional ν) : Prop where
  case : s.case.Fit S
  isPrimitive : s.case.isPrimitive = true
  groups : ∀ g ∈ s.branches, g.2.Fit S

def Component.Fit {ν : Type} [Judged ν] (S : ν → Prop) : Component ν → Prop
  | .collection c => c.Fit S
  | .oneOf o => o.Fit S
  | .conditional s => s.Fit S

def Spec.Fit {ν : Type} [Judged ν] (S : ν → Prop) (s : Spec ν) : Prop :=
  ∀ c ∈ s.components, c.Fit S

structure EntryList.Fit {ν : Type} (S : ν → Prop) (l : EntryList ν) : Prop where
  distinct : Parameter.Distinct l.entries
  entries : ∀ p ∈ l.entries, p.Fit S

def Node.Fit (S : Node → Prop) : Node → Prop
  | .spec s => s.Fit S
  | .list l => l.Fit S
  | .choice c => c.body.Fit S

/-! ## Weaker predicates -/

section Mono

variable {ν : Type} {S T : ν → Prop}

/-- A slot fits for every weaker predicate of sub-specs. -/
theorem Parameter.Fit.mono {p : Parameter ν} (h : p.Fit S) (hST : ∀ m, S m → T m) : p.Fit T where
  node_none := h.node_none
  node_some hprim := by
    obtain ⟨m, hm, hS⟩ := h.node_some hprim
    exact ⟨m, hm, hST m hS⟩
  typed := h.typed
  optional := h.optional

theorem Collection.Fit.mono {c : Collection ν} (h : c.Fit S) (hST : ∀ m, S m → T m) : c.Fit T where
  distinct := h.distinct
  parameters p hp := (h.parameters p hp).mono hST

/-- Alternatives fit for every weaker predicate of sub-specs. -/
theorem OneOf.Fit.mono [Judged ν] {o : OneOf ν} (h : o.Fit S) (hST : ∀ m, S m → T m) : o.Fit T where
  branches b hb := (h.branches b hb).mono hST
  liveFirst := h.liveFirst
  uniform := h.uniform

theorem Conditional.Fit.mono {s : Conditional ν} (h : s.Fit S) (hST : ∀ m, S m → T m) :
    s.Fit T where
  case := h.case.mono hST
  isPrimitive := h.isPrimitive
  groups g hg := (h.groups g hg).mono hST

theorem Component.Fit.mono [Judged ν] {c : Component ν} (h : c.Fit S) (hST : ∀ m, S m → T m) :
    c.Fit T := by
  cases c with
  | collection c => exact Collection.Fit.mono h hST
  | oneOf o => exact OneOf.Fit.mono h hST
  | conditional s => exact Conditional.Fit.mono h hST

/-- A spec fits for every weaker predicate of sub-specs. -/
theorem Spec.Fit.mono [Judged ν] {s : Spec ν} (h : s.Fit S) (hST : ∀ m, S m → T m) : s.Fit T :=
  fun c hc => (h c hc).mono hST

theorem EntryList.Fit.mono {l : EntryList ν} (h : l.Fit S) (hST : ∀ m, S m → T m) : l.Fit T where
  distinct := h.distinct
  entries p hp := (h.entries p hp).mono hST

/-- A node fits for every weaker predicate of sub-specs. -/
theorem Node.Fit.mono {S T : Node → Prop} {n : Node} (h : n.Fit S) (hST : ∀ m, S m → T m) :
    n.Fit T := by
  cases n with
  | spec s => exact Spec.Fit.mono h hST
  | list l => exact EntryList.Fit.mono h hST
  | choice c => exact Spec.Fit.mono h hST

end Mono

/-! ## Trees -/

/-- Fit all the way down. -/
inductive Node.Sound : Node → Prop
  | of (S : Node → Prop) (n : Node) (sub : ∀ m, S m → Sound m) (fit : n.Fit S) : Sound n

/-- A sound tree is fit, and its sub-specs are sound. -/
theorem Node.Sound.fit {n : Node} (h : n.Sound) : n.Fit Node.Sound := by
  cases h with
  | of S n sub fit => exact fit.mono sub

/-- A node whose sub-specs are sound is sound. -/
theorem Node.sound_of_fit {n : Node} (h : n.Fit Node.Sound) : n.Sound :=
  .of Node.Sound n (fun _ hm => hm) h

end SpecTree
