import SpecTree.Proofs.Sound.Collection

/-!
# What a change keeps

The laws of all parts of a tree in one form. A `View` is how a part is looked at; `View.Kept` says
what a change of it keeps, and `View.HandsOut` what it means that a sub-spec is handed out and that
what becomes of it is put back. Both carry over to a whole that shows what its part shows
(`View.Embeds`).
-/

namespace SpecTree

/-- How a part of a tree is looked at. -/
structure View (σ ν : Type) where
  parameter? : σ → String → Option (Parameter ν)
  hasValue : σ → Bool
  Fit : σ → Prop

namespace View

variable {σ τ ν : Type} [Judged ν]

/-- What a change keeps: the part is fit, it holds a value if it did, and where that is `allowed`
it goes on showing what it showed. -/
structure Kept (V : View σ ν) (S : ν → Prop) (allowed : (Parameter ν → Prop) → String → Prop)
    (s s' : σ) : Prop where
  fit : V.Fit s'
  hasValue : V.hasValue s = true → V.hasValue s' = true
  keeps : ∀ Q, Parameter.Persistent S Q → ∀ k, allowed Q k →
    Parameter.Keeps Q (V.parameter? s k) (V.parameter? s' k)

/-- A sub-spec is shown under a key and can be handed out, and what becomes of it is shown. If that
is good and has not lost its value, nothing else is lost either. -/
structure HandsOut (V : View σ ν) (S : ν → Prop) (key : String) (s : σ) (p : Parameter ν) (m : ν)
    (put : ν → σ) : Prop where
  shown : V.parameter? s key = some p
  isPrimitive : p.isPrimitive = false
  node : p.node = some m
  put_shown : ∀ m', V.parameter? (put m') key = some { p with node := some m' }
  kept : ∀ m', S m' → (Judged.hasValue m = true → Judged.hasValue m' = true) →
    V.Kept S (fun Q k => key = k → Q p → Q { p with node := some m' }) s (put m')

/-- A whole that shows what its part shows. -/
structure Embeds (V : View σ ν) (W : View τ ν) (wrap : σ → τ) : Prop where
  parameter? : ∀ s k, W.parameter? (wrap s) k = V.parameter? s k
  hasValue : ∀ s s', (V.hasValue s = true → V.hasValue s' = true) →
    W.hasValue (wrap s) = true → W.hasValue (wrap s') = true
  fit : ∀ s, V.Fit s → W.Fit (wrap s)

variable {V : View σ ν} {W : View τ ν} {S : ν → Prop}
  {allowed allowed' : (Parameter ν → Prop) → String → Prop} {s s' : σ} {wrap : σ → τ}

theorem Kept.refl (h : V.Fit s) : V.Kept S allowed s s :=
  ⟨h, id, fun Q _ _ _ => .refl Q _⟩

/-- What is kept under some keys is kept under fewer of them. -/
theorem Kept.imp (h : V.Kept S allowed s s') (himp : ∀ Q k, allowed' Q k → allowed Q k) :
    V.Kept S allowed' s s' :=
  ⟨h.fit, h.hasValue, fun Q hQ k hk => h.keeps Q hQ k (himp Q k hk)⟩

/-- What is kept of a part is kept of the whole. -/
theorem Kept.embed (he : Embeds V W wrap) (h : V.Kept S allowed s s') :
    W.Kept S allowed (wrap s) (wrap s') where
  fit := he.fit s' h.fit
  hasValue := he.hasValue s s' h.hasValue
  keeps Q hQ k hk := by
    rw [he.parameter?, he.parameter?]
    exact h.keeps Q hQ k hk

/-- What a part hands out is handed out by the whole. -/
theorem HandsOut.embed {key : String} {p : Parameter ν} {m : ν} {put : ν → σ}
    (he : Embeds V W wrap) (h : V.HandsOut S key s p m put) :
    W.HandsOut S key (wrap s) p m fun m => wrap (put m) where
  shown := (he.parameter? s key).trans h.shown
  isPrimitive := h.isPrimitive
  node := h.node
  put_shown m' := (he.parameter? (put m') key).trans (h.put_shown m')
  kept m' hm' hmono := (h.kept m' hm' hmono).embed he

end View

/-! ## The parts of a tree -/

section Views

variable {ν : Type} [Judged ν] (S : ν → Prop)

def Collection.view : View (Collection ν) ν :=
  ⟨fun c k => c.parameter? k, fun c => c.hasValue, Collection.Fit S⟩

def OneOf.view : View (OneOf ν) ν :=
  ⟨fun o k => o.parameter? k, fun o => o.hasValue, OneOf.Fit S⟩

def Conditional.view : View (Conditional ν) ν :=
  ⟨fun s k => s.parameter? k, fun s => s.hasValue, Conditional.Fit S⟩

def Component.view : View (Component ν) ν :=
  ⟨fun c k => c.parameter? k, fun c => c.hasValue, Component.Fit S⟩

/-- Of several components the first that shows a key counts. -/
def Component.listView : View (List (Component ν)) ν :=
  ⟨fun cs k => cs.findSome? fun c => c.parameter? k, fun cs => cs.any Component.hasValue,
    fun cs => ∀ c ∈ cs, c.Fit S⟩

def Spec.view : View (Spec ν) ν :=
  ⟨fun s k => s.parameter? k, fun s => s.hasValue, Spec.Fit S⟩

def EntryList.view : View (EntryList ν) ν :=
  ⟨fun l k => l.parameter? k, fun l => l.hasValue, EntryList.Fit S⟩

def Node.view : View Node Node :=
  ⟨fun n k => n.parameter? k, fun n => Judged.hasValue n, Node.Sound⟩

end Views

end SpecTree
