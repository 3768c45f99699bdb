import SpecTree.Expansion
import SpecTree.Proofs.Coercion
import SpecTree.Proofs.Scan.Steps

/-!
# Well-formed definitions

What can be relied on in a definition that was read from comments: no group of parameters is
empty where that would not make sense, a condition is a truth value, and a default is of the
type that is declared. Main statements: `Definition.WasRead.wellFormed`, and
`Definition.WellFormed.withSuffixes`, a definition stays well-formed when keys get suffixes.
-/

namespace SpecTree

/-- A default is of the declared type. -/
def Declaration.WellTyped (d : Declaration) : Prop :=
  ∀ v, d.default = some v → d.type = .primitive v.type

namespace Part

/-- Has the part as many parameters and groups as it needs, and of the right type? -/
def Shaped : Part → Prop
  | parameters ds => ds ≠ []
  | oneOf branches => 2 ≤ branches.length ∧ [] ∉ branches
  | conditional condition _ _ => condition.type = .primitive (.scalar .bool)

structure WellFormed (part : Part) : Prop where
  shaped : part.Shaped
  wellTyped : ∀ d ∈ part.declarations, d.WellTyped

end Part

namespace Definition

def WellFormed (d : Definition) : Prop := ∀ part ∈ d.parts, part.WellFormed

/-- Is it a definition of some source file? -/
def WasRead (d : Definition) : Prop :=
  ∃ file stem lines ds, readLines file stem lines = .ok ds ∧ d ∈ ds

end Definition

/-! ## Declarations -/

/-- The default of a declaration that was read is of its type. -/
theorem Declaration.wellTyped_of_read {origin : Origin} {text : String} {p : Declaration}
    (h : Declaration.read origin text = .ok (.parameter p)) : p.WellTyped := by
  obtain ⟨-, given, hdefault⟩ := Declaration.parameter_of_read h
  intro v hv
  unfold readDefault at hdefault
  split at hdefault
  · rw [← Except.ok.inj hdefault] at hv
    cases hv
  · split at hdefault
    · cases hdefault
    · next htype =>
      split at hdefault
      · next value hparse =>
        rw [← Except.ok.inj hdefault] at hv
        cases hv
        rw [htype, Value.type_of_parse hparse]
      · cases hdefault

theorem Scope.wellTyped_keyParameter (file : String) (item : Item) (line : Nat) :
    (keyParameter file item line).WellTyped := by
  intro v hv
  obtain ⟨s, -, rfl⟩ := Option.map_eq_some_iff.1 (show item.default.map Value.string = some v from hv)
  rfl

/-- The default of a suffix is of its type. -/
theorem Declaration.wellTyped_suffixParameter (d : Declaration) (name : String) :
    (d.suffixParameter name).WellTyped := by
  intro v hv
  obtain ⟨s, -, rfl⟩ := Option.map_eq_some_iff.1
    (show (d.default.bind Value.asString?).map _ = some v from hv)
  rfl

open Token (marks)

/-! ## What is read -/

namespace Scope

variable {file : String}

/-- What is declared between marks is well typed. -/
theorem wellTyped_of_mem_declared (file : String) (ts : List Token) {d : Declaration}
    (h : d ∈ Mark.declared (marks file ts)) : d.WellTyped := by
  obtain ⟨m, hm, hd⟩ := List.mem_flatMap.1 h
  obtain ⟨t, -, ht⟩ := List.mem_filterMap.1 hm
  unfold Mark.parameters at hd
  split at hd
  · next p =>
    have hp : d = p := by
      unfold Declaration.visible at hd
      split at hd <;> simp_all
    subst hp
    unfold Token.mark? at ht
    split at ht <;> simp at ht
    exact Declaration.wellTyped_of_read ht
  · cases hd

/-- Is everything that a scope has said so far well-formed? -/
structure WellFormed (s : Scope) : Prop where
  blocks : ∀ part ∈ s.blocks, part.WellFormed
  parameters : ∀ p ∈ s.parameters, p.WellTyped

theorem wellFormed_empty : empty.WellFormed := ⟨List.forall_mem_nil _, List.forall_mem_nil _⟩

/-- A well formed part may be added to a scope. -/
theorem WellFormed.addPart {s : Scope} (h : s.WellFormed) {part : Part} (hpart : part.WellFormed) :
    WellFormed { s with blocks := s.blocks ++ [part] } :=
  ⟨List.forall_mem_append.2 ⟨h.blocks, List.forall_mem_singleton.2 hpart⟩, h.parameters⟩

/-- The items of a list are added as well formed parameters. -/
theorem WellFormed.addItems {s : Scope} (h : s.WellFormed) (k : Keyword)
    (items : List (Item × Nat)) : (s.addItems file k items).WellFormed := by
  unfold Scope.addItems
  split
  · exact ⟨h.blocks, h.parameters⟩
  · exact ⟨h.blocks, h.parameters⟩
  · exact ⟨h.blocks, h.parameters⟩
  · refine ⟨h.blocks, List.forall_mem_append.2 ⟨h.parameters, ?_⟩⟩
    intro p hp
    obtain ⟨⟨item, line⟩, -, rfl⟩ := List.mem_map.1 hp
    exact wellTyped_keyParameter file item line

/-- One step of the reading leaves a scope well formed. -/
theorem WellFormed.step {after body : List Token} {s s' : Scope} (hs : s.WellFormed)
    (h : Step file after body s s') : s'.WellFormed := by
  cases h with
  | skip | item => exact hs
  | inclusion => exact ⟨hs.blocks, hs.parameters⟩
  | @parameter t _ d mark =>
    refine ⟨hs.blocks, List.forall_mem_append.2 ⟨hs.parameters, ?_⟩⟩
    intro p hp
    have hdeclared : p ∈ Mark.declared (marks file [t]) := by
      simpa [marks, mark, Mark.parameters] using hp
    exact wellTyped_of_mem_declared file [t] hdeclared
  | @oneOf body _ branches block =>
    -- a choice was read with two branches at least, none of them empty:
    have htwo : 2 ≤ (branches.map Mark.declared).length := by
      rw [List.length_map]
      exact block.two
    have hfull : [] ∉ branches.map Mark.declared := by
      intro hmem
      obtain ⟨b, hb, hempty⟩ := List.mem_map.1 hmem
      exact block.full b hb hempty
    refine hs.addPart ⟨⟨htwo, hfull⟩, ?_⟩
    intro d hd
    apply wellTyped_of_mem_declared file body
    rw [block.declared_eq]
    exact hd
  | conditional block =>
    refine hs.addPart ⟨block.bool, ?_⟩
    intro d hd
    apply wellTyped_of_mem_declared file body
    rw [block.declared_eq]
    exact hd
  | list => exact hs.addItems _ _

/-- A scope that was read is well formed. -/
theorem WellFormed.reads {rest body : List Token} {s final : Scope} (hs : s.WellFormed)
    (h : Reads file rest body s final) : final.WellFormed := by
  induction h with
  | done => exact hs
  | step first _ ih => exact ih (hs.step first)

/-- A well formed scope makes well formed definitions. -/
theorem WellFormed.definitions {s : Scope} (hs : s.WellFormed) (name : String) (origin : Origin) :
    ∀ d ∈ s.definitions name origin, d.WellFormed := by
  have hdefinition : (s.toDefinition name origin).WellFormed := by
    refine List.forall_mem_append.2 ⟨hs.blocks, ?_⟩
    split
    · exact List.forall_mem_nil _
    · next hne => exact List.forall_mem_singleton.2 ⟨hne, hs.parameters⟩
  intro d hd
  simp only [Scope.definitions] at hd
  split at hd
  · cases hd
  · rw [List.mem_singleton.1 hd]
    exact hdefinition

/-- The definitions of a file are well formed. -/
theorem wellFormed_of_headed {ts : List Token} {ds : List Definition} (h : Headed file ts ds) :
    ∀ d ∈ ds, d.WellFormed := by
  induction h with
  | nil => exact List.forall_mem_nil _
  | cons _ reads _ ih =>
    exact List.forall_mem_append.2 ⟨(wellFormed_empty.reads reads).definitions _ _, ih⟩

end Scope

namespace Definition

/-- **A definition that was read is well-formed.** -/
theorem WasRead.wellFormed {d : Definition} (h : d.WasRead) : d.WellFormed := by
  obtain ⟨file, stem, lines, ds, hread, hd⟩ := h
  obtain ⟨lead, body, rest, scope, later, line, -, -, -, hreads, hheaded, rfl⟩ :=
    Scope.file_of_readLines hread
  exact List.forall_mem_append.2 ⟨(Scope.wellFormed_empty.reads hreads).definitions _ _,
    Scope.wellFormed_of_headed hheaded⟩ d hd

/-! ## Suffixes for keys -/

/-- A definition stays well-formed when keys get suffixes. -/
theorem WellFormed.withSuffixes {d : Definition} (h : d.WellFormed) : d.withSuffixes.WellFormed := by
  intro part hpart
  rcases cases_of_mem_withSuffixes hpart with
    hpart | ⟨ds, kept, hds, rfl, hne, hkept⟩ | ⟨ds, key, name, hds, hkey, rfl⟩
  · exact h part hpart
  · have htyped : ∀ p ∈ kept, p.WellTyped := fun p hp => (h _ hds).wellTyped p (hkept p hp)
    exact ⟨hne, htyped⟩
  · have hkeyTyped : key.WellTyped := (h _ hds).wellTyped key hkey
    refine ⟨⟨Nat.le_refl 2, by simp⟩, ?_⟩
    intro p hp
    have hp : p = key ∨ p = key.suffixParameter name := by simpa [Part.declarations] using hp
    rcases hp with rfl | rfl
    · exact hkeyTyped
    · exact key.wellTyped_suffixParameter name

end Definition

end SpecTree
