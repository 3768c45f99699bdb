import SpecTree.Proofs.Loading
import SpecTree.Proofs.References.Expansion

/-!
# Expansion is a closure

An expansion skips the includes that are on its path, and not those that it has been to before. It
loses nothing by that, as whatever can be reached can be reached without coming back to a name, and
it comes to an end, as there are only so many names. Main statements:

* `Index.mem_inclusions_iff`: an expansion takes in what is included, directly or not;
* `Index.wellFounded_continues`: no path of includes goes on for ever;
* `Index.closure_of_find?`: what an expanded definition says.
-/

namespace SpecTree

/-- Who comes back to the start could have started from there. -/
theorem reflTransGen_avoiding {α : Type} {r : α → α → Prop} {a b : α}
    (h : Relation.ReflTransGen r a b) : Relation.ReflTransGen (fun x y => r x y ∧ y ≠ a) a b := by
  induction h with
  | refl => exact .refl
  | @tail b c _ hstep ih =>
    by_cases hc : c = a
    · rw [hc]
    · exact ih.tail ⟨hstep, hc⟩

namespace Index

variable {index : Index} {name : String} {d e : Definition}

/-! ## Paths -/

instance (index : Index) (a b : String) : Decidable (index.Includes a b) :=
  decidable_of_iff ((index.find? a).any (b ∈ ·.includes) && index.contains b) <| by
    rw [Bool.and_eq_true, Option.any_eq_true]
    unfold Includes
    simp only [decide_eq_true_eq, ← and_assoc, exists_and_right]

/-- Does an expansion go on from the end of the first path to that of the second? -/
def Continues (index : Index) (path next : List String) : Prop :=
  ∃ a b, path.getLast? = some a ∧ index.Includes a b ∧ b ∉ path ∧ next = path ++ [b]

/-- No path goes on for ever, as each step leaves fewer names to go to. -/
theorem wellFounded_continues (index : Index) :
    WellFounded fun next path => index.Continues path next := by
  refine Subrelation.wf ?_ (measure (remaining index.names)).wf
  rintro next path ⟨a, b, -, ⟨d, -, -, hb⟩, hnew, rfl⟩
  exact remaining_append_lt (contains_iff_mem_names.1 hb) hnew

/-- Whatever can be reached without a name on the path is taken in. -/
theorem mem_inclusions_of_avoiding {path : List String} {b : String}
    (hd : index.find? name = some d)
    (hreach : Relation.ReflTransGen (fun x y => index.Includes x y ∧ y ∉ path) name b)
    (he : index.find? b = some e) : e ∈ d :: index.inclusions path d := by
  induction hn : remaining index.names path using Nat.strongRecOn generalizing path name d with
  | _ n ih =>
  rcases hreach.cases_head with rfl | ⟨c, ⟨⟨d', hd', hc, hregistered⟩, hnew⟩, hrest⟩
  · obtain rfl : d = e := Option.some.inj (hd.symm.trans he)
    exact List.mem_cons_self
  · obtain rfl : d = d' := Option.some.inj (hd.symm.trans hd')
    obtain ⟨included, hincluded⟩ := Option.isSome_iff_exists.1 hregistered
    have hshort := remaining_append_lt (name_of_find? hincluded).2 hnew
    -- the walk goes on from its last visit to the include:
    have hlast : Relation.ReflTransGen (fun x y => index.Includes x y ∧ y ∉ path ++ [c]) c b := by
      refine Relation.ReflTransGen.mono ?_ _ _ (reflTransGen_avoiding hrest)
      rintro x y ⟨⟨hstep, hy⟩, hne⟩
      rw [List.mem_append, List.mem_singleton, not_or]
      exact ⟨hstep, hy, hne⟩
    refine List.mem_cons_of_mem _ ?_
    rw [inclusions_eq]
    refine List.mem_flatMap.2 ⟨c, hc, ?_⟩
    rw [broughtBy_of_find? hnew hincluded]
    exact ih _ (hn ▸ hshort) hincluded hlast rfl

/-- **The expansion of a name takes in what is included, directly or not.** -/
theorem mem_inclusions_iff (hd : index.find? name = some d) :
    e ∈ d :: index.inclusions [name] d ↔ index.Comprises name e := by
  constructor
  · exact comprises_of_mem_inclusions hd
  · rintro ⟨b, hreach, he⟩
    refine mem_inclusions_of_avoiding hd ?_ he
    refine Relation.ReflTransGen.mono ?_ _ _ (reflTransGen_avoiding hreach)
    rintro x y ⟨hstep, hne⟩
    exact ⟨hstep, fun hy => hne (List.mem_singleton.1 hy)⟩

/-! ## The entries of a catalog -/

/-- The entry of a name, put together from the definitions that it comprises. -/
theorem find?_catalog (hd : index.find? name = some d) :
    index.catalog.find? name = some
      (((index.inclusions [name] d).map (·.withSuffixes)).foldl Definition.absorb
        d.withSuffixes) := by
  show index.expanded.find? name = _
  rw [find?_expanded, hd, Option.map_some, (name_of_find? hd).1, expand_eq_foldl,
    inclusions_withSuffixes]

/-- **An expansion comes to an end, and what it gives is a closure**: a part is one of the expanded
definition exactly if it is one of a definition that is registered under the name or included there,
directly or not, with suffixes for its keys; the definition's own parts come first. The same holds of
its evaluators, keys and dependencies, while it includes what it included before. -/
theorem closure_of_find? (index : Index) :
    (WellFounded fun next path => index.Continues path next) ∧
      ∀ name d, index.find? name = some d → ∃ e, index.catalog.find? name = some e ∧
        (∀ part, part ∈ e.parts ↔ ∃ v, index.Comprises name v ∧ part ∈ v.withSuffixes.parts) ∧
        d.withSuffixes.parts <+: e.parts ∧
        (∀ s, s ∈ e.evaluators ↔ ∃ v, index.Comprises name v ∧ s ∈ v.evaluators) ∧
        (∀ s, s ∈ e.keys ↔ ∃ v, index.Comprises name v ∧ s ∈ v.keys) ∧
        (∀ s, s ∈ e.dependencies ↔ ∃ v, index.Comprises name v ∧ s ∈ v.dependencies) ∧
        e.includes = d.includes := by
  refine ⟨wellFounded_continues index, fun name d hd => ⟨_, find?_catalog hd, ?_⟩⟩
  -- a list of names is that of all definitions that are taken in:
  have hlist : ∀ {field : Definition → List String},
      (∀ d e, field (d.absorb e) = Definition.union (field d) (field e)) →
      (∀ v : Definition, field v.withSuffixes = field v) →
      ∀ s, s ∈ field (((index.inclusions [name] d).map (·.withSuffixes)).foldl Definition.absorb
        d.withSuffixes) ↔ ∃ v, index.Comprises name v ∧ s ∈ field v := by
    intro field habsorb hsuffixes s
    rw [Definition.mem_foldl_absorb habsorb, ← List.map_cons]
    simp only [List.mem_map, exists_exists_and_eq_and, hsuffixes, mem_inclusions_iff hd]
  refine ⟨fun part => ?_, ?_, hlist (fun _ _ => rfl) fun _ => rfl, hlist (fun _ _ => rfl) fun _ => rfl,
    hlist (fun _ _ => rfl) fun _ => rfl, ?_⟩
  · rw [Definition.parts_foldl_absorb, ← List.map_cons, List.flatMap_map, List.mem_flatMap]
    simp only [mem_inclusions_iff hd]
  · rw [Definition.parts_foldl_absorb, List.flatMap_cons]
    exact List.prefix_append _ _
  · rw [Definition.includes_foldl_absorb]
    rfl

/-- Definitions that include one another in a circle and on two ways, and one that is not there. -/
def exampleRound : Index :=
  (Registry.ofLines ["``[a-spec]``", "* ``[b-spec]``", "* ``[c-spec]``", "* ``[c-spec]``",
    "* ``[missing-spec]``", "", "``[b-spec]``", "* ``[d-spec]``", "", "``[c-spec]``", "* ``[d-spec]``",
    "", "``[d-spec]``", "* ``[a-spec]``", "EVALUATORS", "- `\"flux`\""]).index

theorem closure_of_find?_exampleRound :
    ∃ d e, exampleRound.find? "a-spec" = some d ∧ exampleRound.catalog.find? "a-spec" = some e ∧
      d.evaluators = [] ∧ "flux" ∈ e.evaluators ∧ e.includes = d.includes := by
  obtain ⟨hfirst, hlast, hto, hfrom⟩ :
      (exampleRound.find? "a-spec").any (·.evaluators = []) = true ∧
        (exampleRound.find? "d-spec").any ("flux" ∈ ·.evaluators) = true ∧
        exampleRound.Includes "a-spec" "b-spec" ∧ exampleRound.Includes "b-spec" "d-spec" := by
    decide +kernel
  obtain ⟨d, hd, hnone⟩ := (Option.any_eq_true _ _).1 hfirst
  obtain ⟨v, hv, hflux⟩ := (Option.any_eq_true _ _).1 hlast
  have hreach : Relation.ReflTransGen exampleRound.Includes "a-spec" "d-spec" :=
    .head hto (.single hfrom)
  obtain ⟨-, hclosure⟩ := closure_of_find? exampleRound
  obtain ⟨e, he, -, -, hevaluators, -, -, hincludes⟩ := hclosure "a-spec" d hd
  exact ⟨d, e, hd, he, of_decide_eq_true hnone,
    (hevaluators "flux").2 ⟨v, ⟨"d-spec", hreach, hv⟩, of_decide_eq_true hflux⟩, hincludes⟩

end Index

end SpecTree
