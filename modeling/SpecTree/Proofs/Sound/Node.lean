import SpecTree.Proofs.Node
import SpecTree.Proofs.Sound.Build

/-!
# What operations on nodes keep

Setting a key, appending an entry and handing out a sub-spec keep a tree sound, and keep what it
shows, with two exceptions. A write to a case parameter may hide the parameters of a group
(`writesCase`), and a variant that is chosen may take the place of a parameter
(`coveredKey?`). Main statements:

* `kept_set`, `kept_append`: what a write and a new entry keep;
* `reach_cases`: a sub-spec is refused, or handed out.
-/

namespace SpecTree

/-! ## Lists -/

namespace EntryList

variable {ν : Type} [Judged ν] {S : ν → Prop} {l l' : EntryList ν} {key : String} {value : Value}

/-- The entries, looked at as a collection. -/
def toCollection (l : EntryList ν) : Collection ν := ⟨l.entries, .error, false⟩

omit [Judged ν] in
/-- The entries of a list that fits are a collection that fits. -/
theorem Fit.toCollection (h : l.Fit S) : l.toCollection.Fit S := ⟨h.distinct, h.entries⟩

/-- What is kept of the entries is kept of the list. -/
theorem embeds_entries (l : EntryList ν) :
    View.Embeds (Collection.view S) (view S) fun c => { l with entries := c.parameters } :=
  ⟨fun _ _ => rfl, fun _ _ h => h, fun _ h => ⟨h.distinct, h.parameters⟩⟩

/-- A write to an entry keeps what the list shows. -/
theorem kept_set (h : l.Fit S) (hset : l.set key value = .ok l') :
    (view S).Kept S (fun _ _ => True) l l' := by
  obtain ⟨p, w, hp, hw, rfl⟩ := set_eq_ok.1 hset
  have hcollection : l.toCollection.set key value
      = .ok (l.toCollection.insert { p with value := some w }) :=
    (Collection.set_eq_ok (c := l.toCollection) hp).2 ⟨w, hw, rfl⟩
  have hkept := Collection.kept_set h.toCollection (Collection.contains_iff.2 ⟨p, hp⟩) hcollection
  exact hkept.embed (embeds_entries l)

omit [Judged ν] in
/-- A new entry is of the element type, and fits. -/
theorem fit_of_newEntry {make : String → Except TreeError ν} {p : Parameter ν}
    (hmake : Makes S make) (hp : l.newEntry make key = .ok p) : p.Fit S := by
  unfold newEntry at hp
  split at hp
  · cases hp
    exact Parameter.fit_primitive _ _
  · rename_i s _
    obtain ⟨m, hm, rfl⟩ := map_eq_ok.1 hp
    exact Parameter.fit_derived _ _ (hmake s m hm)

/-- A new entry hides nothing, as there was none of its name. -/
theorem kept_append {make : String → Except TreeError ν} (h : l.Fit S) (hmake : Makes S make)
    (happend : append make key l = .ok () l') :
    (view S).Kept S (fun _ k => l.parameter? k ≠ none) l l' := by
  obtain ⟨hnone, p, hentry, rfl⟩ := append_eq_ok.1 happend
  have hfit := fit_of_newEntry hmake hentry
  refine ⟨⟨Parameter.distinct_concat h.distinct ?_, ?_⟩, ?_, fun Q _ k hk => ?_⟩
  · rw [name_of_newEntry hentry]
    exact hnone
  · intro q hq
    rcases List.mem_append.1 hq with hq | hq
    · exact h.entries q hq
    · rw [List.mem_singleton.1 hq]
      exact hfit
  · show l.entries.any Parameter.hasValue = true → (l.entries ++ [p]).any _ = true
    rw [List.any_append, Bool.or_eq_true]
    exact Or.inl
  · show Parameter.Keeps Q (Parameter.find? l.entries k) (Parameter.find? (l.entries ++ [p]) k)
    obtain ⟨q, hq⟩ := Option.ne_none_iff_exists'.1 hk
    have hfound : Parameter.find? l.entries k = some q := hq
    rw [Parameter.find?_append, hfound, Option.some_or]
    exact .refl Q _

/-- A sub-spec is handed out as by the collection of the entries. -/
theorem reach_cases (h : l.Fit S) (key : String) :
    (∃ l', Edit.Refuses (within key) l l' ∧ (view S).Kept S (fun _ _ => True) l l') ∨
      ∃ p m put, (view S).HandsOut S key l p m put ∧ Edit.Reaches (within key) l m put := by
  rcases within_cases l key with hrefuses | ⟨p, m, hp, hprim, hm, hreaches⟩
  · exact Or.inl ⟨l, hrefuses, .refl h⟩
  · have hout := Collection.handsOut (c := l.toCollection) h.toCollection hp hprim hm
    exact Or.inr ⟨p, m, _, hout.embed (embeds_entries l), hreaches⟩

end EntryList

/-! ## Choices -/

namespace Choice

variable {catalog : Catalog} {c c' : Choice Node} {type variant : String} {node : Node}
  {body : Spec Node}

/-- The key that a variant is put under in place of a parameter that is there. -/
def coveredBy (c : Choice Node) (type : String) (node : Node) : Option String :=
  match c.placement, node with
  | .inline, .spec _ => none
  | .standard, _ | .inline, _ => some (type ++ " parameters")
  | .sublist, _ | .sublistDash, _ => none

/-- Only a variant in a place of its own covers a key. -/
theorem eq_of_coveredBy {k : String} (h : c.coveredBy type node = some k) :
    k = type ++ " parameters" := by
  unfold coveredBy at h
  split at h <;> cases h <;> rfl

/-- The selector is not where the variant goes. -/
theorem selector_ne (field type : String) : type ++ " parameters" ≠ selectorOf field := by
  intro h
  have hlist := congrArg String.toList h
  rw [selectorOf, String.toList_append, String.toList_append] at hlist
  -- the last letters differ:
  have hlast := congrArg List.getLast? hlist
  rw [List.getLast?_append, List.getLast?_append] at hlast
  cases hlast

/-- A variant takes the place of a parameter, or it comes after all that is there. -/
theorem chosen_cases (c : Choice Node) (type variant : String) (node : Node) (body : Spec Node) :
    (c.placement.hasTypeParameter = true ∧ c.coveredBy type node = some (type ++ " parameters") ∧
        (c.chosen type variant node body).body
          = body.insertFixed (Parameter.derived (type ++ " parameters") variant node)) ∨
      (∃ s, node = .spec s ∧ (c.chosen type variant node body).body = body.merge s) ∨
      ∃ k, (c.chosen type variant node body).body
        = body.push (.collection (Collection.ofList [Parameter.derived k variant node])) := by
  obtain ⟨name, field, placement, body', selected⟩ := c
  cases placement with
  | standard => exact Or.inl ⟨rfl, rfl, rfl⟩
  | inline =>
    cases node with
    | spec s => exact Or.inr (Or.inl ⟨s, rfl, rfl⟩)
    | list l => exact Or.inl ⟨rfl, rfl, rfl⟩
    | choice d => exact Or.inl ⟨rfl, rfl, rfl⟩
  | sublist => exact Or.inr (Or.inr ⟨_, rfl⟩)
  | sublistDash => exact Or.inr (Or.inr ⟨_, rfl⟩)

/-- A variant alone in a component fits. -/
theorem fit_alone {S : Node → Prop} (key variant : String) (hnode : S node) : Component.Fit S
    (.collection (Collection.ofList [Parameter.derived key variant node])) := by
  refine Collection.fit_ofList fun p hp => ?_
  rw [List.mem_singleton.1 hp]
  exact Parameter.fit_derived key variant hnode

theorem selected_chosen (c : Choice Node) (type variant : String) (node : Node)
    (body : Spec Node) : (c.chosen type variant node body).selected = some type := rfl

theorem field_chosen (c : Choice Node) (type variant : String) (node : Node) (body : Spec Node) :
    (c.chosen type variant node body).field = c.field := by
  obtain ⟨name, field, placement, body', selected⟩ := c
  cases placement <;> cases node <;> rfl

theorem placement_chosen (c : Choice Node) (type variant : String) (node : Node)
    (body : Spec Node) : (c.chosen type variant node body).placement = c.placement := by
  obtain ⟨name, field, placement, body', selected⟩ := c
  cases placement <;> cases node <;> rfl

/-- A body that fits does so with the variant in it. -/
theorem fit_chosen {S : Node → Prop} (hbody : body.Fit S) (hnode : S node) (hfit : node.Fit S) :
    (c.chosen type variant node body).body.Fit S := by
  rcases chosen_cases c type variant node body with ⟨-, -, heq⟩ | ⟨s, rfl, heq⟩ | ⟨k, heq⟩
  · rw [heq]
    exact Spec.fit_insertFixed hbody (Parameter.fit_derived _ _ hnode)
  · rw [heq]
    exact (Spec.kept_merge hbody hfit).fit
  · rw [heq]
    exact (Spec.kept_push hbody (fit_alone k variant hnode)).fit

/-- A variant that is put in hides at most what it covers. -/
theorem keeps_chosen (variant : String) (hbody : body.Fit Node.Sound) (hnode : node.Sound)
    {Q : Parameter Node → Prop} (hQ : Parameter.Persistent Node.Sound Q) {k : String}
    (hcovered : c.coveredBy type node ≠ some k) (hk : body.parameter? k ≠ none) :
    Parameter.Keeps Q (body.parameter? k)
      ((c.chosen type variant node body).body.parameter? k) := by
  rcases chosen_cases c type variant node body with ⟨-, hkey, heq⟩ | ⟨s, rfl, heq⟩ | ⟨k', heq⟩
  · have hname : (Parameter.derived (type ++ " parameters") variant node).name ≠ k := by
      intro hname
      exact hcovered (hkey.trans (congrArg some hname))
    rw [heq, Spec.parameter?_insertFixed hname]
    exact .refl Q _
  · rw [heq]
    exact (Spec.kept_merge hbody hnode.fit).keeps Q hQ k hk
  · rw [heq]
    exact (Spec.kept_push hbody (fit_alone k' variant hnode)).keeps Q hQ k hk

/-- A choice with a chosen variant holds a value: the type itself. -/
theorem hasValue_chosen (hbody : body.Fit Node.Sound) (hnode : node.Sound)
    (hwrite : c.writeType type c.body = .ok () body) :
    (c.chosen type variant node body).hasValue = true := by
  unfold hasValue
  rw [placement_chosen, selected_chosen]
  rcases writeType_cases hwrite with ⟨-, hset⟩ | ⟨hplacement, -⟩
  · -- the variant does not take the place of the selector
    have hne : c.coveredBy type node ≠ some c.selector :=
      fun h => selector_ne c.field type (eq_of_coveredBy h).symm
    obtain ⟨p, hp, hshows⟩ := Spec.shown_of_set_eq_ok hset
    have hshown := (keeps_chosen variant hbody hnode Parameter.persistent_hasValue hne
      (Option.ne_none_iff_exists'.2 ⟨p, hp⟩)).shown ⟨p, hp, hshows.hasValue⟩
    rw [Spec.hasValue_of_shown (fit_chosen hbody hnode hnode.fit) hshown, Bool.or_true]
  · rw [hplacement]
    rfl

/-- The key at which choosing a type may take the place of a parameter. -/
def coveredKey? (catalog : Catalog) (type : String) (c : Choice Node) : Option String :=
  match variantFor catalog type c with
  | .ok (_, node) => c.coveredBy type node
  | .error _ => none

/-- Does writing the key write a case parameter? The selector is a parameter only if the placement
says so. -/
def writesCase (c : Choice Node) (key : String) : Bool :=
  c.body.isSelector key && (key ≠ c.selector || c.placement.hasTypeParameter)

/-- What is kept of the body is kept of the choice. -/
theorem embeds_body (c : Choice Node) :
    View.Embeds (Spec.view Node.Sound) Node.view fun body => .choice { c with body } where
  parameter? _ _ := rfl
  hasValue body body' h := by
    show Judged.hasValue (Node.choice _) = true → Judged.hasValue (Node.choice _) = true
    rw [Node.hasValue_eq, Node.hasValue_eq]
    show ((!c.placement.hasTypeParameter && c.selected.isSome) || body.hasValue) = true →
      ((!c.placement.hasTypeParameter && c.selected.isSome) || body'.hasValue) = true
    rw [Bool.or_eq_true, Bool.or_eq_true]
    exact Or.imp id h
  fit _ h := Node.sound_of_fit h

/-- A chosen type keeps what is shown, but for what its selector may hide and the place of its
variant. -/
theorem kept_setType (h : c.body.Fit Node.Sound) (hset : setType catalog type c = .ok () c') :
    Node.view.Kept Node.Sound
      (fun _ k => (c.placement.hasTypeParameter = true → c.body.hides c.selector k = false) ∧
        c.coveredKey? catalog type ≠ some k ∧ c.body.parameter? k ≠ none)
      (.choice c) (.choice c') := by
  obtain ⟨variant, node, body, hvariant, hwrite, rfl⟩ := setType_eq_ok hset
  have hcovered : c.coveredKey? catalog type = c.coveredBy type node := by
    unfold coveredKey?
    rw [hvariant]
  have hnode : node.Sound := (Catalog.fresh_of_build (variantFor_eq_ok.1 hvariant).2.2).sound
  -- first the type is written, then the variant is put in:
  have hwritten : (Spec.view Node.Sound).Kept Node.Sound
      (fun _ k => (c.placement.hasTypeParameter = true → c.body.hides c.selector k = false) ∧
        c.body.parameter? k ≠ none) c.body body := by
    rcases writeType_cases hwrite with ⟨hplacement, hset⟩ | ⟨-, rfl⟩
    · exact (Spec.kept_set h hset).imp fun _ _ hk => ⟨hk.1 hplacement, hk.2⟩
    · exact .refl h
  refine ⟨Node.sound_of_fit (fit_chosen hwritten.fit hnode hnode.fit), fun _ => ?_, ?_⟩
  · show Judged.hasValue (Node.choice _) = true
    rw [Node.hasValue_eq]
    exact hasValue_chosen hwritten.fit hnode hwrite
  · rintro Q hQ k ⟨hcase, hk, hsome⟩
    rw [hcovered] at hk
    refine ⟨fun hnone => absurd hnone hsome, fun hshown => ?_⟩
    obtain ⟨p, hp, hQp⟩ := (hwritten.keeps Q hQ k ⟨hcase, hsome⟩).shown hshown
    have hkeeps := keeps_chosen variant hwritten.fit hnode hQ hk
      (Option.ne_none_iff_exists'.2 ⟨p, hp⟩)
    exact hkeeps.shown ⟨p, hp, hQp⟩

end Choice

/-! ## Nodes -/

namespace Node

variable {catalog : Catalog} {n n' : Node} {key : String} {value : Value}

/-- Does writing the key write a case parameter? -/
def writesCase : Node → String → Bool
  | spec s, key => s.isSelector key
  | list _, _ => false
  | choice c, key => c.writesCase key

/-- The key at which a write may put a variant in place of a parameter. -/
def coveredKey? (catalog : Catalog) (key : String) (value : Value) : Node → Option String
  | choice c => if key = c.selector then c.coveredKey? catalog value.toText else none
  | _ => none

/-- What is kept of a spec is kept of the node. -/
theorem embeds_spec : View.Embeds (Spec.view Sound) view .spec where
  parameter? _ _ := rfl
  hasValue s s' h := by
    show Judged.hasValue (Node.spec s) = true → Judged.hasValue (Node.spec s') = true
    rw [hasValue_eq, hasValue_eq]
    exact h
  fit _ h := sound_of_fit h

theorem embeds_list : View.Embeds (EntryList.view Sound) view .list where
  parameter? _ _ := rfl
  hasValue l l' h := by
    show Judged.hasValue (Node.list l) = true → Judged.hasValue (Node.list l') = true
    rw [hasValue_eq, hasValue_eq]
    exact h
  fit _ h := sound_of_fit h

/-- What is shown is fit. -/
theorem fit_of_parameter? {S : Node → Prop} (h : n.Fit S) {k : String} {p : Parameter Node}
    (hp : n.parameter? k = some p) : p.Fit S := by
  cases n with
  | spec s => exact Spec.fit_of_parameter? h hp
  | list l => exact EntryList.Fit.entries h p (Parameter.mem_of_find? hp)
  | choice c => exact Spec.fit_of_parameter? (s := c.body) h hp

/-- A value that is shown counts. -/
theorem hasValue_of_shown (h : n.Sound) {k : String}
    (hshown : ∃ p ∈ n.parameter? k, p.hasValue = true) : Judged.hasValue n = true := by
  rw [hasValue_eq]
  cases n with
  | spec s => exact Spec.hasValue_of_shown h.fit hshown
  | list l =>
    have hfit : l.Fit Sound := h.fit
    exact (Collection.hasValue_iff hfit.toCollection).2 ⟨k, hshown⟩
  | choice c =>
    have hbody := Spec.hasValue_of_shown (s := c.body) h.fit hshown
    show (_ || c.body.hasValue) = true
    rw [hbody, Bool.or_true]

/-- Does writing the key write a case parameter that may hide another key? -/
def hides : Node → String → String → Bool
  | spec s, key, k => s.hides key k
  | list _, _, _ => false
  | choice c, key, k => c.body.hides key k && (key ≠ c.selector || c.placement.hasTypeParameter)

/-- Only a key that writes a case hides anything. -/
theorem hides_eq_false {k : String} (h : n.writesCase key = false) : n.hides key k = false := by
  cases n with
  | spec s => exact Spec.hides_eq_false h
  | list l => rfl
  | choice c =>
    have h : (c.body.isSelector key && _) = false := h
    show (c.body.hides key k && _) = false
    rw [Bool.and_eq_false_iff] at h ⊢
    exact h.imp Spec.hides_eq_false id

/-- A write keeps what is shown, unless it is to a case parameter that may hide it, or puts a
variant there. -/
theorem kept_set (h : n.Sound) (hset : Node.set catalog key value n = .ok () n') :
    view.Kept Sound (fun _ k => n.hides key k = false ∧
      n.coveredKey? catalog key value ≠ some k ∧ n.parameter? k ≠ none) n n' := by
  cases written_of_set hset with
  | spec hpart =>
    have hkept := (Spec.kept_set h.fit hpart).embed embeds_spec
    exact hkept.imp fun _ _ hk => ⟨hk.1, hk.2.2⟩
  | list hpart =>
    have hkept := (EntryList.kept_set h.fit hpart).embed embeds_list
    exact hkept.imp fun _ _ _ => trivial
  | @type c c' hkey hpart =>
    subst hkey
    refine (Choice.kept_setType h.fit hpart).imp ?_
    rintro Q k ⟨hcase, hcovered, hsome⟩
    refine ⟨fun hplacement => ?_, ?_, hsome⟩
    · have hhides : (c.body.hides c.selector k &&
          (decide (c.selector ≠ c.selector) || c.placement.hasTypeParameter)) = false := hcase
      rwa [hplacement, Bool.or_true, Bool.and_true] at hhides
    · have hkey : (if c.selector = c.selector then c.coveredKey? catalog value.toText else none)
        ≠ some k := hcovered
      rwa [if_pos rfl] at hkey
  | @body c _ hkey hbody =>
    -- any other key is set in the body:
    have hkept := (Spec.kept_set h.fit hbody).embed (Choice.embeds_body c)
    refine hkept.imp ?_
    rintro Q k ⟨hcase, -, hsome⟩
    have hhides : (c.body.hides key k &&
        (decide (key ≠ c.selector) || c.placement.hasTypeParameter)) = false := hcase
    rw [decide_eq_true hkey, Bool.true_or, Bool.and_true] at hhides
    exact ⟨hhides, hsome⟩

/-- A new entry hides nothing. -/
theorem kept_append (h : n.Sound) (happend : appendEmpty catalog key n = .ok () n') :
    view.Kept Sound (fun _ k => n.parameter? k ≠ none) n n' := by
  obtain ⟨l, l', rfl, rfl, hpart⟩ := appendEmpty_eq_ok happend
  have hmake : Makes Sound catalog.build := fun _ _ hm => (Catalog.fresh_of_build hm).sound
  exact (EntryList.kept_append h.fit hmake hpart).embed embeds_list

/-- An append that fails leaves the node as it was. -/
theorem appendEmpty_error {e : TreeError} (h : appendEmpty catalog key n = .error e n') :
    n' = n := by
  cases n with
  | spec s => cases h; rfl
  | choice c => cases h; rfl
  | list l =>
    rw [appendEmpty_list] at h
    obtain ⟨l', hpart, rfl⟩ := Edit.through_eq_error.1 h
    rw [(Edit.replace_eq_error.1 hpart).2]

/-- What is handed out is one of the sub-specs. -/
theorem sub_of_handsOut {S T : Node → Prop} {p : Parameter Node} {m : Node} {put : Node → Node}
    (h : n.Fit S) (hout : view.HandsOut T key n p m put) : S m :=
  (fit_of_parameter? h hout.shown).sub hout.isPrimitive hout.node

/-- A sub-spec is refused, and then nothing is lost, or it is handed out. -/
theorem reach_cases (h : n.Sound) (key : String) :
    (∃ n', Edit.Refuses (within key) n n' ∧ view.Kept Sound (fun _ _ => True) n n') ∨
      ∃ p m put, view.HandsOut Sound key n p m put ∧ Edit.Reaches (within key) n m put := by
  cases n with
  | spec s =>
    have hwithin := fun {α : Type} (act : Edit Node α) => within_spec key act s
    rcases Spec.reach_cases h.fit key with ⟨s', hrefuses, hkept⟩ | ⟨p, m, put, hout, hreaches⟩
    · exact Or.inl ⟨_, hrefuses.through hwithin, hkept.embed embeds_spec⟩
    · exact Or.inr ⟨p, m, _, hout.embed embeds_spec, hreaches.through hwithin⟩
  | list l =>
    have hwithin := fun {α : Type} (act : Edit Node α) => within_list key act l
    rcases EntryList.reach_cases h.fit key with ⟨l', hrefuses, hkept⟩ | ⟨p, m, put, hout, hreaches⟩
    · exact Or.inl ⟨_, hrefuses.through hwithin, hkept.embed embeds_list⟩
    · exact Or.inr ⟨p, m, _, hout.embed embeds_list, hreaches.through hwithin⟩
  | choice c =>
    have hwithin := fun {α : Type} (act : Edit Node α) => within_choice key act c
    rcases Spec.reach_cases h.fit key with ⟨s', hrefuses, hkept⟩ | ⟨p, m, put, hout, hreaches⟩
    · have hwhole := hkept.embed (Choice.embeds_body c)
      exact Or.inl ⟨_, hrefuses.through hwithin, hwhole⟩
    · have hwhole := hout.embed (Choice.embeds_body c)
      exact Or.inr ⟨p, m, _, hwhole, hreaches.through hwithin⟩

end Node

end SpecTree
