import SpecTree.Proofs.Agreement
import SpecTree.Proofs.Filling.Document

/-!
# Members of a document

A node is filled from an object member by member, those that are selectors first. What a member has
given to the node stays there:

* `Node.recorded_of_fillMember`, `Node.child_of_fillMember`: what is found after a member was filled
  in;
* `Node.leaves_fillMembers`: members leave alone what is shown under another key, unless one of
  them overtakes it;
* `Node.fillMember_of_fillFrom`: what becomes of one member in the course of a fill.
-/

namespace SpecTree

namespace Node

variable {catalog : Catalog} {n n' n'' : Node} {key k path : String} {json leaf : Json}
  {member : String × Json} {members : List (String × Json)}

/-! ## Fills that succeed -/

section Runs

variable {α : Type} {a : α} {isSelector : String → Bool} {selectors : Bool}

/-- A fill that is put down to a path succeeds as it does without. -/
theorem filling_eq_ok {act : Edit Node α} : filling path act n = .ok a n' ↔ act n = .ok a n' := by
  unfold filling
  cases act n <;> simp

/-- A fill whose failure is caught succeeds as it does without. -/
theorem caught_eq_ok {act : Fill Node α} : caught act n = .ok (.ok a) n' ↔ act n = .ok a n' := by
  unfold caught
  cases act n <;> simp

/-- A fill of a sub-spec succeeds exactly if it succeeds in the sub-spec. -/
theorem fillWithin_eq_ok {act : Fill Node α} :
    fillWithin path key act n = .ok a n' ↔ within key (caught act) n = .ok (.ok a) n' := by
  show uncaught path (within key (caught act) n) = .ok a n' ↔ _
  cases within key (caught act) n with
  | error e n'' => simp [uncaught]
  | ok result n'' => cases result <;> simp [uncaught]

/-- An entry is there already, or it is appended. -/
theorem ensureEntry_eq_ok (h : ensureEntry catalog key n = .ok () n') :
    n' = n ∨ appendEmpty catalog key n = .ok () n' := by
  cases n with
  | spec s =>
    cases h
    exact .inl rfl
  | choice c =>
    cases h
    exact .inl rfl
  | list l =>
    have h : (if l.contains key then pure () else appendEmpty catalog key : Edit Node Unit) (.list l)
      = .ok () n' := h
    split at h
    · cases h
      exact .inl rfl
    · exact .inr h

/-- A leaf is read for the type that is declared, and the key is set. -/
theorem fillMember_leaf (hleaf : leaf.isObject = false)
    (h : fillMember catalog path (key, leaf) n = .ok () n'') :
    ∃ n' value, ensureEntry catalog key n = .ok () n' ∧ leaf.toValue? (n'.hint? key) = some value ∧
      Node.set catalog key value n' = .ok () n'' := by
  have hfill : (filling (memberPath path key) (ensureEntry catalog key) >>= fun _ =>
      fillLeaf catalog (memberPath path key) key leaf) n = .ok () n'' := by
    cases leaf with
    | object members => cases hleaf
    | _ => exact h
  obtain ⟨_, n', hentry, hrest⟩ := Edit.bind_eq_ok.1 hfill
  unfold fillLeaf at hrest
  rw [Edit.get_bind] at hrest
  cases hvalue : leaf.toValue? (n'.hint? key) with
  | none =>
    rw [hvalue] at hrest
    cases hrest
  | some value =>
    rw [hvalue] at hrest
    exact ⟨n', value, filling_eq_ok.1 hentry, hvalue, filling_eq_ok.1 hrest⟩

/-- An object fills the sub-spec. -/
theorem fillMember_object (h : fillMember catalog path (key, .object members) n = .ok () n'') :
    ∃ n', ensureEntry catalog key n = .ok () n' ∧
      within key (caught (fillFrom catalog (memberPath path key) (.object members))) n'
        = .ok (.ok ()) n'' := by
  rw [fillMember] at h
  obtain ⟨_, n', hentry, hrest⟩ := Edit.bind_eq_ok.1 h
  exact ⟨n', filling_eq_ok.1 hentry, fillWithin_eq_ok.1 hrest⟩

/-- A member whose turn it is is filled in before those behind it. -/
theorem fillMembers_of_eq (h : isSelector member.1 = selectors) :
    fillMembers catalog path isSelector selectors (member :: members) n = .ok () n'' ↔
      ∃ n', fillMember catalog path member n = .ok () n' ∧
        fillMembers catalog path isSelector selectors members n' = .ok () n'' := by
  rw [fillMembers, if_pos h, Edit.bind_eq_ok]
  constructor
  · rintro ⟨_, n', hrun⟩
    exact ⟨n', hrun⟩
  · rintro ⟨n', hrun⟩
    exact ⟨(), n', hrun⟩

/-- A member whose turn it is not is passed over. -/
theorem fillMembers_of_ne (h : isSelector member.1 ≠ selectors) :
    fillMembers catalog path isSelector selectors (member :: members)
      = fillMembers catalog path isSelector selectors members := by
  rw [fillMembers, if_neg h]

/-- Members are filled in list by list. The induction is on the first list. -/
theorem fillMembers_append {before after : List (String × Json)} :
    fillMembers catalog path isSelector selectors (before ++ after) n = .ok () n'' ↔
      ∃ n', fillMembers catalog path isSelector selectors before n = .ok () n' ∧
        fillMembers catalog path isSelector selectors after n' = .ok () n'' := by
  induction before generalizing n with
  | nil =>
    have hnil : fillMembers catalog path isSelector selectors [] n = .ok () n := by
      rw [fillMembers]
      rfl
    rw [List.nil_append, hnil]
    constructor
    · exact fun h => ⟨n, rfl, h⟩
    · rintro ⟨m, hm, h⟩
      cases hm
      exact h
  | cons member before ih =>
    rw [List.cons_append]
    -- a member of the other group is passed over on both sides:
    by_cases hselects : isSelector member.1 = selectors
    · simp only [fillMembers_of_eq hselects, ih]
      constructor
      · rintro ⟨m, hm, m', hm', h⟩
        exact ⟨m', ⟨m, hm, hm'⟩, h⟩
      · rintro ⟨m', ⟨m, hm, hm'⟩, h⟩
        exact ⟨m, hm, m', hm', h⟩
    · rw [fillMembers_of_ne hselects, fillMembers_of_ne hselects, ih]

/-- Selectors first, then the other members. -/
theorem fillFrom_eq_ok : fillFrom catalog path (.object members) n = .ok () n'' ↔
    ∃ n', fillMembers catalog path n.isSelector true members n = .ok () n' ∧
      fillMembers catalog path n.isSelector false members n' = .ok () n'' := by
  have hrun : fillFrom catalog path (.object members) n
      = (fillMembers catalog path n.isSelector true members >>= fun _ =>
          fillMembers catalog path n.isSelector false members) n := by
    rw [fillFrom]
    rfl
  rw [hrun, Edit.bind_eq_ok]
  constructor
  · rintro ⟨_, n', hfill⟩
    exact ⟨n', hfill⟩
  · rintro ⟨n', hfill⟩
    exact ⟨(), n', hfill⟩

end Runs

/-! ## What a fill never takes away -/

/-- The node is sound, it holds a value if it did, and it is of the same kind. -/
structure Grown (n n' : Node) : Prop where
  sound : n'.Sound
  hasValue : Judged.hasValue n = true → Judged.hasValue n' = true
  akin : Akin n n'

theorem Grown.trans (h : Grown n n') (h' : Grown n' n'') : Grown n n'' :=
  ⟨h'.sound, h'.hasValue ∘ h.hasValue, h.akin.trans h'.akin⟩

/-- Whatever retains what was filled in has grown. -/
theorem Grown.of_retains {lost : List String → Prop} (h : Retains lost n n') (hakin : Akin n n') :
    Grown n n' :=
  ⟨h.sound, h.hasValue, hakin⟩

/-- An entry that is made sure of takes nothing away. -/
theorem grown_of_ensureEntry (h : n.Sound) (hok : ensureEntry catalog key n = .ok () n') :
    Grown n n' := by
  rw [← Edit.stateAfter_of_ok hok]
  exact .of_retains ((stepwise_retains catalog).ensureEntry n key h)
    ((stepwise_akin catalog).ensureEntry n key)

/-- A whole document takes nothing away. -/
theorem grown_of_fillFrom (h : n.Sound) (hok : fillFrom catalog path json n = .ok () n') :
    Grown n n' := by
  rw [← stateAfter_of_ok hok]
  exact .of_retains ((stepwise_retains catalog).fillFrom path json n h)
    ((stepwise_akin catalog).fillFrom path json n)

/-- A member takes nothing away. -/
theorem grown_of_fillMember (h : n.Sound) (hok : fillMember catalog path member n = .ok () n') :
    Grown n n' := by
  rw [← stateAfter_of_ok hok]
  exact .of_retains ((stepwise_retains catalog).fillMember path member n h)
    ((stepwise_akin catalog).fillMember path member n)

/-- All members together take nothing away. -/
theorem grown_of_fillMembers {isSelector : String → Bool} {selectors : Bool} (h : n.Sound)
    (hok : fillMembers catalog path isSelector selectors members n = .ok () n') : Grown n n' := by
  rw [← stateAfter_of_ok hok]
  exact .of_retains ((stepwise_retains catalog).fillMembers path isSelector selectors members n h)
    ((stepwise_akin catalog).fillMembers path isSelector selectors members n)

/-! ## What a member gives to a node -/

/-- A choice has the type of a leaf, or there is some value under the key of the leaf. -/
def Recorded (key : String) (leaf : Json) (n : Node) : Prop :=
  if n.typeKey? = some key then
    ∃ hint v, leaf.toValue? hint = some v ∧ n.selected? = some v.toText
  else ∃ p ∈ n.parameter? key, p.IsSet

theorem isSet_of_shows {p : Parameter Node} {value : Value} (h : p.Shows value) : p.IsSet := by
  obtain ⟨t, w, ht, -, hw⟩ := h
  refine ⟨Parameter.isPrimitive_iff.2 ⟨t, ht⟩, ?_⟩
  rw [hw]
  rfl

/-- A choice that was given a type has it. -/
theorem selected?_of_setType {c c' : Choice Node} {type : String}
    (hset : Choice.setType catalog type c = .ok () c') :
    (Node.choice c').typeKey? = some c.selector ∧ (Node.choice c').selected? = some type := by
  refine ⟨(akin_setType hset).typeKey?, ?_⟩
  obtain ⟨variant, node, body, -, -, rfl⟩ := Choice.setType_eq_ok hset
  rfl

/-- A choice that was given a type holds a value. -/
theorem hasValue_of_setType {c c' : Choice Node} {type : String} (h : (Node.choice c).Sound)
    (hset : Choice.setType catalog type c = .ok () c') :
    Judged.hasValue (Node.choice c') = true := by
  obtain ⟨variant, node, body, hvariant, hwrite, rfl⟩ := Choice.setType_eq_ok hset
  have hnode : node.Sound :=
    (Catalog.fresh_of_build (Choice.variantFor_eq_ok.1 hvariant).2.2).sound
  have hbody : body.Fit Sound := by
    rcases Choice.writeType_cases hwrite with ⟨-, hset⟩ | ⟨-, rfl⟩
    · exact (Spec.kept_set (s := c.body) h.fit hset).fit
    · exact h.fit
  rw [hasValue_eq]
  exact Choice.hasValue_chosen hbody hnode hwrite

/-- A leaf that was set is shown with the value it was coerced to. -/
theorem recorded_of_set {value : Value} {hint : Option Primitive} (h : n.Sound)
    (hvalue : leaf.toValue? hint = some value) (hset : Node.set catalog key value n = .ok () n') :
    Recorded key leaf n' ∧ Judged.hasValue n' = true := by
  have hsound : n'.Sound := (kept_set h hset).fit
  -- a value that is shown counts:
  have hshown : n'.typeKey? ≠ some key → (∃ p ∈ n'.parameter? key, p.Shows value) →
      Recorded key leaf n' ∧ Judged.hasValue n' = true := by
    rintro hkey ⟨p, hp, hshows⟩
    refine ⟨?_, hasValue_of_shown hsound ⟨p, hp, hshows.hasValue⟩⟩
    rw [Recorded, if_neg hkey]
    exact ⟨p, hp, isSet_of_shows hshows⟩
  cases written_of_set hset with
  | spec hpart => exact hshown nofun (Spec.shown_of_set_eq_ok hpart)
  | @list l l' hpart =>
    obtain ⟨p, w, hp, hw, rfl⟩ := EntryList.set_eq_ok.1 hpart
    refine hshown nofun ⟨_, ?_, Parameter.shows_of_check hw⟩
    have hname : p.name = key := Parameter.name_of_find? hp
    show Parameter.find? (Parameter.put _ l.entries) key = some _
    rw [Parameter.find?_put, if_pos hname]
  | @type c c' hkey hpart =>
    obtain ⟨htype, hselected⟩ := selected?_of_setType hpart
    refine ⟨?_, hasValue_of_setType h hpart⟩
    rw [Recorded, if_pos (htype.trans (congrArg some hkey.symm))]
    exact ⟨hint, value, hvalue, hselected⟩
  | @body c _ hkey hpart =>
    exact hshown (fun htype => hkey (Option.some.inj htype).symm) (Spec.shown_of_set_eq_ok hpart)

/-- A leaf that was filled in is recorded. -/
theorem recorded_of_fillMember (h : n.Sound) (hleaf : leaf.isObject = false)
    (hok : fillMember catalog path (key, leaf) n = .ok () n') :
    Recorded key leaf n' ∧ Judged.hasValue n' = true := by
  obtain ⟨m, value, hentry, hvalue, hset⟩ := fillMember_leaf hleaf hok
  exact recorded_of_set (grown_of_ensureEntry h hentry).sound hvalue hset

/-- What becomes of the sub-spec that an object was filled into is shown. -/
theorem child_of_fillMember (h : n.Sound)
    (hok : fillMember catalog path (key, .object members) n = .ok () n') :
    ∃ m m', m.Sound ∧ fillFrom catalog (memberPath path key) (.object members) m = .ok () m' ∧
      n'.child? key = some m' := by
  obtain ⟨n₁, hentry, hwithin⟩ := fillMember_object hok
  obtain ⟨m, m', -, hm, hact, hm'⟩ := within_ok (grown_of_ensureEntry h hentry).sound hwithin
  exact ⟨m, m', hm, caught_eq_ok.1 hact, hm'⟩

/-! ## What other members leave alone -/

/-- Whatever was shown under a key, with a value somewhere in it, is still shown. -/
structure Leaves (k : String) (n n' : Node) : Prop where
  grown : Grown n n'
  shows : ∀ Q, Parameter.Persistent Sound Q → (∃ p ∈ n.parameter? k, Q p) →
    ∃ p ∈ n'.parameter? k, Q p

theorem Leaves.refl (h : n.Sound) (k : String) : Leaves k n n :=
  ⟨⟨h, id, .refl n⟩, fun _ _ => id⟩

theorem Leaves.trans (h : Leaves k n n') (h' : Leaves k n' n'') : Leaves k n n'' :=
  ⟨h.grown.trans h'.grown, fun Q hQ hshown => h'.shows Q hQ (h.shows Q hQ hshown)⟩

/-- What keeps all that is shown leaves the key alone. -/
theorem leaves_of_kept {allowed : String → Prop} (hakin : Akin n n')
    (h : view.Kept Sound (fun _ k => allowed k) n n') (hk : n.parameter? k ≠ none → allowed k) :
    Leaves k n n' where
  grown := ⟨h.fit, h.hasValue, hakin⟩
  shows Q hQ hshown := by
    have ⟨p, hp, _⟩ := hshown
    exact (h.keeps Q hQ k (hk (Option.ne_none_iff_exists'.2 ⟨p, hp⟩))).shown hshown

/-- May a write of one key take away what is under another one? It may be that of the case parameter
of groups that declare the other, or the type whose variant takes the place of the other. -/
def overtakes (n : Node) (key k : String) : Bool :=
  n.hides key k ||
    (n.typeKey? = some key && n.selected?.any fun type => k = type ++ " parameters")

/-- Only selectors take anything away. -/
theorem overtakes_eq_false (h : n.isSelector key = false) : n.overtakes key k = false := by
  have hparts : n.hides key k = false ∧ n.typeKey? ≠ some key := by
    cases n with
    | spec s => exact ⟨Spec.hides_eq_false h, nofun⟩
    | list l => exact ⟨rfl, nofun⟩
    | choice c =>
      obtain ⟨hkey, hbody⟩ := Bool.or_eq_false_iff.1 h
      refine ⟨?_, fun htype => of_decide_eq_false hkey (Option.some.inj htype).symm⟩
      show (c.body.hides key k && _) = false
      rw [Spec.hides_eq_false hbody, Bool.false_and]
  rw [overtakes, hparts.1, decide_eq_false hparts.2]
  rfl

/-- What may be taken away from a node may be taken away later too. -/
theorem overtakes_of_akin (h : Akin n n') (hinline : n.isInline = false)
    (hquiet : n'.overtakes key k = false) : n.overtakes key k = false := by
  unfold overtakes at hquiet ⊢
  rw [h.hides hinline, h.typeKey?] at hquiet
  rw [Bool.or_eq_false_iff, Bool.and_eq_false_iff] at hquiet ⊢
  refine hquiet.imp id (Or.imp id fun htype => ?_)
  cases hselected : n.selected? with
  | none => rfl
  | some type =>
    rw [h.selected? type hselected] at htype
    exact htype

/-- A type that was chosen covers no key but that under which its variant is put. -/
theorem eq_of_coveredKey? {value : Value} (hset : Node.set catalog key value n = .ok () n')
    (hcovered : n.coveredKey? catalog key value = some k) :
    n'.typeKey? = some key ∧ n'.selected? = some value.toText ∧
      k = value.toText ++ " parameters" := by
  cases written_of_set hset with
  | spec => cases hcovered
  | list => cases hcovered
  | @body c _ hkey _ =>
    have hcovered : (if key = c.selector then _ else none) = some k := hcovered
    rw [if_neg hkey] at hcovered
    cases hcovered
  | @type c c' hkey hpart =>
    have hcovered : (if key = c.selector then c.coveredKey? catalog value.toText else none)
      = some k := hcovered
    rw [if_pos hkey] at hcovered
    obtain ⟨htype, hselected⟩ := selected?_of_setType hpart
    refine ⟨htype.trans (congrArg some hkey.symm), hselected, ?_⟩
    unfold Choice.coveredKey? at hcovered
    split at hcovered
    · exact Choice.eq_of_coveredBy hcovered
    · cases hcovered

/-- A write leaves alone what its key does not overtake. -/
theorem leaves_set {value : Value} (h : n.Sound) (hinline : n.isInline = false)
    (hset : Node.set catalog key value n = .ok () n') (hquiet : n'.overtakes key k = false) :
    Leaves k n n' := by
  have hakin := akin_of_set hset
  obtain ⟨hhides, htype⟩ := Bool.or_eq_false_iff.1 hquiet
  refine leaves_of_kept hakin (kept_set h hset) fun hsome => ⟨?_, fun hcovered => ?_, hsome⟩
  · rwa [hakin.hides hinline] at hhides
  · obtain ⟨hkey, hselected, hk⟩ := eq_of_coveredKey? hset hcovered
    rw [hkey, hselected, decide_eq_true rfl, Bool.true_and] at htype
    exact of_decide_eq_false htype hk

/-- An entry that is made sure of leaves every key alone. -/
theorem leaves_ensureEntry (h : n.Sound) (hok : ensureEntry catalog key n = .ok () n') :
    Leaves k n n' := by
  rcases ensureEntry_eq_ok hok with rfl | happend
  · exact .refl h k
  · exact leaves_of_kept (grown_of_ensureEntry h hok).akin (kept_append h happend) id

/-- What is done to one sub-spec leaves the others alone. -/
theorem leaves_within {α : Type} {act : Edit Node α} {a : α} (h : n.Sound)
    (hact : ∀ m m', m.Sound → act m = .ok a m' → Grown m m') (hne : key ≠ k)
    (hok : within key act n = .ok a n') : Leaves k n n' := by
  have hakin := akin_within key act n
  rw [Edit.stateAfter_of_ok hok] at hakin
  rcases reach_cases h key with ⟨n'', ⟨e, he⟩, -⟩ | ⟨p, m, put, hout, hreaches⟩
  · cases (he act).symm.trans hok
  · obtain ⟨m', hm', rfl⟩ := Edit.through_eq_ok.1 ((hreaches act).symm.trans hok)
    have hgrown := hact m m' (sub_of_handsOut h.fit hout) hm'
    have hkept : view.Kept Sound (fun _ k => key ≠ k) n (put m') :=
      (hout.kept m' hgrown.sound hgrown.hasValue).imp fun _ _ hk heq => absurd heq hk
    exact leaves_of_kept hakin hkept fun _ => hne

/-- A member leaves alone what is under another key, unless it overtakes it. -/
theorem leaves_fillMember (h : n.Sound) (hinline : n.isInline = false) (hne : member.1 ≠ k)
    (hok : fillMember catalog path member n = .ok () n')
    (hquiet : n'.overtakes member.1 k = false) : Leaves k n n' := by
  obtain ⟨key, json⟩ := member
  have hentry : ∀ m, ensureEntry catalog key n = .ok () m → Leaves k n m :=
    fun m hm => leaves_ensureEntry h hm
  cases hobject : json.isObject with
  | true =>
    obtain ⟨members, rfl⟩ : ∃ members, json = .object members := by
      cases json with
      | object members => exact ⟨members, rfl⟩
      | _ => cases hobject
    obtain ⟨m, hm, hwithin⟩ := fillMember_object hok
    have hleaves := hentry m hm
    refine hleaves.trans (leaves_within hleaves.grown.sound (fun c c' hc hfill => ?_) hne hwithin)
    exact grown_of_fillFrom hc (caught_eq_ok.1 hfill)
  | false =>
    obtain ⟨m, value, hm, -, hset⟩ := fillMember_leaf hobject hok
    have hleaves := hentry m hm
    have hinline' := hleaves.grown.akin.isInline.trans hinline
    exact hleaves.trans (leaves_set hleaves.grown.sound hinline' hset hquiet)

/-- Members leave alone what is under another key, unless one of them overtakes it. -/
theorem leaves_fillMembers {isSelector : String → Bool} {selectors : Bool} (h : n.Sound)
    (hinline : n.isInline = false)
    (hok : fillMembers catalog path isSelector selectors members n = .ok () n')
    (hquiet : ∀ member ∈ members, isSelector member.1 = selectors →
      member.1 ≠ k ∧ n'.overtakes member.1 k = false) : Leaves k n n' := by
  induction members generalizing n with
  | nil =>
    rw [fillMembers] at hok
    cases hok
    exact .refl h k
  | cons member members ih =>
    obtain ⟨hmember, hmembers⟩ := List.forall_mem_cons.1 hquiet
    by_cases hturn : isSelector member.1 = selectors
    · obtain ⟨m, hm, hrest⟩ := (fillMembers_of_eq hturn).1 hok
      have hgrown := grown_of_fillMember h hm
      have hinline' := hgrown.akin.isInline.trans hinline
      have hafter := grown_of_fillMembers hgrown.sound hrest
      obtain ⟨hne, hovertakes⟩ := hmember hturn
      have hleaves := leaves_fillMember h hinline hne hm
        (overtakes_of_akin hafter.akin hinline' hovertakes)
      exact hleaves.trans (ih hgrown.sound hinline' hrest hmembers)
    · rw [fillMembers_of_ne hturn] at hok
      exact ih h hinline hok hmembers

/-! ## One member in the course of a fill -/

/-- Is a key a selector with one after it in a document that overtakes it? -/
def isOvertaken (n : Node) (json : Json) (k : String) : Bool :=
  n.isSelector k && match json with
    | .object members => members.any fun member => k < member.1 && n.overtakes member.1 k
    | _ => false

/-- A selector that nothing overtakes is not overtaken by a member behind it. -/
theorem overtakes_of_isOvertaken (h : n.isOvertaken (.object members) k = false)
    (hselector : n.isSelector k = true) (hmember : member ∈ members) (hlt : k < member.1) :
    n.overtakes member.1 k = false := by
  have hnone : (n.isSelector k && members.any fun member =>
    k < member.1 && n.overtakes member.1 k) = false := h
  rw [hselector, Bool.true_and] at hnone
  have hquiet := List.any_eq_false.1 hnone member hmember
  rwa [decide_eq_true hlt, Bool.true_and, Bool.not_eq_true] at hquiet

/-- A member is filled in when it is its turn, and what it gave to the node is left alone by those
that come after it, unless it is overtaken. -/
theorem fillMember_of_fillMembers {isSelector : String → Bool} {selectors : Bool} (h : n.Sound)
    (hsorted : members.Pairwise (·.1 < ·.1)) (hmember : (k, json) ∈ members)
    (hturn : isSelector k = selectors)
    (hok : fillMembers catalog path isSelector selectors members n = .ok () n') :
    ∃ m m', m.Sound ∧ fillMember catalog path (k, json) m = .ok () m' ∧ Grown m' n' ∧
      (n'.isInline = false → (∀ member ∈ members, isSelector member.1 = selectors →
        k < member.1 → n'.overtakes member.1 k = false) → Leaves k m' n') := by
  obtain ⟨before, after, rfl⟩ := List.append_of_mem hmember
  have hafter : ∀ member ∈ after, k < member.1 :=
    (List.pairwise_cons.1 (List.pairwise_append.1 hsorted).2.1).1
  obtain ⟨m, hbefore, hrest⟩ := fillMembers_append.1 hok
  obtain ⟨m', hfill, hlater⟩ := (fillMembers_of_eq hturn).1 hrest
  have hm := grown_of_fillMembers h hbefore
  have hm' := grown_of_fillMember hm.sound hfill
  have hn' := grown_of_fillMembers hm'.sound hlater
  refine ⟨m, m', hm.sound, hfill, hn', fun hinline hquiet => ?_⟩
  refine leaves_fillMembers hm'.sound (hn'.akin.isInline.symm.trans hinline) hlater
    fun member hmem hother => ⟨fun heq => String.lt_irrefl k (heq ▸ hafter member hmem), ?_⟩
  exact hquiet member (List.mem_append_right _ (List.mem_cons_of_mem _ hmem)) hother
    (hafter member hmem)

/-- Every member of a document is filled in at some time, and what it gave to the node is there at
the end, unless it is overtaken. -/
theorem fillMember_of_fillFrom (h : n.Sound) (hwf : (Json.object members).WellFormed)
    (hmember : (k, json) ∈ members) (hok : fillFrom catalog path (.object members) n = .ok () n') :
    ∃ m m', m.Sound ∧ fillMember catalog path (k, json) m = .ok () m' ∧ Grown m' n' ∧
      (n'.isInline = false → n'.isOvertaken (.object members) k = false → Leaves k m' n') := by
  have hsorted := List.pairwise_map.1 hwf.sorted
  have hakin := (grown_of_fillFrom h hok).akin
  have hselects : n'.isInline = false → ∀ key, n'.isSelector key = n.isSelector key :=
    fun hinline => hakin.isSelector (hakin.isInline.symm.trans hinline)
  have hplain : n'.isInline = false → ∀ key, n.isSelector key = false →
      n'.overtakes key k = false :=
    fun hinline key hkey => overtakes_eq_false ((hselects hinline key).trans hkey)
  obtain ⟨n₁, hfirst, hsecond⟩ := fillFrom_eq_ok.1 hok
  have hn₁ := grown_of_fillMembers h hfirst
  cases hselector : n.isSelector k with
  | true =>
    -- the other selectors come after it, and then the members that are none:
    have hn' := grown_of_fillMembers hn₁.sound hsecond
    obtain ⟨m, m', hm, hfill, hgrown, hleaves⟩ :=
      fillMember_of_fillMembers h hsorted hmember hselector hfirst
    refine ⟨m, m', hm, hfill, hgrown.trans hn', fun hinline hovertaken => ?_⟩
    have hinline₁ : n₁.isInline = false := hn'.akin.isInline.symm.trans hinline
    have hselector' := (hselects hinline k).trans hselector
    have hfirsts : Leaves k m' n₁ := hleaves hinline₁ fun member hmem _ hlt =>
      overtakes_of_akin hn'.akin hinline₁
        (overtakes_of_isOvertaken hovertaken hselector' hmem hlt)
    refine hfirsts.trans (leaves_fillMembers hn₁.sound hinline₁ hsecond fun member _ hother =>
      ⟨?_, hplain hinline member.1 hother⟩)
    rintro rfl
    rw [hselector] at hother
    cases hother
  | false =>
    obtain ⟨m, m', hm, hfill, hgrown, hleaves⟩ :=
      fillMember_of_fillMembers hn₁.sound hsorted hmember hselector hsecond
    exact ⟨m, m', hm, hfill, hgrown, fun hinline _ =>
      hleaves hinline fun member _ hother _ => hplain hinline member.1 hother⟩

end Node

end SpecTree
