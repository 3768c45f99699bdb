import SpecTree.Proofs.Filling.Members

/-!
# Which members come first

When a node is filled from an object, the members that are selectors of the node at the start are
filled in before the others. What is a selector can change on the way, but only in one manner: a
type is chosen and the variant becomes a part of the node, with its case parameters. These keep
their place among the other members. Main statements:

* `Node.gathers_fillAll`: how selectors come about;
* `Node.selectors_of_fillFrom`: which selectors are still to be filled in when it is the turn of a
  member that is none.
-/

namespace SpecTree

/-- The items of the first list are among those before an item that is none of them. -/
theorem exists_of_append_eq {α : Type} {xs ys before after : List α} {y : α}
    (h : xs ++ ys = before ++ y :: after) (hy : y ∉ xs) :
    ∃ more, before = xs ++ more ∧ ys = more ++ y :: after := by
  rcases List.append_eq_append_iff.1 h with ⟨more, hbefore, hys⟩ | ⟨more, hxs, hafter⟩
  · exact ⟨more, hbefore, hys⟩
  · cases more with
    | nil => exact ⟨[], by simpa using hxs.symm, by simpa using hafter.symm⟩
    | cons x more =>
      obtain rfl : y = x := (List.cons.inj hafter).1
      exact absurd (hxs ▸ List.mem_append_right _ List.mem_cons_self) hy

namespace Node

variable {catalog : Catalog} {n n' n'' : Node} {keys keys' : List String} {key k path : String}
  {member : String × Json} {members : List (String × Json)}

/-! ## How a fill ends -/

section

variable {α : Type} {act : Fill Node α}

/-- What was caught as a success was one. -/
theorem eq_ok_of_answer_caught {a : α} (h : (caught act).answer n = .ok (.ok a)) :
    act n = .ok a (act.stateAfter n) := by
  unfold Edit.answer caught at h
  unfold Fill.stateAfter
  cases hrun : act n with
  | ok b n' =>
    rw [hrun] at h
    cases h
    rfl
  | error e n' =>
    rw [hrun] at h
    cases h

/-- What was caught as a failure was one. -/
theorem eq_error_of_answer_caught {e : FillError} (h : (caught act).answer n = .ok (.error e)) :
    act n = .error e (act.stateAfter n) := by
  unfold Edit.answer caught at h
  unfold Fill.stateAfter
  cases hrun : act n with
  | ok b n' =>
    rw [hrun] at h
    cases h
  | error f n' =>
    rw [hrun] at h
    cases h
    rfl

end

/-! ## How selectors come about -/

/-- The variants of the choice that a node is. -/
def variants (catalog : Catalog) : Node → Variants
  | choice c => catalog.validTypes c.name c.field
  | _ => []

/-- Does a type stand for a variant with the key as a case parameter, which becomes a part of the
node? -/
def MergesCase (catalog : Catalog) (n : Node) (type key : String) : Prop :=
  n.isInline = true ∧ ∃ variant s,
    (n.variants catalog).find? (Naming.hyphenate type) = some variant ∧
      catalog.build variant = .ok (.spec s) ∧ s.isSelector key = true

/-- A node, and what it is after the keys were filled in: selectors stay, and those that are new
come with a type that was chosen. -/
structure Gathers (catalog : Catalog) (keys : List String) (n n' : Node) : Prop where
  akin : Akin n n'
  variants : n'.variants catalog = n.variants catalog
  kept : ∀ k, n.isSelector k = true → n'.isSelector k = true
  gained : ∀ k, n'.isSelector k = true → n.isSelector k = true ∨
    n.selected? = none ∧ (∃ typeKey ∈ keys, n.typeKey? = some typeKey) ∧
      ∃ type, n'.selected? = some type ∧ n.MergesCase catalog type k

/-- Where the selectors are the same, none has come in. -/
theorem Gathers.of_isSelector (hakin : Akin n n') (hvariants : n'.variants catalog = n.variants catalog)
    (h : ∀ k, n'.isSelector k = n.isSelector k) : Gathers catalog keys n n' :=
  ⟨hakin, hvariants, fun k hk => (h k).trans hk, fun k hk => .inl ((h k).symm.trans hk)⟩

theorem Gathers.refl (n : Node) : Gathers catalog [] n n :=
  .of_isSelector (.refl n) rfl fun _ => rfl

/-- What is gathered by two lists of keys is gathered by both together. -/
theorem Gathers.trans (h : Gathers catalog keys n n') (h' : Gathers catalog keys' n' n'') :
    Gathers catalog (keys ++ keys') n n'' where
  akin := h.akin.trans h'.akin
  variants := h'.variants.trans h.variants
  kept k hk := h'.kept k (h.kept k hk)
  gained k hk := by
    rcases h'.gained k hk with hk | ⟨hnone, ⟨typeKey, hkey, htypeKey⟩, type, htype, hmerges⟩
    · rcases h.gained k hk with hk | ⟨hnone, ⟨typeKey, hkey, htypeKey⟩, type, htype, hmerges⟩
      · exact .inl hk
      · exact .inr ⟨hnone, ⟨typeKey, List.mem_append_left _ hkey, htypeKey⟩, type,
          h'.akin.selected? type htype, hmerges⟩
    · -- the second part of the run chose the type, and so the first did not:
      have hbefore : n.selected? = none := by
        rw [Option.eq_none_iff_forall_ne_some]
        intro type hselected
        rw [h.akin.selected? type hselected] at hnone
        cases hnone
      rw [h.akin.typeKey?] at htypeKey
      rw [MergesCase, h.akin.isInline, h.variants] at hmerges
      exact .inr ⟨hbefore, ⟨typeKey, List.mem_append_right _ hkey, htypeKey⟩, type, htype, hmerges⟩

theorem gathers_body {c : Choice Node} {body : Spec Node} (h : body.cases = c.body.cases) :
    Gathers catalog keys (.choice c) (.choice { c with body }) := by
  refine .of_isSelector (akin_body h) rfl fun k => ?_
  exact congrArg (decide (k = c.selector) || ·) (Spec.isSelector_congr h k)

/-- A choice takes in the case parameters of a variant that becomes a part of it, and no others. -/
theorem isSelector_chosen (c : Choice Node) (type variant : String) (node : Node) {body : Spec Node}
    (hbody : body.cases = c.body.cases) (k : String) :
    (c.chosen type variant node body).isSelector k = true ↔
      c.isSelector k = true ∨ c.placement = .inline ∧ ∃ s, node = .spec s ∧ s.isSelector k = true := by
  obtain ⟨name, field, placement, body', selected⟩ := c
  -- the parameter or the component that holds a variant is no case parameter:
  have hplaced : ∀ {s : Spec Node}, s.cases = body'.cases →
      (decide (k = Choice.selectorOf field) || s.isSelector k)
        = (decide (k = Choice.selectorOf field) || body'.isSelector k) := fun h =>
    congrArg (decide (k = Choice.selectorOf field) || ·) (Spec.isSelector_congr h k)
  have hnot : ∀ {P : Prop}, ¬ P → ∀ {b b' : Bool}, b = b' → (b = true ↔ b' = true ∨ P) :=
    fun hP _ _ hb => by rw [hb, or_iff_left hP]
  cases placement with
  | inline =>
    cases node with
    | spec s =>
      show (decide (k = Choice.selectorOf field) || (body.merge s).isSelector k) = true ↔
        (decide (k = Choice.selectorOf field) || body'.isSelector k) = true ∨ _
      have hmerge : (body.merge s).isSelector k = (body'.isSelector k || s.isSelector k) := by
        rw [← Spec.isSelector_congr hbody k]
        exact List.any_append
      rw [hmerge, ← Bool.or_assoc, Bool.or_eq_true]
      refine or_congr_right ⟨fun hs => ⟨rfl, s, rfl, hs⟩, ?_⟩
      rintro ⟨-, _, hspec, hs⟩
      cases hspec
      exact hs
    | list l =>
      exact hnot (by rintro ⟨-, _, hspec, -⟩; cases hspec)
        (hplaced ((Spec.cases_insertFixed _ _).trans hbody))
    | choice d =>
      exact hnot (by rintro ⟨-, _, hspec, -⟩; cases hspec)
        (hplaced ((Spec.cases_insertFixed _ _).trans hbody))
  | standard => exact hnot nofun (hplaced ((Spec.cases_insertFixed _ _).trans hbody))
  | sublist => exact hnot nofun (hplaced ((Spec.cases_push_collection _ _).trans hbody))
  | sublistDash => exact hnot nofun (hplaced ((Spec.cases_push_collection _ _).trans hbody))

/-- A type that is chosen brings in the selectors of its variant, if that is merged. -/
theorem gathers_setType {c c' : Choice Node} {type : String}
    (h : Choice.setType catalog type c = .ok () c') :
    Gathers catalog [c.selector] (.choice c) (.choice c') := by
  have hakin : Akin (.choice c) (.choice c') := akin_setType h
  obtain ⟨variant, node, body, hvariant, hwrite, rfl⟩ := Choice.setType_eq_ok h
  obtain ⟨hnone, hfind, hbuild⟩ := Choice.variantFor_eq_ok.1 hvariant
  have hbody := Choice.cases_of_writeType hwrite
  refine ⟨hakin, ?_, fun k hk => ?_, fun k hk => ?_⟩
  · obtain ⟨name, field, placement, body', selected⟩ := c
    cases placement <;> cases node <;> rfl
  · exact (isSelector_chosen c type variant node hbody k).2 (.inl hk)
  · rcases (isSelector_chosen c type variant node hbody k).1 hk with hk | ⟨hinline, s, rfl, hs⟩
    · exact .inl hk
    · exact .inr ⟨hnone, ⟨c.selector, List.mem_singleton_self _, rfl⟩, type, rfl,
        decide_eq_true hinline, variant, s, hfind, hbuild, hs⟩

/-- A write brings in a selector only as a choice of type. -/
theorem gathers_set {value : Value} (h : Node.set catalog key value n = .ok () n') :
    Gathers catalog [key] n n' := by
  have hakin : Akin n n' := akin_of_set h
  cases written_of_set h with
  | spec => exact .of_isSelector hakin rfl (hakin.isSelector rfl)
  | list => exact .of_isSelector hakin rfl (hakin.isSelector rfl)
  | type hkey hpart => exact hkey ▸ gathers_setType hpart
  | body _ hpart => exact gathers_body (Spec.cases_of_set hpart)

/-- An edit of a sub-spec brings in no selector. -/
theorem gathers_within {α : Type} (key : String) (act : Edit Node α) (n : Node) :
    Gathers catalog [key] n ((within key act).stateAfter n) := by
  have hakin := akin_within key act n
  cases n with
  | spec s =>
    rw [Edit.stateAfter_of_through (within_spec key act s)] at hakin ⊢
    exact .of_isSelector hakin rfl (hakin.isSelector rfl)
  | list l =>
    rw [Edit.stateAfter_of_through (within_list key act l)] at hakin ⊢
    exact .of_isSelector hakin rfl (hakin.isSelector rfl)
  | choice c =>
    rw [Edit.stateAfter_of_through (within_choice key act c)]
    exact gathers_body (Spec.cases_within key act c.body)

/-- An entry that is made sure of brings in no selector. -/
theorem gathers_ensureEntry (h : ensureEntry catalog key n = .ok () n') :
    Gathers catalog [] n n' := by
  rcases ensureEntry_eq_ok h with rfl | happend
  · exact .refl n'
  · obtain ⟨l, l', rfl, rfl, -⟩ := appendEmpty_eq_ok happend
    exact .of_isSelector (akin_list l l') rfl fun _ => rfl

/-- A member brings in a selector only if it is the type. -/
theorem gathers_fillMember (h : fillMember catalog path member n = .ok () n'') :
    Gathers catalog [member.1] n n'' := by
  obtain ⟨key, json⟩ := member
  cases json with
  | object inner =>
    obtain ⟨n', hentry, hwithin⟩ := fillMember_object h
    rw [← Edit.stateAfter_of_ok hwithin]
    exact (gathers_ensureEntry hentry).trans (gathers_within key _ n')
  | null | bool | number | string | array =>
    obtain ⟨n', value, hentry, -, hset⟩ := fillMember_leaf rfl h
    exact (gathers_ensureEntry hentry).trans (gathers_set hset)

/-! ## The order of members -/

/-- The members of an object in the order in which a node takes them. -/
def fillOrder (n : Node) (members : List (String × Json)) : List (String × Json) :=
  members.filter (n.isSelector ·.1) ++ members.filter (!n.isSelector ·.1)

/-- Fill in members, one after the other. -/
def fillAll (catalog : Catalog) (path : String) (members : List (String × Json)) : Fill Node Unit :=
  members.forM (fillMember catalog path)

theorem fillAll_append (before after : List (String × Json)) :
    fillAll catalog path (before ++ after)
      = (fillAll catalog path before >>= fun _ => fillAll catalog path after) :=
  List.forM_append

/-- The members of one turn are those that pass its test, in their order. -/
theorem fillMembers_eq_fillAll (isSelector : String → Bool) (selectors : Bool)
    (members : List (String × Json)) : fillMembers catalog path isSelector selectors members
      = fillAll catalog path (members.filter fun member => isSelector member.1 = selectors) := by
  induction members with
  | nil =>
    rw [fillMembers]
    rfl
  | cons member members ih =>
    rw [fillMembers, List.filter_cons, ih]
    by_cases hturn : isSelector member.1 = selectors
    · rw [if_pos hturn, if_pos (decide_eq_true hturn)]
      rfl
    · rw [if_neg hturn, if_neg (by simpa using hturn)]

/-- A node takes the members of an object in order, and stops at the first that it does not take. -/
theorem fillFrom_eq_fillAll (members : List (String × Json)) (n : Node) :
    fillFrom catalog path (.object members) n
      = fillAll catalog path (n.fillOrder members) n := by
  have hrun : fillFrom catalog path (.object members) n
      = (fillMembers catalog path n.isSelector true members >>= fun _ =>
          fillMembers catalog path n.isSelector false members) n := by
    rw [fillFrom]
    rfl
  have hothers : members.filter (fun member => n.isSelector member.1 = false)
      = members.filter (!n.isSelector ·.1) := by simp
  rw [hrun, fillMembers_eq_fillAll, fillMembers_eq_fillAll, hothers, fillOrder, fillAll_append]
  simp only [Bool.decide_eq_true]

/-- Members bring in selectors only by a type among them. -/
theorem gathers_fillAll (h : fillAll catalog path members n = .ok () n') :
    Gathers catalog (members.map (·.1)) n n' := by
  induction members generalizing n with
  | nil =>
    cases h
    exact .refl _
  | cons member members ih =>
    obtain ⟨_, m, hmember, hrest⟩ := Edit.bind_eq_ok.1 h
    exact (gathers_fillMember hmember).trans (ih hrest)

/-! ## The turn of a member -/

/-- A moment at which it is the turn of a member: the node as it was when its object was taken up,
the members of the object, the keys that were filled in, and the node as it is. -/
structure Moment where
  start : Node
  members : List (String × Json)
  written : List String
  now : Node
  next : String × Json

/-- The moments that come when a node is filled from an object, and sub-specs from the objects in
it. -/
inductive Comes (catalog : Catalog) : String → Node → List (String × Json) → Moment → Prop
  | here {path : String} {n n' : Node} {members done rest : List (String × Json)}
    {next : String × Json} (order : n.fillOrder members = done ++ next :: rest)
    (filled : fillAll catalog path done n = .ok () n') :
    Comes catalog path n members ⟨n, members, done.map (·.1), n', next⟩
  | inside {path key : String} {n n' n'' child : Node} {put : Node → Node}
    {members done rest inner : List (String × Json)} {moment : Moment}
    (order : n.fillOrder members = done ++ (key, .object inner) :: rest)
    (filled : fillAll catalog path done n = .ok () n')
    (entry : ensureEntry catalog key n' = .ok () n'')
    (reaches : Edit.Reaches (within key) n'' child put)
    (comes : Comes catalog (memberPath path key) child inner moment) :
    Comes catalog path n members moment

/-- Has a member become a selector with the type that was chosen, while it comes after the next one in
the object? -/
structure Moment.Late (catalog : Catalog) (m : Moment) (member : String × Json) : Prop where
  ordinary : m.start.isSelector member.1 = false
  behind : m.next.1 < member.1
  unchosen : m.start.selected? = none
  chosen : ∃ typeKey ∈ m.written, m.start.typeKey? = some typeKey
  merged : ∃ type, m.now.selected? = some type ∧ m.start.MergesCase catalog type member.1

theorem mem_of_mem_fillOrder (h : member ∈ n.fillOrder members) : member ∈ members := by
  rcases List.mem_append.1 h with h | h
  · exact (List.mem_filter.1 h).1
  · exact (List.mem_filter.1 h).1

/-- Selectors are filled in first, and the other members in the order of their names. -/
theorem split_of_fillOrder {done rest : List (String × Json)} {next : String × Json}
    (hwf : (Json.object members).WellFormed) (h : n.fillOrder members = done ++ next :: rest)
    (hnext : n.isSelector next.1 = false) :
    ∃ more, done = members.filter (n.isSelector ·.1) ++ more ∧
      members.filter (!n.isSelector ·.1) = more ++ next :: rest ∧
      (∀ other ∈ more, other.1 < next.1) ∧ ∀ other ∈ rest, next.1 < other.1 := by
  have hnot : next ∉ members.filter (n.isSelector ·.1) := by
    intro hmem
    rw [(List.mem_filter.1 hmem).2] at hnext
    cases hnext
  obtain ⟨more, hdone, hothers⟩ := exists_of_append_eq h hnot
  have hsorted : ((more ++ next :: rest).map (·.1)).Pairwise (· < ·) := by
    rw [← hothers]
    exact hwf.sorted.sublist (List.filter_sublist.map _)
  rw [List.pairwise_map, List.pairwise_append, List.pairwise_cons] at hsorted
  obtain ⟨-, ⟨hrest, -⟩, hmore⟩ := hsorted
  exact ⟨more, hdone, hothers, fun other hother => hmore other hother next List.mem_cons_self, hrest⟩

/-- When it is the turn of a member that is no selector, then all members that are selectors were
filled in before it, but for those that became selectors with a type and come after it. -/
theorem Comes.not_mem_written_iff {moment : Moment} (h : Comes catalog path n members moment)
    (hwf : (Json.object members).WellFormed) (hmember : member ∈ moment.members)
    (hselector : moment.now.isSelector member.1 = true)
    (hnext : moment.now.isSelector moment.next.1 = false) :
    member.1 ∉ moment.written ↔ moment.Late catalog member := by
  induction h with
  | @inside _ key _ _ _ _ _ members _ _ inner _ horder _ _ _ _ ih =>
    -- below a key the members are those of an inner document:
    have hinner : (key, Json.object inner) ∈ members :=
      mem_of_mem_fillOrder (horder ▸ List.mem_append_right _ List.mem_cons_self)
    exact ih (hwf.member hinner) hmember hselector hnext
  | @here path n n' members done rest next horder hfilled =>
    have hgathers : Gathers catalog (done.map (·.1)) n n' := gathers_fillAll hfilled
    have hstart : n.isSelector next.1 = false := by
      rw [Bool.eq_false_iff] at hnext ⊢
      exact fun hselects => hnext (hgathers.kept _ hselects)
    obtain ⟨more, rfl, hothers, hmore, hrest⟩ := split_of_fillOrder hwf horder hstart
    constructor
    · intro hnew
      -- it was no selector when the fill began, or it would be written by now:
      have hordinary : n.isSelector member.1 = false := by
        rw [Bool.eq_false_iff]
        intro hselects
        exact hnew (List.mem_map_of_mem (List.mem_append_left _
          (List.mem_filter.2 ⟨hmember, hselects⟩)))
      have hother : member ∈ more ++ next :: rest := by
        rw [← hothers]
        exact List.mem_filter.2 ⟨hmember, by rw [hordinary]; rfl⟩
      -- an ordinary member in front of the next one would be written too:
      have hbehind : next.1 < member.1 := by
        rcases List.mem_append.1 hother with hdone | hlater
        · exact absurd (List.mem_map_of_mem (List.mem_append_right _ hdone)) hnew
        · rcases List.mem_cons.1 hlater with rfl | hlater
          · rw [hselector] at hnext
            cases hnext
          · exact hrest member hlater
      rcases hgathers.gained _ hselector with hselects | ⟨hnone, htype, hmerged⟩
      · rw [hordinary] at hselects
        cases hselects
      · exact ⟨hordinary, hbehind, hnone, htype, hmerged⟩
    · intro hlate hmem
      obtain ⟨other, hother, hname⟩ := List.mem_map.1 hmem
      rcases List.mem_append.1 hother with hselects | hbefore
      · have hselects : n.isSelector other.1 = true := (List.mem_filter.1 hselects).2
        rw [hname, hlate.ordinary] at hselects
        cases hselects
      · have hbefore : other.1 < next.1 := hmore other hbefore
        rw [hname] at hbefore
        exact String.lt_irrefl _ (String.lt_trans hlate.behind hbefore)

/-- **Selectors are filled in before what they govern**, if they are selectors when the object is
taken up: it is filled in in an order that puts them first, so that none is left when it is the turn
of a member that is no selector. Left are those selectors, and only those, that came with a type that
was chosen since, and come after the member in the object. -/
theorem selectors_of_fillFrom (catalog : Catalog) (path : String) (n : Node)
    (hwf : (Json.object members).WellFormed) :
    fillFrom catalog path (.object members) n = fillAll catalog path (n.fillOrder members) n ∧
      ∀ moment, Comes catalog path n members moment → ∀ member ∈ moment.members,
        moment.now.isSelector member.1 = true → moment.now.isSelector moment.next.1 = false →
          (member.1 ∉ moment.written ↔ moment.Late catalog member) :=
  ⟨fillFrom_eq_fillAll members n, fun _ hcomes _ hmember hselector hnext =>
    hcomes.not_mem_written_iff hwf hmember hselector hnext⟩

end Node

/-! ## A condition in a variant -/

namespace Registry

/-- A variant with a parameter under a condition of a later name. -/
def exampleConditional : Registry :=
  ofLines ["``[foo-a-spec]``", "IF", "* `\"use`\" ``[bool]``", "THEN", "* `\"constant`\" ``[int]``",
    "END"]

/-- Values for the variant, and its type. -/
def exampleMembers : List (String × Json) :=
  [("constant", .ofNat 3), ("foo type", .string "a"), ("use", .bool true)]

theorem wellFormed_exampleMembers : (Json.object exampleMembers).WellFormed :=
  .object _ (by decide) (List.forall_mem_cons.2 ⟨.number _ ⟨by decide, by decide⟩,
    List.forall_mem_cons.2 ⟨.string "a", List.forall_mem_singleton.2 (.bool true)⟩⟩)

theorem mem_exampleMembers : ("use", Json.bool true) ∈ exampleMembers :=
  List.mem_cons_of_mem _ (List.mem_cons_of_mem _ List.mem_cons_self)

/-- The type is filled in first, and then it is the turn of the parameter under the condition, which
is refused. -/
theorem exists_comes_exampleConditional :
    ∃ n n', exampleConditional.get "foo-typedinline-spec" = .ok n ∧
      Node.Comes exampleConditional.catalog "" n exampleMembers
        ⟨n, exampleMembers, ["foo type"], n', ("constant", .ofNat 3)⟩ ∧
      n'.isSelector "use" = true ∧ n'.isSelector "constant" = false ∧
      ∃ m, Node.fill exampleConditional.catalog (.object exampleMembers) n
        = .error (.tree "constant" (.caseNotSet "constant" "use")) m := by
  let chooses := Node.fillAll exampleConditional.catalog "" [("foo type", .string "a")]
  let fills := Node.fill exampleConditional.catalog (.object exampleMembers)
  obtain ⟨n, hget, hrun⟩ := exampleConditional.exists_of_get "foo-typedinline-spec" (fun n =>
    !n.isSelector "constant" && n.isSelector "foo type" && !n.isSelector "use" &&
      (Node.caught chooses).answer n = .ok (.ok ()) &&
      ((chooses.stateAfter n).isSelector "use" && !(chooses.stateAfter n).isSelector "constant") &&
      (Node.caught fills).answer n
        = .ok (.error (.tree "constant" (.caseNotSet "constant" "use")))) (by decide +kernel)
  simp only [Bool.and_eq_true, Bool.not_eq_true', decide_eq_true_eq] at hrun
  obtain ⟨⟨⟨⟨⟨hconstant, htype⟩, huse⟩, hchosen⟩, huse', hconstant'⟩, hfill⟩ := hrun
  have horder : n.fillOrder exampleMembers
      = [("foo type", .string "a")] ++ ("constant", .ofNat 3) :: [("use", .bool true)] := by
    simp [Node.fillOrder, exampleMembers, hconstant, htype, huse]
  exact ⟨n, chooses.stateAfter n, hget, .here horder (Node.eq_ok_of_answer_caught hchosen), huse',
    hconstant', fills.stateAfter n, Node.eq_error_of_answer_caught hfill⟩

/-- The condition came with the type, and its turn is to come. -/
theorem selectors_of_fillFrom_exampleConditional :
    (Json.object exampleMembers).WellFormed ∧
      ∃ n moment, exampleConditional.get "foo-typedinline-spec" = .ok n ∧
        Node.Comes exampleConditional.catalog "" n exampleMembers moment ∧
        ("use", .bool true) ∈ moment.members ∧ moment.now.isSelector "use" = true ∧
        moment.now.isSelector moment.next.1 = false ∧
        moment.Late exampleConditional.catalog ("use", .bool true) := by
  obtain ⟨n, n', hget, hcomes, huse, hconstant, -⟩ := exists_comes_exampleConditional
  have hwritten : "use" ∉ ["foo type"] := by decide
  obtain ⟨-, hselectors⟩ := Node.selectors_of_fillFrom exampleConditional.catalog "" n
    wellFormed_exampleMembers
  have hlate := hselectors _ hcomes _ mem_exampleMembers huse hconstant
  exact ⟨wellFormed_exampleMembers, n, _, hget, hcomes, mem_exampleMembers, huse, hconstant,
    hlate.1 hwritten⟩

/-- A selector is still to be filled in when it is the turn of a member that depends on it. -/
theorem exists_not_mem_written :
    ∃ (r : Registry) (name : String) (n : Node) (members : List (String × Json))
      (moment : Node.Moment), (Json.object members).WellFormed ∧ r.get name = .ok n ∧
      Node.Comes r.catalog "" n members moment ∧ moment.now.isSelector moment.next.1 = false ∧
      (∃ member ∈ moment.members, moment.now.isSelector member.1 = true ∧
        member.1 ∉ moment.written) ∧
      ∃ key m, Node.fill r.catalog (.object members) n
        = .error (.tree moment.next.1 (.caseNotSet moment.next.1 key)) m := by
  obtain ⟨n, n', hget, hcomes, huse, hconstant, m, hfill⟩ := exists_comes_exampleConditional
  have hwritten : "use" ∉ ["foo type"] := by decide
  exact ⟨exampleConditional, "foo-typedinline-spec", n, exampleMembers, _, wellFormed_exampleMembers,
    hget, hcomes, hconstant, ⟨_, mem_exampleMembers, huse, hwritten⟩, "use", m, hfill⟩

end Registry

end SpecTree
