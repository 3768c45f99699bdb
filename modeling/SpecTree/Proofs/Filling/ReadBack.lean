import SpecTree.Proofs.Filling.Members
import SpecTree.Proofs.Filling.Parsed

/-!
# What was filled in reads back

After a fill that succeeded, the tree shows the leaves of the document at their paths. The members
of an object that are selectors are filled in first, but in the order of their names, so that one
of them may take away what another was given before it (`Node.isOvertaken`). No other leaf is lost.
Main statements:

* `Node.recorded_of_fillFrom`: there is a value at the path of a leaf;
* `Registry.readsBack_of_fill`: in a tree that was fresh before, it is the value of the leaf;
* `Registry.hidden_after_fill`: a selector that is overtaken may indeed be lost.
-/

namespace SpecTree

namespace Json

variable {json leaf : Json} {key : String} {keys : List String}

/-- The way to a leaf goes through a member of the document. -/
theorem member_of_descend? (h : json.descend? (key :: keys) = some leaf) :
    ∃ members inner, json = object members ∧ (key, inner) ∈ members ∧
      inner.descend? keys = some leaf := by
  obtain ⟨inner, hinner, hleaf⟩ := Option.bind_eq_some_iff.1 h
  cases json with
  | object members => exact ⟨members, inner, rfl, mem_of_member? hinner, hleaf⟩
  | _ => cases hinner

/-- A leaf under a key is in an object. -/
theorem object_of_descend? (h : json.descend? (keys ++ [key]) = some leaf) :
    ∃ members, json = object members := by
  cases keys with
  | nil =>
    obtain ⟨members, -, rfl, -⟩ := member_of_descend? h
    exact ⟨members, rfl⟩
  | cons k keys =>
    obtain ⟨members, -, rfl, -⟩ := member_of_descend? h
    exact ⟨members, rfl⟩

end Json

namespace Node

variable {catalog : Catalog} {n n' m : Node} {key path : String} {keys : List String}
  {json leaf : Json}

/-- No node on a path is of inline placement, and no key on it is overtaken but the type at the end,
which is chosen once. -/
def isUndisturbed : Node → Json → List String → Bool
  | _, _, [] => true
  | n, json, key :: keys =>
    !n.isInline && (!n.isOvertaken json key || keys.isEmpty && n.typeKey? = some key) &&
      match n.child? key, json.member? key with
      | some m, some inner => m.isUndisturbed inner keys
      | _, _ => true

/-- A key is undisturbed if nothing overtakes it at the node, and it is so in the sub-spec as well.
-/
theorem undisturbed_cons (h : n.isUndisturbed json (key :: keys) = true) :
    n.isInline = false ∧ (n.isOvertaken json key = false ∨ keys = [] ∧ n.typeKey? = some key) ∧
      ∀ m inner, n.child? key = some m → json.member? key = some inner →
        m.isUndisturbed inner keys = true := by
  rw [isUndisturbed, Bool.and_eq_true, Bool.and_eq_true, Bool.or_eq_true, Bool.and_eq_true,
    Bool.not_eq_true', Bool.not_eq_true', List.isEmpty_iff, decide_eq_true_eq] at h
  obtain ⟨⟨hinline, hkey⟩, hbelow⟩ := h
  refine ⟨hinline, hkey, fun m inner hm hinner => ?_⟩
  rw [hm, hinner] at hbelow
  exact hbelow

/-! ## There is a value -/

/-- A node with a child that holds a value holds one. -/
theorem hasValue_of_child (h : n.Sound) (hm : n.child? key = some m)
    (hvalue : Judged.hasValue m = true) : Judged.hasValue n = true := by
  obtain ⟨p, hp, hnode⟩ := Option.bind_eq_some_iff.1 hm
  have hprim := (fit_of_parameter? h.fit hp).isPrimitive_of_node hnode
  refine hasValue_of_shown h ⟨p, hp, ?_⟩
  rw [Parameter.hasValue_of_node hprim hnode]
  exact hvalue

/-- A sub-spec with a value in it is persistent. -/
theorem persistent_node (hvalue : Judged.hasValue m = true) :
    Parameter.Persistent Sound fun p => p.node = some m where
  valued p hfit hm := by
    rw [Parameter.hasValue_of_node (hfit.isPrimitive_of_node hm) hm]
    exact hvalue
  primitive p q hfit hm hprim := by
    rw [hfit.node_none hprim] at hm
    cases hm

theorem Leaves.child? (h : Leaves key n n') (hm : n.child? key = some m)
    (hvalue : Judged.hasValue m = true) : n'.child? key = some m :=
  Option.bind_eq_some_iff.2
    (h.shows _ (persistent_node hvalue) (Option.bind_eq_some_iff.1 hm))

/-- What was recorded stays, also if it is a type. -/
theorem Recorded.grown (h : Recorded key leaf n) (hgrown : Grown n n')
    (hleaves : n.typeKey? ≠ some key → Leaves key n n') : Recorded key leaf n' := by
  unfold Recorded at h ⊢
  rw [hgrown.akin.typeKey?]
  split
  · next hkey =>
    rw [if_pos hkey] at h
    obtain ⟨hint, v, hvalue, hselected⟩ := h
    exact ⟨hint, v, hvalue, hgrown.akin.selected? _ hselected⟩
  · next hkey =>
    rw [if_neg hkey] at h
    exact (hleaves hkey).shows _ persistent_isSet h

/-- A node with a leaf filled in somewhere below it holds a value. -/
theorem hasValue_of_fillFrom (h : n.Sound) (hwf : json.WellFormed)
    (hok : fillFrom catalog path json n = .ok () n')
    (hleaf : json.descend? (keys ++ [key]) = some leaf) (hobject : leaf.isObject = false) :
    Judged.hasValue n' = true := by
  induction keys generalizing json n n' path with
  | nil =>
    obtain ⟨members, inner, rfl, hmember, hinner⟩ := Json.member_of_descend? hleaf
    cases hinner
    obtain ⟨m, m', hm, hfill, hgrown, -⟩ := fillMember_of_fillFrom h hwf hmember hok
    exact hgrown.hasValue (recorded_of_fillMember hm hobject hfill).2
  | cons k keys ih =>
    obtain ⟨members, inner, rfl, hmember, hinner⟩ := Json.member_of_descend? hleaf
    obtain ⟨members', rfl⟩ := Json.object_of_descend? hinner
    obtain ⟨m, m', hm, hfill, hgrown, -⟩ := fillMember_of_fillFrom h hwf hmember hok
    obtain ⟨c, c', hc, hbelow, hchild⟩ := child_of_fillMember hm hfill
    have hvalue := ih hc (hwf.member hmember) hbelow hinner
    exact hgrown.hasValue (hasValue_of_child (grown_of_fillMember hm hfill).sound hchild hvalue)

/-- What a leaf was filled into shows a value. -/
theorem recorded_of_fillFrom (h : n.Sound) (hwf : json.WellFormed)
    (hok : fillFrom catalog path json n = .ok () n')
    (hleaf : json.descend? (keys ++ [key]) = some leaf) (hobject : leaf.isObject = false)
    (hundisturbed : n'.isUndisturbed json (keys ++ [key]) = true) :
    ∃ m, n'.descend? keys = some m ∧ Recorded key leaf m := by
  induction keys generalizing json n n' path with
  | nil =>
    obtain ⟨members, inner, rfl, hmember, hinner⟩ := Json.member_of_descend? hleaf
    cases hinner
    obtain ⟨m, m', hm, hfill, hgrown, hleaves⟩ := fillMember_of_fillFrom h hwf hmember hok
    obtain ⟨hinline, hkey, -⟩ := undisturbed_cons hundisturbed
    have hrecorded := (recorded_of_fillMember hm hobject hfill).1
    refine ⟨n', rfl, hrecorded.grown hgrown fun hne => hleaves hinline ?_⟩
    rcases hkey with hkey | ⟨-, htype⟩
    · exact hkey
    · exact absurd (hgrown.akin.typeKey?.symm.trans htype) hne
  | cons k keys ih =>
    obtain ⟨members, inner, rfl, hmember, hinner⟩ := Json.member_of_descend? hleaf
    obtain ⟨members', rfl⟩ := Json.object_of_descend? hinner
    obtain ⟨m, m', hm, hfill, hgrown, hleaves⟩ := fillMember_of_fillFrom h hwf hmember hok
    obtain ⟨hinline, hkey, hbelow⟩ := undisturbed_cons hundisturbed
    -- more of the way is below the key, so it is not the last one:
    have hovertaken : n'.isOvertaken (.object members) k = false :=
      hkey.resolve_right fun hlast =>
        List.append_ne_nil_of_right_ne_nil keys (List.cons_ne_nil key []) hlast.1
    -- what the member gave to its child is still there when all members are in:
    obtain ⟨c, c', hc, hinside, hchild⟩ := child_of_fillMember hm hfill
    have hwf' := hwf.member hmember
    have hvalue := hasValue_of_fillFrom hc hwf' hinside hinner hobject
    have hchild' := (hleaves hinline hovertaken).child? hchild hvalue
    obtain ⟨d, hd, hrecorded⟩ := ih hc hwf' hinside hinner
      (hbelow c' _ hchild' (Json.member?_of_mem hwf hmember))
    exact ⟨d, Option.bind_eq_some_iff.2 ⟨c', hchild', hd⟩, hrecorded⟩

/-! ## It is the value of the leaf -/

/-- A leaf reads back under a key: as the type of a choice, or as the value of a parameter, read
for the type that is declared and coerced to it. -/
inductive ReadsBack (n : Node) (key : String) (leaf : Json) : Prop
  | type (typeKey : n.typeKey? = some key) (hint : Option Primitive) (v : Value)
    (toValue : leaf.toValue? hint = some v) (get : n.get? key = some (.string v.toText))
  | value (typeKey : n.typeKey? ≠ some key) (p : Parameter Node) (t : Primitive) (v w : Value)
    (shown : n.parameter? key = some p) (declared : p.type = .primitive t)
    (toValue : leaf.toValue? (some t) = some v) (coerce : v.coerce t = .ok w)
    (set : p.value = some w)

/-- What was recorded of a leaf is read back as its value. -/
theorem readsBack_of_recorded (hrecorded : Recorded key leaf n)
    (hvalue : n.typeKey? ≠ some key → ∀ p w, n.parameter? key = some p → p.value = some w →
      ∃ v t, leaf.toValue? (some t) = some v ∧ p.type = .primitive t ∧ v.coerce t = .ok w) :
    n.ReadsBack key leaf := by
  unfold Recorded at hrecorded
  split at hrecorded
  · next hkey =>
    obtain ⟨hint, v, htoValue, hselected⟩ := hrecorded
    refine .type hkey hint v htoValue ?_
    cases n with
    | choice c =>
      cases Option.some.inj hkey
      have hselected : c.selected = some v.toText := hselected
      show (if c.selector = c.selector then c.selected.map Value.string else _) = _
      rw [if_pos rfl, hselected]
      rfl
    | _ => cases hkey
  · next hkey =>
    obtain ⟨p, hp, -, hset⟩ := hrecorded
    obtain ⟨w, hw⟩ := Option.isSome_iff_exists.1 hset
    obtain ⟨v, t, htoValue, htype, hcoerce⟩ := hvalue hkey p w hp hw
    exact .value hkey p t v w hp htype htoValue hcoerce hw

end Node

namespace Registry

variable {r : Registry} {name key : String} {n n' : Node} {keys : List String} {json leaf : Json}

/-- If a document was filled into a fresh tree, its leaves read back at their paths, unless a
selector on the path is overtaken by another one in the same object. -/
theorem readsBack_of_fill (hget : r.get name = .ok n) (hwf : json.WellFormed)
    (hfill : Node.fill r.catalog json n = .ok () n')
    (hleaf : json.descend? (keys ++ [key]) = some leaf) (hobject : leaf.isObject = false)
    (hundisturbed : n'.isUndisturbed json (keys ++ [key]) = true) :
    ∃ m, n'.descend? keys = some m ∧ m.ReadsBack key leaf := by
  have hbuild := build_of_get hget
  have hsound : n.Sound := (Catalog.fresh_of_build hbuild).sound
  obtain ⟨m, hm, hrecorded⟩ :=
    Node.recorded_of_fillFrom hsound hwf hfill hleaf hobject hundisturbed
  have hholds : n'.OnlyHolds json.allowance := by
    rw [← Node.stateAfter_of_ok hfill]
    exact Node.onlyHolds_fill (Catalog.onlyHolds_of_build hbuild) hwf
  refine ⟨m, hm, Node.readsBack_of_recorded hrecorded fun hkey p w hp hw => ?_⟩
  -- the value is one that the document gives, and at this path it gives that of the leaf:
  obtain ⟨v, t, ⟨leaf', hint, hleaf', hv⟩, htype, hcoerce⟩ := hholds.value hm hp hkey hw
  cases hleaf.symm.trans hleaf'
  obtain ⟨v', hv', hcoerce'⟩ := Json.coerce_toValue? (hwf.descend? hleaf) hv hcoerce
  exact ⟨v', t, hv', htype, hcoerce'⟩

theorem exists_of_fill (r : Registry) (name : String) (json : Json) (test : Node → Bool)
    (h : (match r.get name with
      | .ok n =>
        match Node.fill r.catalog json n with
        | .ok _ n' => test n'
        | .error _ _ => false
      | .error _ => false) = true) :
    ∃ n n', r.get name = .ok n ∧ Node.fill r.catalog json n = .ok () n' ∧ test n' = true := by
  obtain ⟨n, hget, hrun⟩ := exists_of_get r name _ h
  cases hfill : Node.fill r.catalog json n with
  | error e n' =>
    rw [hfill] at hrun
    cases hrun
  | ok u n' =>
    rw [hfill] at hrun
    exact ⟨n, n', hget, hfill, hrun⟩

/-- A group, a type in a sub-spec, and a value in the variant that comes with the type. -/
def exampleDocument : Json :=
  .object [("b", .ofNat 2),
    ("sub", .object [("fine parameters", .object [("y", .ofNat 3)]),
      ("inner type", .string "fine")])]

theorem wellFormed_exampleDocument : exampleDocument.WellFormed := by
  have hvariant : (Json.object [("y", .ofNat 3)]).WellFormed :=
    .object _ (by decide) (List.forall_mem_singleton.2 (.number _ ⟨by decide, by decide⟩))
  have hsub : (Json.object [("fine parameters", .object [("y", .ofNat 3)]),
      ("inner type", .string "fine")]).WellFormed :=
    .object _ (by decide)
      (List.forall_mem_cons.2 ⟨hvariant, List.forall_mem_singleton.2 (.string "fine")⟩)
  exact .object _ (by decide) (List.forall_mem_cons.2
    ⟨.number _ ⟨by decide, by decide⟩, List.forall_mem_singleton.2 hsub⟩)

theorem readsBack_of_fill_shared :
    ∃ n n' m, exampleShared.get "outer-spec" = .ok n ∧
      Node.fill exampleShared.catalog exampleDocument n = .ok () n' ∧
      n'.descend? ["sub", "fine parameters"] = some m ∧ m.ReadsBack "y" (.ofNat 3) := by
  obtain ⟨n, n', hget, hfill, hundisturbed⟩ := exists_of_fill exampleShared "outer-spec"
    exampleDocument (·.isUndisturbed exampleDocument ["sub", "fine parameters", "y"])
    (by decide +kernel)
  have hleaf : exampleDocument.descend? (["sub", "fine parameters"] ++ ["y"])
    = some (.ofNat 3) := rfl
  obtain ⟨m, hm, hreads⟩ :=
    readsBack_of_fill hget wellFormed_exampleDocument hfill hleaf rfl hundisturbed
  exact ⟨n, n', m, hget, hfill, hm, hreads⟩

/-- A case parameter that is itself in groups, of which one is chosen by default. -/
def exampleCases : Registry :=
  ofLines ["``[a-spec]``", "IF", "* `\"z`\" ``[bool]`` **true**", "THEN", "* `\"a`\" ``[bool]``",
    "ELSE", "* `\"a`\" ``[bool]``", "END", "", "IF", "* `\"a`\" ``[bool]``", "THEN",
    "* `\"x`\" ``[int]``", "END"]

/-- A selector is filled in, another one after it hides the group that the value went to, and the
fill succeeds without it. -/
theorem hidden_after_fill :
    ∃ n n', exampleCases.get "a-spec" = .ok n ∧
      Node.fill exampleCases.catalog (.object [("a", .bool true), ("z", .bool false)]) n
        = .ok () n' ∧
      n'.isInline = false ∧ n'.typeKey? = none ∧ (n'.parameter? "a").isSome ∧
      n'.get? "a" = none := by
  obtain ⟨n, n', hget, hfill, hrun⟩ := exists_of_fill exampleCases "a-spec"
    (.object [("a", .bool true), ("z", .bool false)])
    (fun n' => !n'.isInline && n'.typeKey?.isNone && (n'.parameter? "a").isSome &&
      (n'.get? "a").isNone)
    (by decide +kernel)
  simp only [Bool.and_eq_true, Bool.not_eq_true', Option.isNone_iff_eq_none] at hrun
  obtain ⟨⟨⟨hinline, htype⟩, hshown⟩, hvalue⟩ := hrun
  exact ⟨n, n', hget, hfill, hinline, htype, hshown, hvalue⟩

end Registry

end SpecTree
