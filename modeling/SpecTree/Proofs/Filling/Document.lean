import SpecTree.Proofs.Filling.Values

/-!
# Documents

What a document says at the end of a path, and how it gets into a tree: every key that is set while
a tree is filled from a document is set to the value of a leaf
(`Node.gives_of_mem_fillSettings`). Which value that is depends on the type that was declared where
the leaf was first read, but not what becomes of it in a slot (`Json.coerce_toValue?`). So a tree
that was fresh holds what the document gives and nothing else (`Node.onlyHolds_fill`).
-/

namespace SpecTree

/-- An integer that 64 bits hold, with a sign or without. -/
def JsonNumber.InRange : JsonNumber → Prop
  | integer n => -(Number.powerOfTwo 63 : Int) ≤ n ∧ n < Number.powerOfTwo 64
  | float _ => True

namespace Json

/-- Integers are in range, and the members of objects are in ascending order of their names. -/
inductive WellFormed : Json → Prop
  | null : WellFormed null
  | bool (b : Bool) : WellFormed (bool b)
  | number (n : JsonNumber) (inRange : n.InRange) : WellFormed (number n)
  | string (s : String) : WellFormed (string s)
  | array (items : List Json) (items_wellFormed : ∀ item ∈ items, WellFormed item) :
    WellFormed (array items)
  | object (members : List (String × Json)) (sorted : (members.map (·.1)).Pairwise (· < ·))
    (members_wellFormed : ∀ member ∈ members, WellFormed member.2) : WellFormed (object members)

def isObject : Json → Bool
  | object _ => true
  | _ => false

/-- What a document says at the end of a path of keys. -/
def descend? (json : Json) : List String → Option Json
  | [] => some json
  | key :: path => (json.member? key).bind (descend? · path)

variable {json leaf : Json} {members : List (String × Json)} {key : String} {hint : Option Primitive}
  {v w : Value} {t : Primitive}

/-- The members of an object are in ascending order of their names. -/
theorem WellFormed.sorted (h : (Json.object members).WellFormed) :
    (members.map (·.1)).Pairwise (· < ·) := by
  cases h with
  | object _ sorted _ => exact sorted

theorem WellFormed.member (h : (Json.object members).WellFormed) {member : String × Json}
    (hmember : member ∈ members) : member.2.WellFormed := by
  cases h with
  | object _ _ hmembers => exact hmembers member hmember

/-- What is looked up is one of the members. -/
theorem mem_of_member? (h : (object members).member? key = some leaf) :
    (key, leaf) ∈ members := by
  obtain ⟨member, hfind, rfl⟩ := Option.map_eq_some_iff.1 h
  have hkey : member.1 = key := by simpa using List.find?_some hfind
  exact hkey ▸ List.mem_of_find?_eq_some hfind

/-- Every member of a well formed object is found, as none comes twice. -/
theorem member?_of_mem (h : (object members).WellFormed) (hmember : (key, leaf) ∈ members) :
    (object members).member? key = some leaf := by
  obtain ⟨before, after, rfl⟩ := List.append_of_mem hmember
  -- no other member has the name:
  have hbefore : ∀ member ∈ before, ¬ (member.1 == key) = true := by
    intro member hm hkey
    have hsorted := h.sorted
    rw [List.map_append, List.map_cons, List.pairwise_append] at hsorted
    have hlt := hsorted.2.2 member.1 (List.mem_map_of_mem hm) key List.mem_cons_self
    rw [beq_iff_eq.1 hkey] at hlt
    exact String.lt_irrefl _ hlt
  show ((before ++ (key, leaf) :: after).find? (·.1 == key)).map (·.2) = some leaf
  rw [List.find?_append, List.find?_eq_none.2 hbefore, Option.none_or]
  simp

/-- A member that is looked up in a well formed document is well formed. -/
theorem WellFormed.member? (h : json.WellFormed) (hmember : json.member? key = some leaf) :
    leaf.WellFormed := by
  cases json with
  | object members => exact h.member (mem_of_member? hmember)
  | _ => cases hmember

/-- What a well formed document says at the end of a path is well formed. -/
theorem WellFormed.descend? {path : List String} (h : json.WellFormed)
    (hleaf : json.descend? path = some leaf) : leaf.WellFormed := by
  induction path generalizing json with
  | nil =>
    cases hleaf
    exact h
  | cons key path ih =>
    obtain ⟨next, hnext, hleaf⟩ := Option.bind_eq_some_iff.1 hleaf
    exact ih (h.member? hnext) hleaf

/-! ## Values of leaves -/

/-- An integer as a double is the double of the integer. -/
theorem toFloat_of_asInt? {n : JsonNumber} (h : n.InRange) {i : Int64} (hi : n.asInt? = some i) :
    n.toFloat = Value.doubleOfInt i := by
  cases n with
  | float x => cases hi
  | integer n =>
    have hi : (if n < (Number.powerOfTwo 63 : Int) then some (Int64.ofInt n) else none) = some i := hi
    split at hi
    · next hlt =>
      cases hi
      have hmin : -2 ^ 63 ≤ n := h.1
      show Float.ofInt n = Float.ofInt (Int64.ofInt n).toInt
      rw [Int64.toInt_ofInt_of_le hmin hlt]
    · cases hi

/-- A double goes into no slot but one for doubles. -/
theorem eq_of_coerce_double {x : Float} (h : (Value.double x).coerce t = .ok w) :
    t = .scalar .double := by
  cases t with
  | scalar s => cases s <;> first | rfl | cases h
  | array s => cases s <;> cases h

/-- Numbers that are no integers are taken only as an array of such numbers. -/
theorem eq_of_coerce_doubles {xs : List Float} (h : (Value.doubles xs).coerce t = .ok w) :
    t = .array .double := by
  cases t with
  | scalar s => cases s <;> cases h
  | array s => cases s <;> first | rfl | cases h

theorem isNumber_of_asInt? {item : Json} (h : item.asInt?.isSome = true) : item.isNumber = true := by
  cases item with
  | number n => rfl
  | _ => cases h

/-- Integers that are read as numbers are the same ones. -/
theorem filterMap_asFloat? {items : List Json} (h : ∀ item ∈ items, item.WellFormed)
    (hints : ∀ item ∈ items, item.asInt?.isSome = true) :
    items.filterMap asFloat? = (items.filterMap asInt?).map Value.doubleOfInt := by
  rw [List.map_filterMap]
  refine List.filterMap_congr fun item hitem => ?_
  cases item with
  | number n =>
    obtain ⟨i, hi⟩ := Option.isSome_iff_exists.1 (hints _ hitem)
    cases h _ hitem with
    | number _ hrange =>
      rw [hi]
      exact congrArg some (toFloat_of_asInt? hrange hi)
  | _ => cases hints _ hitem

/-- An array without items is one of any type. -/
theorem coerce_arrayValue?_nil (hv : arrayValue? hint [] = some v) (hw : v.coerce t = .ok w) :
    ∃ v', arrayValue? (some t) [] = some v' ∧ v'.coerce t = .ok w := by
  have hempty : v = .doubles [] ∨ v = .ints [] ∨ v = .bools [] ∨ v = .strings [] := by
    have hnil : ([] : List Json).isEmpty = true := rfl
    unfold arrayValue? at hv
    rw [if_pos hnil] at hv
    split at hv <;> cases hv <;> simp
  cases t with
  | scalar s => rcases hempty with rfl | rfl | rfl | rfl <;> cases s <;> cases hw
  | array s =>
    have hw' : ∃ v', arrayValue? (some (.array s)) [] = some v' ∧ v'.type = .array s ∧
        (v.coerce (.array s) = .ok w → w = v') := by
      rcases hempty with rfl | rfl | rfl | rfl <;> cases s <;>
        exact ⟨_, rfl, rfl, fun h => by cases h; try rfl⟩
    obtain ⟨v', hread, htype, heq⟩ := hw'
    refine ⟨v', hread, ?_⟩
    unfold Value.coerce
    rw [if_pos htype, heq hw]

/-- An array that was read under a hint and coerced is read alike under the type it was coerced to.
-/
theorem coerce_arrayValue? {items : List Json} (h : ∀ item ∈ items, item.WellFormed)
    (hv : arrayValue? hint items = some v) (hw : v.coerce t = .ok w) :
    ∃ v', arrayValue? (some t) items = some v' ∧ v'.coerce t = .ok w := by
  by_cases hnil : items = []
  · subst hnil
    exact coerce_arrayValue?_nil hv hw
  unfold arrayValue? at hv ⊢
  rw [if_neg (by rwa [List.isEmpty_iff])] at hv ⊢
  -- the test for booleans does not depend on the hint:
  by_cases hbools : items.all isBool = true
  · rw [if_pos hbools] at hv ⊢
    exact ⟨v, hv, hw⟩
  rw [if_neg hbools] at hv ⊢
  by_cases hints : items.all (·.asInt?.isSome) = true
  · -- integers, which are read as doubles where these were declared:
    rw [hints, Bool.true_and] at hv ⊢
    have hnumbers : items.all isNumber = true := by
      rw [List.all_eq_true] at hints ⊢
      exact fun item hitem => isNumber_of_asInt? (hints item hitem)
    rw [if_pos hnumbers] at hv ⊢
    by_cases ht : t = .array .double
    · subst ht
      have hdoubles := filterMap_asFloat? h (List.all_eq_true.1 hints)
      refine ⟨_, if_neg (by simp), ?_⟩
      split at hv
      · cases hv
        cases hw
        rw [hdoubles]
        rfl
      · cases hv
        exact hw
    · refine ⟨_, if_pos (by simpa using ht), ?_⟩
      split at hv
      · cases hv
        exact hw
      · cases hv
        exact absurd (eq_of_coerce_doubles hw) ht
  · rw [Bool.eq_false_iff.2 hints, Bool.false_and] at hv ⊢
    exact ⟨v, hv, hw⟩

/-- An integer is read as one, unless the hint asks for a number. -/
theorem toValue?_number (hint : Option Primitive) (n : JsonNumber) :
    (number n).toValue? hint = match n.asInt? with
      | some i =>
        if hint = some (.scalar .double) then some (.double (Value.doubleOfInt i)) else some (.int i)
      | none => some (.double n.toFloat) := rfl

/-- What becomes of a leaf in a slot is the same, whatever the type was that it was read for: it is
what comes out if it is read for the type of the slot. -/
theorem coerce_toValue? (h : leaf.WellFormed) (hv : leaf.toValue? hint = some v)
    (hw : v.coerce t = .ok w) : ∃ v', leaf.toValue? (some t) = some v' ∧ v'.coerce t = .ok w := by
  cases leaf with
  | null => cases hv
  | object members => cases hv
  | bool b => exact ⟨v, hv, hw⟩
  | string s => exact ⟨v, hv, hw⟩
  | array items =>
    cases h with
    | array _ hitems => exact coerce_arrayValue? hitems hv hw
  | number n =>
    cases hi : n.asInt? with
    | none =>
      rw [toValue?_number, hi] at hv ⊢
      exact ⟨v, hv, hw⟩
    | some i =>
      rw [toValue?_number, hi] at hv ⊢
      simp only at hv ⊢
      split at hv
      · cases hv
        -- an integer was read as a double only because the hint said so:
        have ht := eq_of_coerce_double hw
        exact ⟨_, by rw [ht, if_pos rfl], hw⟩
      · cases hv
        by_cases ht : t = .scalar .double
        · subst ht
          exact ⟨_, if_pos rfl, hw⟩
        · exact ⟨_, if_neg fun h => ht (Option.some.inj h), hw⟩

end Json

/-! ## Settings -/

/-- A document gives a value at the end of a path, if it is read for some type. -/
def Json.Gives (json : Json) (target : List String) (value : Value) : Prop :=
  ∃ leaf hint, json.descend? target = some leaf ∧ leaf.toValue? hint = some value

/-- The values that a document gives, coerced to the types of slots. -/
def Json.allowance (json : Json) : Allowance := fun target type w =>
  ∃ v t, json.Gives target v ∧ type = .primitive t ∧ v.coerce t = .ok w

namespace Node

variable {catalog : Catalog}

/-- A setting of a leaf is of the key, and of a value that the leaf gives. -/
theorem gives_of_mem_leafSettings {key : String} {json : Json} {n : Node} {s : Setting}
    (h : s ∈ n.leafSettings key json) : s.target = [key] ∧ json.Gives [] s.value := by
  unfold leafSettings at h
  split at h
  · next value hvalue =>
    rw [List.mem_singleton.1 h]
    exact ⟨rfl, json, n.hint? key, rfl, hvalue⟩
  · cases h

/-- A setting of an entry that is made sure of is one of its leaf. -/
theorem gives_of_entry {key : String} {json : Json} {n : Node} {s : Setting}
    (h : s ∈ match ensureEntry catalog key n with
      | .ok _ n' => n'.leafSettings key json
      | .error _ _ => []) : ∃ rest, s.target = key :: rest ∧ json.Gives rest s.value := by
  split at h
  · exact ⟨[], gives_of_mem_leafSettings h⟩
  · cases h

mutual

/-- While a tree is filled from a document, keys are set to what the document says at their
paths. -/
theorem gives_of_mem_fillSettings (path : String) : ∀ (json : Json) (n : Node), json.WellFormed →
    ∀ s ∈ n.fillSettings catalog path json, json.Gives s.target s.value
  | .object members, n, hwf, s, hs => by
    have hmember : ∃ member ∈ members, ∃ rest, s.target = member.1 :: rest ∧
        member.2.Gives rest s.value := by
      rw [fillSettings] at hs
      rcases List.mem_append.1 hs with hs | hs
      · exact gives_of_mem_membersSettings path _ _ members _ (fun _ => hwf.member) s hs
      · split at hs
        · exact gives_of_mem_membersSettings path _ _ members _ (fun _ => hwf.member) s hs
        · cases hs
    obtain ⟨⟨key, json⟩, hmem, rest, htarget, leaf, hint, hleaf, hvalue⟩ := hmember
    refine ⟨leaf, hint, ?_, hvalue⟩
    rw [htarget]
    exact Option.bind_eq_some_iff.2 ⟨json, Json.member?_of_mem hwf hmem, hleaf⟩
  | .null, _, _, _, hs => by cases hs
  | .bool _, _, _, _, hs => by cases hs
  | .number _, _, _, _, hs => by cases hs
  | .string _, _, _, _, hs => by cases hs
  | .array _, _, _, _, hs => by cases hs

/-- A setting of some members is one of one of them, below its key. -/
theorem gives_of_mem_membersSettings (path : String) (isSelector : String → Bool)
    (selectors : Bool) : ∀ (members : List (String × Json)) (n : Node),
    (∀ member ∈ members, member.2.WellFormed) →
    ∀ s ∈ n.membersSettings catalog path isSelector selectors members,
      ∃ member ∈ members, ∃ rest, s.target = member.1 :: rest ∧ member.2.Gives rest s.value
  | [], _, _, s, hs => by cases hs
  | member :: members, n, hwf, s, hs => by
    have hrest := fun n hs => gives_of_mem_membersSettings path isSelector selectors members n
      (fun m hm => hwf m (List.mem_cons_of_mem _ hm)) s hs
    have hlater : (∃ n, s ∈ membersSettings catalog path isSelector selectors members n) →
        ∃ m ∈ member :: members, ∃ rest, s.target = m.1 :: rest ∧ m.2.Gives rest s.value := by
      rintro ⟨n, hs⟩
      obtain ⟨m, hm, hgives⟩ := hrest n hs
      exact ⟨m, List.mem_cons_of_mem _ hm, hgives⟩
    rw [membersSettings] at hs
    split at hs
    · rcases List.mem_append.1 hs with hs | hs
      · exact ⟨member, List.mem_cons_self,
          gives_of_mem_memberSettings path member n (hwf member List.mem_cons_self) s hs⟩
      · split at hs
        · exact hlater ⟨_, hs⟩
        · cases hs
    · exact hlater ⟨_, hs⟩

/-- A setting of a member is one of the document in it, below its key. -/
theorem gives_of_mem_memberSettings (path : String) : ∀ (member : String × Json) (n : Node),
    member.2.WellFormed → ∀ s ∈ n.memberSettings catalog path member,
      ∃ rest, s.target = member.1 :: rest ∧ member.2.Gives rest s.value
  | (key, .object members), n, hwf, s, hs => by
    rw [memberSettings] at hs
    split at hs
    · split at hs
      · next m _ =>
        obtain ⟨s', hs', rfl⟩ := List.mem_map.1 hs
        exact ⟨s'.target, rfl,
          gives_of_mem_fillSettings (memberPath path key) (.object members) m hwf s' hs'⟩
      · cases hs
    · cases hs
  | (_, .null), _, _, _, hs => gives_of_entry hs
  | (_, .bool _), _, _, _, hs => gives_of_entry hs
  | (_, .number _), _, _, _, hs => gives_of_entry hs
  | (_, .string _), _, _, _, hs => gives_of_entry hs
  | (_, .array _), _, _, _, hs => gives_of_entry hs

end

/-- A tree that held no values holds what the document gives and nothing else, as far as it was
filled. -/
theorem onlyHolds_fill {n : Node} {json : Json} (h : ∀ V, n.OnlyHolds V) (hwf : json.WellFormed) :
    ((fill catalog json).stateAfter n).OnlyHolds json.allowance := by
  refine (stepwise_onlyHolds catalog).fillFrom "" json n _ (fun s hs t w hw => ?_) (h _)
  exact ⟨s.value, t, gives_of_mem_fillSettings "" json n hwf s hs, rfl, hw⟩

end Node

end SpecTree
