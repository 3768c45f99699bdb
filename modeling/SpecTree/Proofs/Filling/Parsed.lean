import SpecTree.Json.Parser
import SpecTree.Proofs.Filling.Document

/-!
# Documents that are read

What is read from a text is well-formed. Main statement: `Json.wellFormed_of_parse?`.
-/

namespace SpecTree

/-! ## Numbers -/

namespace JsonNumber

/-- Whatever digits are taken in, the number stays below the limit. -/
theorem value_absorb_lt (cs : List Char) : ∀ {s : Significand},
    s.value < Number.powerOfTwo 64 → (s.absorb cs).value < Number.powerOfTwo 64 := by
  induction cs with
  | nil => exact id
  | cons c cs ih =>
    intro s hs
    unfold Significand.absorb
    dsimp only
    split
    · next hnext => exact ih hnext
    · exact hs

/-- A whole number that is read is in range. -/
theorem inRange_ofWhole? {negative : Bool} {s : Significand} {n : JsonNumber}
    (hs : s.value < Number.powerOfTwo 64) (h : ofWhole? negative s = some n) : n.InRange := by
  unfold ofWhole? at h
  split at h
  · obtain ⟨x, -, rfl⟩ := Option.map_eq_some_iff.1 h
    trivial
  · split at h
    · split at h
      · cases h
        trivial
      · next hvalue =>
        cases h
        show -(Number.powerOfTwo 63 : Int) ≤ -(s.value : Int) ∧ _
        omega
    · cases h
      show -(Number.powerOfTwo 63 : Int) ≤ (s.value : Int) ∧ _
      omega

/-- A number that is read is in range. -/
theorem inRange_of_take? {s rest : List Char} {n : JsonNumber} (h : take? s = some (n, rest)) :
    n.InRange := by
  unfold take? at h
  -- with a sign or without one:
  split at h
  all_goals
    dsimp only at h
    split at h
    · cases h
    · obtain ⟨⟨fraction, body⟩, -, h⟩ := Option.bind_eq_some_iff.1 h
      obtain ⟨⟨exponent, after⟩, -, h⟩ := Option.bind_eq_some_iff.1 h
      split at h
      · obtain ⟨m, hm, h⟩ := Option.bind_eq_some_iff.1 h
        cases h
        exact inRange_ofWhole? (value_absorb_lt _ (by decide)) hm
      · obtain ⟨x, -, h⟩ := Option.bind_eq_some_iff.1 h
        cases h
        trivial

end JsonNumber

namespace Json

/-! ## Objects -/

/-- A member that is put in leaves no other one behind. -/
theorem mem_insertMember {name : String} {value : Json} {members : List (String × Json)}
    {member : String × Json} (h : member ∈ insertMember name value members) :
    member = (name, value) ∨ member ∈ members := by
  induction members with
  | nil => exact .inl (List.mem_singleton.1 h)
  | cons first rest ih =>
    unfold insertMember at h
    split at h
    · exact List.mem_cons.1 h
    · split at h
      · exact (List.mem_cons.1 h).imp_right (List.mem_cons_of_mem _)
      · rcases List.mem_cons.1 h with rfl | h
        · exact .inr List.mem_cons_self
        · exact (ih h).imp_right (List.mem_cons_of_mem _)

/-- A member is put where its name belongs. -/
theorem sorted_insertMember (name : String) (value : Json) {members : List (String × Json)}
    (h : members.Pairwise (·.1 < ·.1)) :
    (insertMember name value members).Pairwise (·.1 < ·.1) := by
  induction members with
  | nil => exact List.pairwise_singleton _ _
  | cons first rest ih =>
    obtain ⟨hfirst, hrest⟩ := List.pairwise_cons.1 h
    unfold insertMember
    split
    · next hlt =>
      refine List.pairwise_cons.2 ⟨List.forall_mem_cons.2 ⟨hlt, fun member hmember => ?_⟩, h⟩
      exact String.lt_trans hlt (hfirst member hmember)
    · next hnlt =>
      split
      · next heq =>
        subst heq
        exact List.pairwise_cons.2 ⟨hfirst, hrest⟩
      · next hne =>
        refine List.pairwise_cons.2 ⟨fun member hmember => ?_, ih hrest⟩
        rcases mem_insertMember hmember with rfl | hmember
        · exact Std.lt_of_le_of_ne hnlt (Ne.symm hne)
        · exact hfirst member hmember

/-- Members are put in order one after the other, and make a well formed object. -/
theorem wellFormed_ofMembers {members : List (String × Json)}
    (h : ∀ member ∈ members, member.2.WellFormed) : (ofMembers members).WellFormed := by
  -- the induction is on the members, over any that are in order already:
  have hfold : ∀ sorted : List (String × Json), sorted.Pairwise (·.1 < ·.1) →
      (∀ member ∈ sorted, member.2.WellFormed) →
      (object (members.foldl (fun sorted member => insertMember member.1 member.2 sorted)
        sorted)).WellFormed := by
    induction members with
    | nil => exact fun sorted hsorted hwf => .object _ (List.pairwise_map.2 hsorted) hwf
    | cons first rest ih =>
      intro sorted hsorted hwf
      obtain ⟨hfirst, hrest⟩ := List.forall_mem_cons.1 h
      refine ih hrest _ (sorted_insertMember _ _ hsorted) fun member hmember => ?_
      rcases mem_insertMember hmember with rfl | hmember
      · exact hfirst
      · exact hwf member hmember
  exact hfold [] .nil (List.forall_mem_nil _)

/-! ## Documents -/

mutual

/-- A value that is read is well formed. The induction is on the fuel, over all three readers at
once. -/
theorem wellFormed_of_takeValue? (depth : Nat) : ∀ (fuel : Nat) (s rest : List Char) (json : Json),
    takeValue? depth fuel s = some (json, rest) → json.WellFormed
  | 0, _, _, _, h => by cases h
  | fuel + 1, s, rest, json, h => by
    rw [takeValue?] at h
    split at h
    · cases h
      exact .null
    · cases h
      exact .bool true
    · cases h
      exact .bool false
    · obtain ⟨⟨cs, after⟩, -, h⟩ := Option.bind_eq_some_iff.1 h
      cases h
      exact .string _
    · split at h
      · cases h
      · split at h
        · cases h
          exact .array [] (List.forall_mem_nil _)
        · obtain ⟨⟨items, after⟩, hitems, h⟩ := Option.bind_eq_some_iff.1 h
          cases h
          exact .array items (wellFormed_of_takeItems? _ fuel _ _ items hitems)
    · split at h
      · cases h
      · split at h
        · cases h
          exact wellFormed_ofMembers (List.forall_mem_nil _)
        · obtain ⟨⟨members, after⟩, hmembers, h⟩ := Option.bind_eq_some_iff.1 h
          cases h
          exact wellFormed_ofMembers (wellFormed_of_takeMembers? _ fuel _ _ members hmembers)
    · obtain ⟨⟨n, after⟩, hn, h⟩ := Option.map_eq_some_iff.1 h
      cases h
      exact .number n (JsonNumber.inRange_of_take? hn)

/-- The items of an array that is read are well formed. -/
theorem wellFormed_of_takeItems? (depth : Nat) : ∀ (fuel : Nat) (s rest : List Char)
    (items : List Json), takeItems? depth fuel s = some (items, rest) →
    ∀ item ∈ items, item.WellFormed
  | 0, _, _, _, h => by cases h
  | fuel + 1, s, rest, items, h => by
    rw [takeItems?] at h
    obtain ⟨⟨item, after⟩, hitem, h⟩ := Option.bind_eq_some_iff.1 h
    have hwf := wellFormed_of_takeValue? depth fuel _ _ item hitem
    dsimp only at h
    split at h
    · obtain ⟨⟨items, after'⟩, hitems, h⟩ := Option.bind_eq_some_iff.1 h
      cases h
      exact List.forall_mem_cons.2 ⟨hwf, wellFormed_of_takeItems? depth fuel _ _ items hitems⟩
    · cases h
      exact List.forall_mem_singleton.2 hwf
    · cases h

/-- The members of an object that is read are well formed. -/
theorem wellFormed_of_takeMembers? (depth : Nat) : ∀ (fuel : Nat) (s rest : List Char)
    (members : List (String × Json)), takeMembers? depth fuel s = some (members, rest) →
    ∀ member ∈ members, member.2.WellFormed
  | 0, _, _, _, h => by cases h
  | fuel + 1, s, rest, members, h => by
    rw [takeMembers?] at h
    split at h
    · obtain ⟨⟨name, after⟩, -, h⟩ := Option.bind_eq_some_iff.1 h
      dsimp only at h
      split at h
      · obtain ⟨⟨value, after'⟩, hvalue, h⟩ := Option.bind_eq_some_iff.1 h
        have hwf := wellFormed_of_takeValue? depth fuel _ _ value hvalue
        dsimp only at h
        split at h
        · obtain ⟨⟨members, after''⟩, hmembers, h⟩ := Option.bind_eq_some_iff.1 h
          cases h
          exact List.forall_mem_cons.2
            ⟨hwf, wellFormed_of_takeMembers? depth fuel _ _ members hmembers⟩
        · cases h
          exact List.forall_mem_singleton.2 hwf
        · cases h
      · cases h
    · cases h

end

/-- Every document that can be read is well-formed. -/
theorem wellFormed_of_parse? {text : String} {json : Json} (h : parse? text = some json) :
    json.WellFormed := by
  unfold parse? at h
  dsimp only at h
  split at h
  · next value rest hvalue =>
    split at h
    · cases h
      exact wellFormed_of_takeValue? _ _ _ _ json hvalue
    · cases h
  · cases h

end Json

end SpecTree
