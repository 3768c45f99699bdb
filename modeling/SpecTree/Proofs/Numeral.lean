import SpecTree.Number.Literal
import SpecTree.Proofs.Text

/-!
# Whole numbers read back

The text of a whole number is its digits, behind a hyphen if it is negative. Main statements:

* `cases_of_mem_toString`: the text holds nothing else;
* `int64?_eq_some_iff`: which whole numbers 64 bits hold;
* `integer?_toString`, `int?_toString`: the number is read from it again.
-/

namespace SpecTree.Number

/-- The digits of a number are read back as the number. -/
theorem ofDigits_toDigits (n : Nat) : ofDigits (Nat.toDigits 10 n) = n :=
  Nat.ofDigitChars_ten_toDigits

theorem isDigit_of_mem_toDigits {n : Nat} {c : Char} (h : c ∈ Nat.toDigits 10 n) :
    c.isDigit = true :=
  Nat.isDigit_of_mem_toDigits (by decide) (by decide) h

/-- A text that starts with a digit has no sign. -/
theorem splitSign_of_isDigit {s : List Char} (h : ∀ c ∈ s.head?, c.isDigit = true) :
    splitSign s = (false, s) := by
  unfold splitSign
  split
  · cases h _ rfl
  · cases h _ rfl
  · rfl

theorem toList_toString_natCast (n : Nat) : (toString (n : Int)).toList = Nat.toDigits 10 n := by
  show (toString n).toList = _
  rw [Nat.toString_eq_ofList_toDigits, String.toList_ofList]

/-- A negative integer is written with a sign and the digits of its magnitude. -/
theorem toList_toString_negSucc (n : Nat) :
    (toString (Int.negSucc n)).toList = '-' :: Nat.toDigits 10 (n + 1) := by
  show ("-" ++ toString (n + 1)).toList = _
  rw [String.toList_append, Nat.toString_eq_ofList_toDigits, String.toList_ofList,
    String.toList_ofList]
  rfl

theorem isBlank_of_isDigit {c : Char} (h : c.isDigit = true) : Text.isBlank c = false := by
  have hrange : 48 ≤ c.toNat ∧ c.toNat ≤ 57 := Char.isDigit_iff_toNat.1 h
  simp only [Text.isBlank, Bool.or_eq_false_iff, Bool.and_eq_false_iff, decide_eq_false_iff_not,
    beq_eq_false_iff_ne]
  omega

/-- The text of a whole number holds nothing but digits and a hyphen. -/
theorem cases_of_mem_toString {n : Int} {c : Char} (h : c ∈ (toString n).toList) :
    c = '-' ∨ c.isDigit = true := by
  cases n with
  | ofNat n =>
    rw [Int.ofNat_eq_natCast, toList_toString_natCast] at h
    exact .inr (isDigit_of_mem_toDigits h)
  | negSucc n =>
    rw [toList_toString_negSucc] at h
    exact (List.mem_cons.1 h).imp_right isDigit_of_mem_toDigits

/-- An integer is written without blanks. -/
theorem isBlank_of_mem_toString {n : Int} {c : Char} (h : c ∈ (toString n).toList) :
    Text.isBlank c = false := by
  rcases cases_of_mem_toString h with rfl | hdigit
  · decide
  · exact isBlank_of_isDigit hdigit

/-- An integer is written with at least one character. -/
theorem toList_toString_ne_nil (n : Int) : (toString n).toList ≠ [] := by
  cases n with
  | ofNat n =>
    rw [Int.ofNat_eq_natCast, toList_toString_natCast]
    exact Nat.toDigits_ne_nil
  | negSucc n =>
    rw [toList_toString_negSucc]
    exact List.cons_ne_nil _ _

/-- A whole number is read from its text. -/
theorem integer?_toString (n : Int) : integer? (toString n).toList = some n := by
  have hdigits : ∀ n : Nat, Nat.toDigits 10 n ≠ [] ∧ (Nat.toDigits 10 n).all Char.isDigit :=
    fun n => ⟨Nat.toDigits_ne_nil, List.all_eq_true.2 fun _ => isDigit_of_mem_toDigits⟩
  cases n with
  | ofNat n =>
    have hsign : splitSign (Nat.toDigits 10 n) = (false, Nat.toDigits 10 n) :=
      splitSign_of_isDigit fun c hc => isDigit_of_mem_toDigits (List.mem_of_head? hc)
    rw [Int.ofNat_eq_natCast, toList_toString_natCast]
    unfold integer?
    simp only [hsign, if_pos (hdigits n), ofDigits_toDigits]
    rfl
  | negSucc n =>
    have hsign : ∀ s, splitSign ('-' :: s) = (true, s) := fun s => rfl
    rw [toList_toString_negSucc]
    unfold integer?
    simp only [hsign, if_pos (hdigits (n + 1)), ofDigits_toDigits]
    rfl

/-- Every integer of 64 bits is in their range. -/
theorem int64?_toInt (n : Int64) : int64? n.toInt = some n := by
  have hlow : -(powerOfTwo 63 : Int) ≤ n.toInt := n.le_toInt
  have hhigh : n.toInt < (powerOfTwo 63 : Int) := n.toInt_lt
  unfold int64?
  rw [if_pos ⟨hlow, hhigh⟩, Int64.ofInt_toInt]

/-- An integer that fits into 64 bits is the one that they stand for. -/
theorem int64?_eq_some_iff {z : Int} {n : Int64} : int64? z = some n ↔ n.toInt = z := by
  constructor
  · intro h
    unfold int64? at h
    split at h
    · next hrange =>
      cases h
      exact Int64.toInt_ofInt_of_le hrange.1 hrange.2
    · cases h
  · rintro rfl
    exact int64?_toInt n

/-- An integer is read from its text, which has no exponent. -/
theorem int?_toString (n : Int64) : int? (toString n.toInt).toList = some n := by
  have htrim := Text.trim_of_forall fun c => isBlank_of_mem_toString (n := n.toInt) (c := c)
  have hsplit : Text.splitOnChar 'e' (toString n.toInt).toList = [(toString n.toInt).toList] := by
    apply Text.splitOnChar_of_not_mem
    intro he
    rcases cases_of_mem_toString he with h | h <;> cases h
  unfold int?
  rw [htrim, hsplit]
  show plainInt? _ = _
  unfold plainInt?
  rw [integer?_toString, Option.bind_some, int64?_toInt]

end SpecTree.Number
