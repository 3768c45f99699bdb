import Mathlib.Tactic.IntervalCases
import SpecTree.Proofs.Number.Rounding
import SpecTree.Proofs.Numeral
import SpecTree.Value.Text

/-!
# Integers with an exponent

What the text of an integer stands for that is written as a mantissa and an exponent. A mantissa
with a fraction is read as a double and cut off before it is multiplied. Main statements:

* `Number.Written.plainInt?_chars`: the integer that a mantissa is read as;
* `Number.Written.int?_withExponent`: it is multiplied with the power of ten;
* `Value.parse_exponentForm`: the value of such a text, or its error;
* `Value.not_parse_exact`: the exact product does not come out if the mantissa has a fraction.
-/

namespace SpecTree

namespace Number

/-! ## Integers of 64 bits -/

/-- A digit is no letter in either case. -/
theorem isAlpha_toLower_of_isDigit {c : Char} (hc : c.isDigit = true) :
    c.toLower.isAlpha = false := by
  obtain ⟨hlow, hhigh⟩ : 48 ≤ c.toNat ∧ c.toNat ≤ 57 := Char.isDigit_iff_toNat.1 hc
  rw [← Char.ofNat_toNat c]
  generalize c.toNat = n at *
  interval_cases n <;> decide

theorem int64?_eq_none_iff {z : ℤ} : int64? z = none ↔ z < -2 ^ 63 ∨ 2 ^ 63 ≤ z := by
  unfold int64? powerOfTwo
  rw [ite_eq_right_iff]
  simp only [Nat.pow_eq, reduceCtorEq, imp_false]
  push_cast
  omega

/-- A number that is too large stays so if it is multiplied. -/
theorem int64?_mul_eq_none {z : ℤ} (h : int64? z = none) {factor : ℤ} (hfactor : 0 < factor) :
    int64? (z * factor) = none := by
  rw [int64?_eq_none_iff] at h ⊢
  rcases h with hlow | hhigh
  · left
    nlinarith
  · right
    nlinarith

/-- From `10 ^ 19` on no multiple is small enough, except for zero. -/
theorem int64?_mul_pow_eq_none {z : ℤ} (hz : z ≠ 0) {k : ℕ} (hk : 18 < k) :
    int64? (z * 10 ^ k) = none := by
  have hpower : (10 : ℤ) ^ 19 ≤ 10 ^ k := pow_le_pow_right₀ (by norm_num) hk
  rw [int64?_eq_none_iff]
  rcases lt_or_gt_of_ne hz with hneg | hpos
  · left
    nlinarith
  · right
    nlinarith

theorem exists_int64?_powerOfTen {k : ℕ} (hk : k ≤ 18) : ∃ p, int64? (powerOfTen k) = some p := by
  have hpos : (0 : ℤ) < 10 ^ k := by positivity
  have hpower : (10 : ℤ) ^ k ≤ 10 ^ 18 := pow_le_pow_right₀ (by norm_num) hk
  have hfits : int64? (powerOfTen k) ≠ none := by
    rw [Ne, int64?_eq_none_iff]
    unfold powerOfTen
    push_cast [Nat.pow_eq]
    omega
  exact Option.ne_none_iff_exists'.1 hfits

/-- Below `2 ^ 63` a number and its sign are an integer of 64 bits. -/
theorem truncated?_eq_int64? {negative : Bool} {n : ℕ}
    (h : (if negative then -(n : ℤ) else n) ≠ -2 ^ 63) :
    truncated? negative n = int64? (if negative then -n else n) := by
  unfold truncated?
  split
  · next hsmall =>
    rw [eq_comm, int64?_eq_some_iff]
    apply Int64.toInt_ofInt_of_le <;> split <;> omega
  · next hlarge =>
    rw [eq_comm, int64?_eq_none_iff]
    cases negative
    · right
      simp only [Bool.false_eq_true, if_false]
      omega
    · left
      simp only [if_true] at h ⊢
      omega

/-- A digit is neither a blank nor what separates an exponent. -/
theorem plain_of_isDigit {c : Char} (h : c.isDigit = true) : Text.isBlank c = false ∧ c ≠ 'e' := by
  refine ⟨isBlank_of_isDigit h, ?_⟩
  rintro rfl
  cases h

/-- A text of two halves that are integers is their product. The power by itself is too large from
`10 ^ 19` on, also for a mantissa that is zero. -/
theorem int?_of_halves {s mantissa exponent : List Char} {z : ℤ} {k : ℕ}
    (hsplit : Text.splitOnChar 'e' (Text.trim s) = [mantissa, exponent])
    (hmantissa : plainInt? (Text.trim mantissa) = int64? z)
    (hexponent : plainInt? (Text.trim exponent) = int64? k) (hzero : z ≠ 0 ∨ k ≤ 18) :
    int? s = int64? (z * 10 ^ k) := by
  unfold int?
  rw [hsplit]
  dsimp only
  rw [hmantissa, hexponent]
  -- each half may be too large, and so may the product:
  cases hx : int64? z with
  | none =>
    rw [int64?_mul_eq_none hx (by positivity)]
    rfl
  | some x =>
    rw [int64?_eq_some_iff] at hx
    cases he : int64? k with
    | none =>
      have hlarge : 18 < k := by
        rw [int64?_eq_none_iff] at he
        omega
      rw [int64?_mul_pow_eq_none (hzero.resolve_right (by omega)) hlarge]
      rfl
    | some e =>
      rw [int64?_eq_some_iff] at he
      have hpositive : ¬ e < 0 := by
        rw [Int64.lt_iff_toInt_lt, he, Int64.toInt_zero]
        omega
      simp only [Option.bind_eq_bind, Option.bind_some]
      rw [if_neg hpositive, he]
      -- beyond the eighteenth, the power of ten does not fit:
      rcases Nat.lt_or_ge 18 k with hlarge | hsmall
      · rw [if_neg (by omega), int64?_mul_pow_eq_none (hzero.resolve_right (by omega)) hlarge]
        rfl
      · obtain ⟨p, hp⟩ := exists_int64?_powerOfTen hsmall
        rw [if_pos (by omega), Int.toNat_natCast, hp, Option.bind_some, hx,
          int64?_eq_some_iff.1 hp, mul_comm]
        unfold powerOfTen
        push_cast [Nat.pow_eq]
        rfl

/-! ## Literals -/

/-- A decimal literal as it is written: a sign, digits, and digits behind a point. -/
structure Written where
  sign : List Char
  whole : List Char
  fraction : List Char
  isSign : sign ∈ [[], ['-'], ['+']]
  hasDigits : whole ≠ []
  wholeDigits : ∀ c ∈ whole, c.isDigit = true
  fractionDigits : ∀ c ∈ fraction, c.isDigit = true

namespace Written

/-- The point and the digits behind it. -/
def tail (m : Written) : List Char := if m.fraction = [] then [] else '.' :: m.fraction

/-- The text of a literal. -/
def chars (m : Written) : List Char := m.sign ++ (m.whole ++ m.tail)

def negative (m : Written) : Bool := m.sign = ['-']

/-- The absolute value of the number that is written. -/
def magnitude (m : Written) : ℚ := ofDigits (m.whole ++ m.fraction) / 10 ^ m.fraction.length

/-- The number that is written. -/
def value (m : Written) : ℚ := if m.negative then -m.magnitude else m.magnitude

/-- The part of the number that a mantissa keeps: all of it, or if it has a fraction the integer
part of the nearest double. -/
def kept (m : Written) : ℤ :=
  let n : ℕ := if m.fraction = [] then ofDigits m.whole else ⌊rounded m.magnitude⌋₊
  if m.negative then -n else n

/-- A row of digits. -/
def ofRow (digits : List Char) (hne : digits ≠ []) (hdigits : ∀ c ∈ digits, c.isDigit = true) :
    Written :=
  ⟨[], digits, [], List.mem_cons_self, hne, hdigits, List.forall_mem_nil _⟩

variable (m : Written)

theorem exists_cons_whole (m : Written) : ∃ c rest, m.whole = c :: rest ∧ c.isDigit = true := by
  obtain ⟨c, rest, hwhole⟩ := List.exists_cons_of_ne_nil m.hasDigits
  exact ⟨c, rest, hwhole, m.wholeDigits c (by rw [hwhole]; exact List.mem_cons_self)⟩

theorem splitSign_chars : splitSign m.chars = (m.negative, m.whole ++ m.tail) := by
  obtain ⟨c, rest, hwhole, hc⟩ := m.exists_cons_whole
  unfold chars negative
  rcases List.mem_cons.1 m.isSign with hnone | hsign
  · have hfirst : ∀ d ∈ (c :: (rest ++ m.tail)).head?, d.isDigit = true := by
      rintro d ⟨⟩
      exact hc
    rw [hnone, hwhole, List.nil_append, List.cons_append, splitSign_of_isDigit hfirst]
    rfl
  · rcases List.mem_pair.1 hsign with hminus | hplus
    · rw [hminus]
      rfl
    · rw [hplus]
      rfl

/-- A literal is a whole number if it has no fraction. -/
theorem integer?_chars : integer? m.chars =
    if m.fraction = [] then some (if m.negative then -(ofDigits m.whole : ℤ) else ofDigits m.whole)
    else none := by
  unfold integer?
  rw [m.splitSign_chars]
  dsimp only
  unfold tail
  by_cases hfraction : m.fraction = []
  · rw [if_pos hfraction, if_pos hfraction, List.append_nil]
    exact if_pos ⟨m.hasDigits, List.all_eq_true.2 m.wholeDigits⟩
  · rw [if_neg hfraction, if_neg hfraction]
    apply if_neg
    rintro ⟨-, hall⟩
    -- the point is no digit
    have hpoint := List.all_eq_true.1 hall '.' (by simp)
    cases hpoint

theorem decimal?_chars : decimal? m.negative (m.whole ++ m.tail) =
    some ⟨m.negative, ofDigits (m.whole ++ m.fraction), -m.fraction.length⟩ := by
  have hne : ¬ (m.whole = [] ∧ m.fraction = []) := fun h => m.hasDigits h.1
  have htake : m.fraction.takeWhile Char.isDigit = m.fraction :=
    List.takeWhile_eq_self_iff.2 m.fractionDigits
  have hdrop : m.fraction.dropWhile Char.isDigit = [] :=
    List.dropWhile_eq_nil_iff.2 m.fractionDigits
  unfold decimal? tail
  rw [List.takeWhile_append_of_pos m.wholeDigits, List.dropWhile_append_of_pos m.wholeDigits]
  by_cases hfraction : m.fraction = []
  · rw [hfraction] at hne ⊢
    simp [m.hasDigits, exponent?]
  · rw [if_neg hfraction]
    have hpoint : ('.' :: m.fraction).takeWhile Char.isDigit = [] := rfl
    have hbehind : ('.' :: m.fraction).dropWhile Char.isDigit = '.' :: m.fraction := rfl
    rw [hpoint, hbehind, List.append_nil]
    show (if m.whole = [] ∧ m.fraction.takeWhile Char.isDigit = [] then none
      else (exponent? (m.fraction.dropWhile Char.isDigit)).map _) = _
    rw [htake, hdrop, if_neg hne]
    simp [exponent?, htake]

/-- A literal begins with a digit, so it is neither an infinity nor NaN. -/
theorem double?_chars : double? m.chars =
    some (Decimal.toFloat ⟨m.negative, ofDigits (m.whole ++ m.fraction), -m.fraction.length⟩) := by
  obtain ⟨c, rest, hwhole, hc⟩ := m.exists_cons_whole
  have hword : ∀ word : String, word.toList.head?.any Char.isAlpha = true →
      String.ofList ((m.whole ++ m.tail).map Char.toLower) ≠ word := by
    rintro word hword rfl
    rw [String.toList_ofList, hwhole, List.cons_append, List.map_cons, List.head?_cons,
      Option.any_some, isAlpha_toLower_of_isDigit hc] at hword
    cases hword
  unfold double?
  rw [m.splitSign_chars]
  dsimp only
  rw [if_neg (not_or.2 ⟨hword _ (by decide), hword _ (by decide)⟩), if_neg (hword _ (by decide)),
    m.decimal?_chars]
  rfl

/-- What a literal is read as that has no exponent. A fraction may not hide the least integer of 64
bits. -/
theorem plainInt?_chars (hedge : m.fraction = [] ∨ m.kept ≠ -2 ^ 63) :
    plainInt? m.chars = int64? m.kept := by
  have hdouble : (double? m.chars).bind truncate? =
      truncated? m.negative ⌊rounded m.magnitude⌋₊ := by
    have hmagnitude : Decimal.magnitude
        ⟨m.negative, ofDigits (m.whole ++ m.fraction), -m.fraction.length⟩ = m.magnitude := by
      unfold Decimal.magnitude magnitude
      rw [zpow_neg, zpow_natCast, div_eq_mul_inv]
    rw [m.double?_chars, Option.bind_some, Decimal.truncate?_toFloat, hmagnitude]
  unfold plainInt?
  rw [m.integer?_chars, hdouble]
  by_cases hfraction : m.fraction = []
  · have hkept : m.kept = if m.negative then -(ofDigits m.whole : ℤ) else ofDigits m.whole := by
      unfold kept
      rw [if_pos hfraction]
    rw [if_pos hfraction, Option.bind_some, ← hkept]
    cases hfits : int64? m.kept with
    | some n => rfl
    | none =>
      -- the double is no smaller than the first integer that is too large
      have hlarge : 2 ^ 63 ≤ ofDigits m.whole := by
        rw [int64?_eq_none_iff, hkept] at hfits
        split at hfits <;> omega
      have hmagnitude : (2 : ℚ) ^ (63 : ℤ) ≤ m.magnitude := by
        unfold magnitude
        rw [hfraction, List.append_nil, List.length_nil, pow_zero, div_one]
        exact_mod_cast hlarge
      have hrounded : (2 : ℚ) ^ 63 ≤ rounded m.magnitude := by
        exact_mod_cast le_rounded (by norm_num) hmagnitude
      exact truncated?_of_le hrounded m.negative
  · have hkept : m.kept = if m.negative then -(⌊rounded m.magnitude⌋₊ : ℤ)
        else ⌊rounded m.magnitude⌋₊ := by
      unfold kept
      rw [if_neg hfraction]
    have hedge := hedge.resolve_left hfraction
    rw [if_neg hfraction, Option.bind_none, hkept]
    rw [hkept] at hedge
    exact truncated?_eq_int64? hedge

/-- No character of a literal is a blank, or separates an exponent. -/
theorem plain_of_mem_chars {c : Char} (h : c ∈ m.chars) : Text.isBlank c = false ∧ c ≠ 'e' := by
  unfold chars tail at h
  rcases List.mem_append.1 h with hsign | hnumber
  · rcases List.mem_cons.1 m.isSign with hnone | hsome
    · rw [hnone] at hsign
      cases hsign
    · rcases List.mem_pair.1 hsome with hminus | hplus
      · rw [hminus] at hsign
        rw [List.mem_singleton.1 hsign]
        decide
      · rw [hplus] at hsign
        rw [List.mem_singleton.1 hsign]
        decide
  · rcases List.mem_append.1 hnumber with hwhole | htail
    · exact plain_of_isDigit (m.wholeDigits c hwhole)
    · split at htail
      · cases htail
      · rcases List.mem_cons.1 htail with rfl | hfraction
        · decide
        · exact plain_of_isDigit (m.fractionDigits c hfraction)

/-! ## Exponents -/

/-- The text of a literal with an exponent. -/
def withExponent (m : Written) (digits : List Char) : List Char := m.chars ++ 'e' :: digits

/-- The two halves of the text. -/
theorem halves_withExponent {digits : List Char} (hdigits : ∀ c ∈ digits, c.isDigit = true) :
    Text.splitOnChar 'e' (Text.trim (m.withExponent digits)) = [m.chars, digits] := by
  have htrim : Text.trim (m.withExponent digits) = m.withExponent digits := by
    apply Text.trim_of_forall
    intro c hc
    rcases List.mem_append.1 hc with hc | hc
    · exact (m.plain_of_mem_chars hc).1
    · rcases List.mem_cons.1 hc with rfl | hc
      · decide
      · exact isBlank_of_isDigit (hdigits c hc)
  rw [htrim]
  unfold withExponent
  rw [Text.splitOnChar_append,
    Text.splitOnChar_of_not_mem fun he => (m.plain_of_mem_chars he).2 rfl,
    Text.splitOnChar_of_not_mem fun he => (plain_of_isDigit (hdigits _ he)).2 rfl]
  rfl

/-- The mantissa that is kept is multiplied with the power of ten. -/
theorem int?_withExponent (hedge : m.fraction = [] ∨ m.kept ≠ -2 ^ 63) {digits : List Char}
    (hne : digits ≠ []) (hdigits : ∀ c ∈ digits, c.isDigit = true)
    (hzero : m.kept ≠ 0 ∨ ofDigits digits ≤ 18) :
    int? (m.withExponent digits) = int64? (m.kept * 10 ^ ofDigits digits) := by
  have hmantissa : plainInt? (Text.trim m.chars) = int64? m.kept := by
    rw [Text.trim_of_forall fun c hc => (m.plain_of_mem_chars hc).1]
    exact m.plainInt?_chars hedge
  have hexponent : plainInt? (Text.trim digits) = int64? (ofDigits digits) := by
    have hrow : (ofRow digits hne hdigits).chars = digits := List.append_nil digits
    have hread := (ofRow digits hne hdigits).plainInt?_chars (.inl rfl)
    rw [hrow] at hread
    rw [Text.trim_of_forall fun c hc => isBlank_of_isDigit (hdigits c hc)]
    exact hread
  exact int?_of_halves (m.halves_withExponent hdigits) hmantissa hexponent hzero

end Written

end Number

namespace Value

open Number

/-- A text is read as a whole number if 64 bits hold it, and else it is an error. -/
def ReadsAs (text : String) (z : ℤ) : Prop :=
  (∀ n : Int64, n.toInt = z → parse (.scalar .int) text = .ok (.int n)) ∧
    ((∀ n : Int64, n.toInt ≠ z) →
      parse (.scalar .int) text = .error (.uninterpretable text (.scalar .int)))

theorem readsAs_of_int? {s : List Char} {z : ℤ} (h : int? s = int64? z) :
    ReadsAs (String.ofList s) z := by
  have hread : parseInt? (String.ofList s) = int64? z := by
    unfold parseInt?
    rw [String.toList_ofList, h]
  unfold ReadsAs parse
  simp only [hread]
  constructor
  · intro n hn
    rw [int64?_eq_some_iff.2 hn]
    rfl
  · intro hnone
    have hfits : int64? z = none :=
      Option.eq_none_iff_forall_ne_some.2 fun n hn => hnone n (int64?_eq_some_iff.1 hn)
    rw [hfits]
    rfl

/-- **An integer with an exponent is its mantissa, as far as that is kept, times the power of ten.**
It is an error if the product does not fit; it never wraps. -/
theorem parse_exponentForm (m : Written) (hedge : m.fraction = [] ∨ m.kept ≠ -2 ^ 63)
    {digits : List Char} (hne : digits ≠ []) (hdigits : ∀ c ∈ digits, c.isDigit = true)
    (hzero : m.kept ≠ 0 ∨ ofDigits digits ≤ 18) :
    ReadsAs (String.ofList (m.withExponent digits)) (m.kept * 10 ^ ofDigits digits) :=
  readsAs_of_int? (m.int?_withExponent hedge hne hdigits hzero)

/-- Two and a half, negative. -/
def exampleHalves : Written where
  sign := ['-']
  whole := ['2']
  fraction := ['5']
  isSign := by decide
  hasDigits := by decide
  wholeDigits := List.forall_mem_singleton.2 rfl
  fractionDigits := List.forall_mem_singleton.2 rfl

theorem parse_exponentForm_exampleHalves :
    (exampleHalves.fraction = [] ∨ exampleHalves.kept ≠ -2 ^ 63) ∧ ['3'] ≠ [] ∧
      (∀ c ∈ ['3'], c.isDigit = true) ∧ (exampleHalves.kept ≠ 0 ∨ ofDigits ['3'] ≤ 18) ∧
      parse (.scalar .int) "-2.5e3" = .ok (.int (-2000)) := by
  have hkept : exampleHalves.kept = -2 := by decide +kernel
  have hedge : exampleHalves.fraction = [] ∨ exampleHalves.kept ≠ -2 ^ 63 :=
    .inr (by rw [hkept]; norm_num)
  have hzero : exampleHalves.kept ≠ 0 ∨ ofDigits ['3'] ≤ 18 := .inr (by decide)
  have hdigits : ∀ c ∈ ['3'], c.isDigit = true := List.forall_mem_singleton.2 rfl
  have hread := parse_exponentForm exampleHalves hedge (List.cons_ne_nil _ _) hdigits hzero
  rw [hkept] at hread
  exact ⟨hedge, List.cons_ne_nil _ _, hdigits, hzero, hread.1 (-2000) (by decide)⟩

/-- A number is cut off toward zero. -/
def towardZero (q : ℚ) : ℤ := if 0 ≤ q then ⌊q⌋ else ⌈q⌉

/-- A fraction is lost before the mantissa is multiplied: `-2.5e1` is read as `-20`. -/
theorem not_parse_exact :
    ¬ ∀ (m : Written) (digits : List Char), digits ≠ [] → (∀ c ∈ digits, c.isDigit = true) →
      ReadsAs (String.ofList (m.withExponent digits))
        (towardZero (m.value * 10 ^ ofDigits digits)) := by
  intro hexact
  have hread := hexact exampleHalves ['1'] (List.cons_ne_nil _ _) (List.forall_mem_singleton.2 rfl)
  have hvalue : towardZero (exampleHalves.value * 10 ^ ofDigits ['1']) = -25 := by decide +kernel
  have hint : int? (exampleHalves.withExponent ['1']) = int64? (-20) := by decide +kernel
  have hcut := readsAs_of_int? hint
  rw [hvalue] at hread
  have hboth := (hread.1 (-25) (by decide)).symm.trans (hcut.1 (-20) (by decide))
  cases hboth

end Value

end SpecTree
