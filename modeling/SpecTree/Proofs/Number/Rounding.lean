import Mathlib.Algebra.Order.Field.Power
import Mathlib.Algebra.Order.Floor.Semifield
import Mathlib.Data.Int.Log
import Mathlib.Data.Rat.Floor
import Mathlib.Tactic.Linarith
import Mathlib.Tactic.Positivity
import SpecTree.Number.Literal
import SpecTree.Proofs.Number.Bits

/-!
# Rounding to doubles

The double that is nearest to a number, as an exact number. Main statements:

* `abs_sub_rounded_le`: no double is nearer;
* `roundDiv_eq`, `lastPlace_eq`: what is computed with whole numbers, in terms of their quotient;
* `truncate?_nearest`: the integer part of the nearest double;
* `Decimal.truncate?_toFloat`: the integer part of a decimal literal.
-/

namespace SpecTree.Number

/-! ## Whole numbers -/

/-- The whole number that is nearest to a number; of two, the even one. -/
def roundEven (q : ℚ) : ℤ :=
  if 2 * Int.fract q < 1 then ⌊q⌋
  else if 1 < 2 * Int.fract q then ⌊q⌋ + 1
  else ⌊q⌋ + ⌊q⌋ % 2

theorem floor_le_roundEven (q : ℚ) : ⌊q⌋ ≤ roundEven q := by
  unfold roundEven
  split
  · omega
  · split <;> omega

theorem roundEven_le_floor_add_one (q : ℚ) : roundEven q ≤ ⌊q⌋ + 1 := by
  unfold roundEven
  split
  · omega
  · split <;> omega

theorem le_roundEven {n : ℤ} {q : ℚ} (h : n ≤ q) : n ≤ roundEven q :=
  (Int.le_floor.2 h).trans (floor_le_roundEven q)

theorem roundEven_le {n : ℤ} {q : ℚ} (h : q ≤ n) : roundEven q ≤ n := by
  rcases h.lt_or_eq with hlt | rfl
  · have hfloor : ⌊q⌋ < n := Int.floor_lt.2 hlt
    have hround := roundEven_le_floor_add_one q
    omega
  · -- a whole number is rounded to itself
    unfold roundEven
    rw [Int.fract_intCast, Int.floor_intCast, if_pos (by norm_num)]

/-- No whole number is nearer. -/
theorem abs_sub_roundEven_le (q : ℚ) (n : ℤ) : |q - roundEven q| ≤ |q - n| := by
  have hlow := Int.fract_nonneg q
  have hhigh := Int.fract_lt_one q
  have hsplit := Int.floor_add_fract q
  -- an integer is below or above, and no nearer than the neighbour on its side:
  have hother : min (Int.fract q) (1 - Int.fract q) ≤ |q - n| := by
    rcases le_or_gt n ⌊q⌋ with hbelow | habove
    · have hn : (n : ℚ) ≤ ⌊q⌋ := Int.cast_le.2 hbelow
      rw [abs_of_nonneg (by linarith)]
      exact (min_le_left _ _).trans (by linarith)
    · have hn : ((⌊q⌋ + 1 : ℤ) : ℚ) ≤ n := Int.cast_le.2 habove
      push_cast at hn
      rw [abs_of_neg (by linarith)]
      exact (min_le_right _ _).trans (by linarith)
  refine le_trans ?_ hother
  rw [le_min_iff]
  unfold roundEven
  split
  · rw [abs_of_nonneg (by linarith)]
    constructor <;> linarith
  · split
    · push_cast
      rw [abs_of_neg (by linarith)]
      constructor <;> linarith
    · -- in the middle both neighbours are as near
      rcases Int.emod_two_eq_zero_or_one ⌊q⌋ with hparity | hparity <;> rw [hparity] <;> push_cast
      · rw [abs_of_nonneg (by linarith)]
        constructor <;> linarith
      · rw [abs_of_neg (by linarith)]
        constructor <;> linarith

/-- Whole numbers are divided and rounded with their remainder. -/
theorem roundDiv_eq (num : ℕ) {den : ℕ} (hden : 0 < den) :
    (roundDiv num den : ℤ) = roundEven (num / den) := by
  have hpos : (0 : ℚ) < den := Nat.cast_pos.2 hden
  have hfloor : ⌊(num / den : ℚ)⌋ = (num / den : ℕ) := by
    rw [Rat.floor_natCast_div_natCast]
    rfl
  have hfract : Int.fract (num / den : ℚ) = (num % den : ℕ) / den := by
    rw [Int.fract, hfloor, eq_div_iff hpos.ne', sub_mul, div_mul_cancel₀ _ hpos.ne']
    have hsplit : (num : ℚ) = den * (num / den : ℕ) + (num % den : ℕ) := by
      exact_mod_cast (Nat.div_add_mod num den).symm
    rw [Int.cast_natCast]
    linarith
  -- the rule compares twice the remainder with the divisor:
  have hbelow : 2 * Int.fract (num / den : ℚ) < 1 ↔ 2 * (num % den) < den := by
    rw [hfract, ← mul_div_assoc, div_lt_one hpos]
    exact_mod_cast Iff.rfl
  have habove : 1 < 2 * Int.fract (num / den : ℚ) ↔ den < 2 * (num % den) := by
    rw [hfract, ← mul_div_assoc, one_lt_div hpos]
    exact_mod_cast Iff.rfl
  unfold roundDiv roundEven
  simp only [hbelow, habove, hfloor]
  split
  · rfl
  · split <;> push_cast <;> rfl

/-! ## Doubles -/

/-- The exponent of the last binary digit of the doubles around a number. -/
def place (q : ℚ) : ℤ := max (Int.log 2 q - 52) (-1074)

/-- A number that is rounded to 53 binary digits, and to none behind the place `2 ^ -1074`: the
double that is nearest to it, if doubles were not bounded. -/
def rounded (q : ℚ) : ℚ := roundEven (q / 2 ^ place q) * 2 ^ place q

/-- Of the two powers in a fraction one is trivial. -/
theorem zpow_eq_div (b : ℚ) (z : ℤ) : b ^ z = b ^ z.toNat / b ^ (-z).toNat := by
  rcases Int.le_total 0 z with h | h
  · have hneg : (-z).toNat = 0 := by omega
    rw [hneg, pow_zero, div_one, ← zpow_natCast, Int.toNat_of_nonneg h]
  · have hpos : z.toNat = 0 := by omega
    rw [hpos, pow_zero, one_div, ← zpow_natCast, Int.toNat_of_nonneg (by omega), zpow_neg, inv_inv]

/-- The powers of two above another are its multiples. -/
theorem exists_natPow_mul_zpow {i j : ℤ} (h : i ≤ j) : ∃ n : ℕ, (2 : ℚ) ^ n * 2 ^ i = 2 ^ j := by
  obtain ⟨n, hn⟩ := Int.eq_ofNat_of_zero_le (sub_nonneg.2 h)
  refine ⟨n, ?_⟩
  rw [← zpow_natCast, ← hn, ← zpow_add₀ two_ne_zero, sub_add_cancel]

theorem zpow_log_le {q : ℚ} (hq : 0 < q) : (2 : ℚ) ^ Int.log 2 q ≤ q := by
  exact_mod_cast Int.zpow_log_le_self Nat.one_lt_two hq

theorem le_log {q : ℚ} {z : ℤ} (hq : 0 < q) (h : 2 ^ z ≤ q) : z ≤ Int.log 2 q :=
  (Int.zpow_le_iff_le_log Nat.one_lt_two hq).1 (by exact_mod_cast h)

theorem log_eq {q : ℚ} {z : ℤ} (hlow : 2 ^ z ≤ q) (hhigh : q < 2 ^ (z + 1)) : Int.log 2 q = z := by
  have hpos : 0 < q := lt_of_lt_of_le (by positivity) hlow
  have hle : z ≤ Int.log 2 q := le_log hpos hlow
  have hlt : Int.log 2 q < z + 1 :=
    (Int.lt_zpow_iff_log_lt Nat.one_lt_two hpos).1 (by exact_mod_cast hhigh)
  omega

/-- The binary digits of the two parts of a fraction tell its size up to one digit. -/
theorem log_div_bounds {num den : ℕ} (hnum : 0 < num) (hden : 0 < den) :
    (2 : ℚ) ^ ((num.log2 : ℤ) - den.log2 - 1) ≤ num / den ∧
      (num / den : ℚ) < 2 ^ ((num.log2 : ℤ) - den.log2 + 1) := by
  have hpos : (0 : ℚ) < den := Nat.cast_pos.2 hden
  -- numerator and denominator lie between two powers each:
  have hnumLow : (2 : ℚ) ^ (num.log2 : ℤ) ≤ num := by
    exact_mod_cast Nat.log2_self_le hnum.ne'
  have hnumHigh : (num : ℚ) < 2 ^ ((num.log2 : ℤ) + 1) := by
    exact_mod_cast (Nat.lt_log2_self : num < 2 ^ (num.log2 + 1))
  have hdenLow : (2 : ℚ) ^ (den.log2 : ℤ) ≤ den := by
    exact_mod_cast Nat.log2_self_le hden.ne'
  have hdenHigh : (den : ℚ) ≤ 2 ^ ((den.log2 : ℤ) + 1) := by
    exact_mod_cast (Nat.lt_log2_self : den < 2 ^ (den.log2 + 1)).le
  constructor
  · rw [le_div_iff₀ hpos]
    calc (2 : ℚ) ^ ((num.log2 : ℤ) - den.log2 - 1) * den
        ≤ 2 ^ ((num.log2 : ℤ) - den.log2 - 1) * 2 ^ ((den.log2 : ℤ) + 1) := by gcongr
      _ = 2 ^ (num.log2 : ℤ) := by
          rw [← zpow_add₀ two_ne_zero]
          congr 1
          omega
      _ ≤ num := hnumLow
  · rw [div_lt_iff₀ hpos]
    calc (num : ℚ) < 2 ^ ((num.log2 : ℤ) + 1) := hnumHigh
      _ = 2 ^ ((num.log2 : ℤ) - den.log2 + 1) * 2 ^ (den.log2 : ℤ) := by
          rw [← zpow_add₀ two_ne_zero]
          congr 1
          omega
      _ ≤ 2 ^ ((num.log2 : ℤ) - den.log2 + 1) * den := by gcongr

theorem lastPlace_eq {num den : ℕ} (hnum : 0 < num) (hden : 0 < den) :
    lastPlace num den = place (num / den) := by
  have hpos : (0 : ℚ) < den := Nat.cast_pos.2 hden
  obtain ⟨hlow, hhigh⟩ := log_div_bounds hnum hden
  unfold lastPlace place powerOfTwo
  simp only [Nat.pow_eq]
  generalize hestimate : Int.ofNat num.log2 - Int.ofNat den.log2 = estimate
  have hestimate : (num.log2 : ℤ) - den.log2 = estimate := hestimate
  rw [hestimate] at hlow hhigh
  have htooHigh : num * 2 ^ (-estimate).toNat < den * 2 ^ estimate.toNat ↔
      (num / den : ℚ) < 2 ^ estimate := by
    rw [zpow_eq_div, div_lt_div_iff₀ hpos (by positivity), mul_comm (2 ^ estimate.toNat : ℚ)]
    exact_mod_cast Iff.rfl
  rw [if_congr htooHigh rfl rfl]
  split
  · next hless =>
    have hlog : Int.log 2 (num / den : ℚ) = estimate - 1 := log_eq hlow (by rwa [sub_add_cancel])
    rw [hlog]
  · next hmore =>
    have hlog : Int.log 2 (num / den : ℚ) = estimate := log_eq (not_lt.1 hmore) hhigh
    rw [hlog]

/-- The mantissas of doubles have 53 binary digits; only at the last place of all they have less. -/
theorem mantissa_bounds {q : ℚ} (hq : 0 < q) :
    roundEven (q / 2 ^ place q) ≤ 2 ^ 53 ∧
      (2 ^ 52 ≤ roundEven (q / 2 ^ place q) ∨ place q = -1074) := by
  have hpos : (0 : ℚ) < 2 ^ place q := by positivity
  have hhigh : q < 2 ^ (Int.log 2 q + 1) := by
    exact_mod_cast Int.lt_zpow_succ_log_self Nat.one_lt_two q
  constructor
  · apply roundEven_le
    rw [div_le_iff₀ hpos]
    calc q ≤ 2 ^ (Int.log 2 q + 1) := hhigh.le
      _ ≤ 2 ^ (53 + place q) := by
          apply zpow_le_zpow_right₀ one_le_two
          unfold place
          omega
      _ = ((2 ^ 53 : ℤ) : ℚ) * 2 ^ place q := by
          rw [zpow_add₀ two_ne_zero]
          norm_num
  · -- the mantissa has all its digits, unless the place is the last one:
    rcases le_total (Int.log 2 q - 52) (-1074) with hsmall | hnormal
    · exact .inr (max_eq_right hsmall)
    · left
      apply le_roundEven
      have hplace : place q = Int.log 2 q - 52 := max_eq_left hnormal
      rw [le_div_iff₀ hpos]
      calc ((2 ^ 52 : ℤ) : ℚ) * 2 ^ place q = 2 ^ (52 + place q) := by
            rw [zpow_add₀ two_ne_zero]
            norm_num
        _ = 2 ^ Int.log 2 q := by
            congr 1
            omega
        _ ≤ q := zpow_log_le hq

/-- **No double is nearer to a number than the rounded number.** -/
theorem abs_sub_rounded_le {q : ℚ} (hq : 0 < q) {m e : ℤ} (hm : |m| < 2 ^ 53) (he : -1074 ≤ e) :
    |q - rounded q| ≤ |q - m * 2 ^ e| := by
  have hpos : (0 : ℚ) < 2 ^ place q := by positivity
  -- among the multiples of the last place no one is nearer
  have hgrid : ∀ n : ℤ, |q - rounded q| ≤ |q - n * 2 ^ place q| := by
    intro n
    have hscaled : ∀ x : ℚ, |q - x * 2 ^ place q| = |q / 2 ^ place q - x| * 2 ^ place q := by
      intro x
      rw [← abs_of_pos hpos, ← abs_mul, abs_of_pos hpos, sub_mul, div_mul_cancel₀ _ hpos.ne']
    unfold rounded
    rw [hscaled, hscaled]
    exact mul_le_mul_of_nonneg_right (abs_sub_roundEven_le _ n) hpos.le
  rcases le_or_gt (place q) e with habove | hbelow
  · obtain ⟨k, hk⟩ := exists_natPow_mul_zpow habove
    have hmultiple : (m : ℚ) * 2 ^ e = ((m * 2 ^ k : ℤ) : ℚ) * 2 ^ place q := by
      push_cast
      rw [mul_assoc, hk]
    rw [hmultiple]
    exact hgrid _
  · -- a double with a smaller last place is below the power of two that is below the number
    have hlow := zpow_log_le hq
    have hplace : place q = Int.log 2 q - 52 := by
      unfold place at hbelow ⊢
      omega
    have hpower : ((2 ^ 52 : ℤ) : ℚ) * 2 ^ place q = 2 ^ Int.log 2 q := by
      have hsum : Int.log 2 q = 52 + place q := by omega
      rw [hsum, zpow_add₀ two_ne_zero]
      norm_num
    have hsmall : (m : ℚ) * 2 ^ e ≤ 2 ^ Int.log 2 q := by
      have hm' : (m : ℚ) ≤ 2 ^ (53 : ℤ) := by exact_mod_cast (lt_of_abs_lt hm).le
      calc (m : ℚ) * 2 ^ e ≤ 2 ^ (53 : ℤ) * 2 ^ e := by gcongr
        _ = 2 ^ (53 + e) := (zpow_add₀ two_ne_zero _ _).symm
        _ ≤ 2 ^ Int.log 2 q := zpow_le_zpow_right₀ one_le_two (by omega)
    calc |q - rounded q| ≤ |q - ((2 ^ 52 : ℤ) : ℚ) * 2 ^ place q| := hgrid _
      _ = q - 2 ^ Int.log 2 q := by rw [hpower, abs_of_nonneg (by linarith)]
      _ ≤ q - m * 2 ^ e := by linarith
      _ ≤ |q - m * 2 ^ e| := le_abs_self _

/-- The exact value of bits, also if the mantissa was rounded up to the next power of two. -/
theorem binary?_ofBits_of_le {exponent mantissa : ℕ} (hhigh : mantissa ≤ 2 ^ 53)
    (hlow : 2 ^ 52 ≤ mantissa ∨ exponent = 0) (h : exponent * 2 ^ 52 + mantissa < infinityBits)
    (negative : Bool) :
    ∃ b, binary? (signed negative (Float.ofBits (UInt64.ofNat (exponent * 2 ^ 52 + mantissa)))) =
      some b ∧ b.negative = negative ∧
        (b.mantissa : ℚ) * 2 ^ b.exponent = mantissa * 2 ^ ((exponent : ℤ) - 1074) := by
  rcases hhigh.lt_or_eq with hlt | rfl
  · exact ⟨_, binary?_ofBits hlt hlow h negative, rfl, rfl⟩
  · have hcarry : exponent * 2 ^ 52 + 2 ^ 53 = (exponent + 1) * 2 ^ 52 + 2 ^ 52 := by ring
    rw [hcarry] at h ⊢
    refine ⟨_, binary?_ofBits (by norm_num) (.inl le_rfl) h negative, rfl, ?_⟩
    have hexponent : ((exponent + 1 : ℕ) : ℤ) - 1074 = exponent - 1074 + 1 := by omega
    dsimp only
    rw [hexponent, zpow_add_one₀ two_ne_zero]
    push_cast
    ring

/-- Beyond the bits of infinity there are large numbers only. -/
theorem le_of_infinityBits_le {exponent mantissa : ℕ} (hhigh : mantissa ≤ 2 ^ 53)
    (hlow : 2 ^ 52 ≤ mantissa ∨ exponent = 0)
    (h : infinityBits ≤ exponent * 2 ^ 52 + mantissa) :
    (2 : ℚ) ^ 1023 ≤ mantissa * 2 ^ ((exponent : ℤ) - 1074) := by
  have hbits : 2047 * 2 ^ 52 ≤ exponent * 2 ^ 52 + mantissa := h
  have hnormal : 2 ^ 52 ≤ mantissa := hlow.resolve_right (by omega)
  have hexponent : (971 : ℤ) ≤ (exponent : ℤ) - 1074 := by omega
  calc (2 : ℚ) ^ 1023 = 2 ^ 52 * (2 : ℚ) ^ (971 : ℤ) := by rw [zpow_ofNat, ← pow_add]
    _ ≤ (mantissa : ℚ) * 2 ^ ((exponent : ℤ) - 1074) := by
        gcongr
        · exact_mod_cast hnormal
        · exact one_le_two

/-- The mantissa that is computed for a fraction. -/
theorem roundDiv_scaled (num : ℕ) {den : ℕ} (hden : 0 < den) (p : ℤ) :
    (roundDiv (num * 2 ^ (-p).toNat) (den * 2 ^ p.toNat) : ℤ) = roundEven (num / den / 2 ^ p) := by
  have hscaled : ((num * 2 ^ (-p).toNat : ℕ) : ℚ) / (den * 2 ^ p.toNat : ℕ) =
      num / den / 2 ^ p := by
    have hdenPos : (0 : ℚ) < den := Nat.cast_pos.2 hden
    rw [zpow_eq_div 2 p]
    push_cast
    field_simp
  rw [roundDiv_eq _ (Nat.mul_pos hden (Nat.two_pow_pos p.toNat)), hscaled]

/-- The double that is computed for a fraction is the fraction, rounded. If it is infinite, the
fraction is beyond all doubles. -/
theorem nearest_cases {num den : ℕ} (hnum : 0 < num) (hden : 0 < den) (negative : Bool) :
    (∃ b, binary? (signed negative (nearest num den)) = some b ∧ b.negative = negative ∧
      (b.mantissa : ℚ) * 2 ^ b.exponent = rounded (num / den)) ∨
    (binary? (signed negative (nearest num den)) = none ∧ 2 ^ 1023 ≤ rounded (num / den)) := by
  have hq : (0 : ℚ) < num / den := div_pos (Nat.cast_pos.2 hnum) (Nat.cast_pos.2 hden)
  obtain ⟨hhigh, hlow⟩ := mantissa_bounds hq
  obtain ⟨exponent, hexponent⟩ : ∃ exponent : ℕ, place (num / den) + 1074 = exponent := by
    have hplace : -1074 ≤ place (num / den) := le_max_right _ _
    exact Int.eq_ofNat_of_zero_le (by omega)
  have hmantissa := roundDiv_scaled num hden (place (num / den))
  unfold nearest
  rw [if_neg hnum.ne', lastPlace_eq hnum hden]
  dsimp only
  unfold rounded powerOfTwo
  simp only [Nat.pow_eq]
  rw [hexponent, Int.toNat_natCast]
  generalize place (num / den) = p at *
  generalize roundDiv (num * 2 ^ (-p).toNat) (den * 2 ^ p.toNat) = mantissa at *
  have hp : p = exponent - 1074 := by omega
  rw [← hmantissa] at hhigh hlow ⊢
  rw [hp, Int.cast_natCast]
  -- from here on it is about natural numbers:
  have hhigh : mantissa ≤ 2 ^ 53 := by exact_mod_cast hhigh
  have hlow : 2 ^ 52 ≤ mantissa ∨ exponent = 0 := by
    rcases hlow with hnormal | hlast
    · exact .inl (by exact_mod_cast hnormal)
    · exact .inr (by omega)
  -- the bits are those of a double, or reach those of infinity:
  rcases Nat.lt_or_ge (exponent * 2 ^ 52 + mantissa) infinityBits with hfinite | hinfinite
  · left
    rw [Nat.min_eq_left hfinite.le]
    exact binary?_ofBits_of_le hhigh hlow hfinite negative
  · right
    rw [Nat.min_eq_right hinfinite]
    exact ⟨binary?_infinity negative, le_of_infinityBits_le hhigh hlow hinfinite⟩

/-! ## Powers of two are kept -/

theorem le_rounded {j : ℤ} {q : ℚ} (hj : -1074 ≤ j) (h : 2 ^ j ≤ q) : 2 ^ j ≤ rounded q := by
  have hq : 0 < q := lt_of_lt_of_le (by positivity) h
  have hlog : j ≤ Int.log 2 q := le_log hq h
  have hplace : place q ≤ Int.log 2 q := by
    unfold place
    omega
  obtain ⟨n, hn⟩ := exists_natPow_mul_zpow hplace
  have hround : (2 ^ n : ℤ) ≤ roundEven (q / 2 ^ place q) := by
    apply le_roundEven
    rw [le_div_iff₀ (by positivity)]
    push_cast
    rw [hn]
    exact zpow_log_le hq
  have hround : (2 : ℚ) ^ n ≤ roundEven (q / 2 ^ place q) := by exact_mod_cast hround
  calc (2 : ℚ) ^ j ≤ 2 ^ Int.log 2 q := zpow_le_zpow_right₀ one_le_two hlog
    _ = 2 ^ n * 2 ^ place q := hn.symm
    _ ≤ rounded q := by
        unfold rounded
        gcongr

theorem rounded_le {j : ℤ} {q : ℚ} (hj : -1074 ≤ j) (hq : 0 < q) (h : q ≤ 2 ^ j) :
    rounded q ≤ 2 ^ j := by
  have hlog : Int.log 2 q ≤ j := by
    rw [← Int.log_zpow (R := ℚ) Nat.one_lt_two j]
    exact Int.log_mono_right hq (by exact_mod_cast h)
  have hplace : place q ≤ j := by
    unfold place
    omega
  obtain ⟨n, hn⟩ := exists_natPow_mul_zpow hplace
  have hround : roundEven (q / 2 ^ place q) ≤ (2 ^ n : ℤ) := by
    apply roundEven_le
    rw [div_le_iff₀ (by positivity)]
    push_cast
    rwa [hn]
  have hround : (roundEven (q / 2 ^ place q) : ℚ) ≤ 2 ^ n := by exact_mod_cast hround
  rw [← hn]
  unfold rounded
  gcongr

/-! ## Integer parts -/

/-- A whole number with a sign, if it is less than `2 ^ 63`. -/
def truncated? (negative : Bool) (n : ℕ) : Option Int64 :=
  if n < 2 ^ 63 then some (Int64.ofInt (if negative then -n else n)) else none

theorem truncate_eq (b : Binary) : b.truncate =
    if b.negative then -(⌊(b.mantissa : ℚ) * 2 ^ b.exponent⌋₊ : ℤ)
    else ⌊(b.mantissa : ℚ) * 2 ^ b.exponent⌋₊ := by
  have hfloor : b.numerator / b.denominator = ⌊(b.mantissa : ℚ) * 2 ^ b.exponent⌋₊ := by
    rw [zpow_eq_div, ← mul_div_assoc, ← Nat.floor_div_eq_div (K := ℚ)]
    unfold Binary.numerator Binary.denominator powerOfTwo
    push_cast [Nat.pow_eq]
    rfl
  unfold Binary.truncate
  rw [hfloor]

theorem truncate?_of_binary? {x : Float} {b : Binary} (h : binary? x = some b) :
    truncate? x = truncated? b.negative ⌊(b.mantissa : ℚ) * 2 ^ b.exponent⌋₊ := by
  unfold truncate? truncated?
  rw [h, Option.bind_some, truncate_eq]
  cases b.negative <;> simp [powerOfTwo]

theorem truncate?_of_infinite {x : Float} (h : binary? x = none) : truncate? x = none := by
  unfold truncate?
  rw [h]
  rfl

theorem truncated?_of_le {q : ℚ} (h : 2 ^ 63 ≤ q) (negative : Bool) :
    truncated? negative ⌊q⌋₊ = none := by
  apply if_neg
  rw [Nat.not_lt]
  apply Nat.le_floor
  exact_mod_cast h

/-- The integer part of the double that is nearest to a fraction. -/
theorem truncate?_nearest {num den : ℕ} (hnum : 0 < num) (hden : 0 < den) (negative : Bool) :
    truncate? (signed negative (nearest num den)) =
      truncated? negative ⌊rounded (num / den)⌋₊ := by
  rcases nearest_cases hnum hden negative with ⟨b, hb, hsign, hvalue⟩ | ⟨hb, hlarge⟩
  · rw [truncate?_of_binary? hb, hsign, hvalue]
  · have hbeyond : (2 : ℚ) ^ 63 ≤ rounded (num / den) :=
      (pow_le_pow_right₀ one_le_two (by norm_num)).trans hlarge
    rw [truncate?_of_infinite hb, truncated?_of_le hbeyond]

/-! ## Decimal literals -/

namespace Decimal

/-- The absolute value of the number that is written. -/
def magnitude (d : Decimal) : ℚ := d.mantissa * 10 ^ d.exponent

/-- A number has as many digits as the power of ten says that is above it. -/
theorem magnitude_bounds {d : Decimal} (h : d.mantissa ≠ 0) :
    10 ^ ((Nat.toDigits 10 d.mantissa).length + d.exponent - 1) ≤ d.magnitude ∧
      d.magnitude < 10 ^ ((Nat.toDigits 10 d.mantissa).length + d.exponent) := by
  have hpower : (0 : ℚ) < 10 ^ d.exponent := by positivity
  obtain ⟨length, hlength⟩ : ∃ length, (Nat.toDigits 10 d.mantissa).length = length + 1 :=
    Nat.exists_eq_add_one.2 Nat.length_toDigits_pos
  have hhigh : d.mantissa < 10 ^ (length + 1) :=
    (Nat.length_toDigits_le_iff (by norm_num) (Nat.succ_pos length)).1 hlength.le
  have hlow : 10 ^ length ≤ d.mantissa := by
    rcases Nat.eq_zero_or_pos length with rfl | hlength'
    · exact Nat.one_le_iff_ne_zero.2 h
    · by_contra hless
      have := (Nat.length_toDigits_le_iff (by norm_num) hlength').2 (not_le.1 hless)
      omega
  rw [hlength]
  unfold magnitude
  constructor
  · have hexponent : ((length + 1 : ℕ) : ℤ) + d.exponent - 1 = length + d.exponent := by omega
    rw [hexponent, zpow_add₀ (by norm_num), zpow_natCast]
    gcongr
    exact_mod_cast hlow
  · rw [zpow_add₀ (by norm_num), zpow_natCast]
    gcongr
    exact_mod_cast hhigh

/-- A tiny number is rounded to less than one. -/
theorem floor_rounded_magnitude {d : Decimal}
    (h : d.mantissa = 0 ∨ (Nat.toDigits 10 d.mantissa).length + d.exponent < -330) :
    ⌊rounded d.magnitude⌋₊ = 0 := by
  apply Nat.floor_eq_zero.2
  by_cases hnone : d.mantissa = 0
  · simp [magnitude, hnone, rounded, roundEven]
  · have htiny := h.resolve_left hnone
    obtain ⟨hlow, hhigh⟩ := magnitude_bounds hnone
    have hpos : 0 < d.magnitude := lt_of_lt_of_le (by positivity) hlow
    have hhalf : d.magnitude ≤ 2 ^ (-1 : ℤ) :=
      calc d.magnitude ≤ 10 ^ ((Nat.toDigits 10 d.mantissa).length + d.exponent) := hhigh.le
        _ ≤ 10 ^ (-1 : ℤ) := zpow_le_zpow_right₀ (by norm_num) (by omega)
        _ ≤ 2 ^ (-1 : ℤ) := by norm_num
    exact lt_of_le_of_lt (rounded_le (by norm_num) hpos hhalf) (by norm_num)

/-- A huge number is rounded to one that is too large for an integer. -/
theorem le_rounded_magnitude {d : Decimal} (hnone : d.mantissa ≠ 0)
    (h : 310 < (Nat.toDigits 10 d.mantissa).length + d.exponent) :
    (2 : ℚ) ^ 63 ≤ rounded d.magnitude := by
  have hlow := (magnitude_bounds hnone).1
  have hround : (2 : ℚ) ^ (63 : ℤ) ≤ rounded d.magnitude := by
    apply le_rounded (by norm_num)
    calc (2 : ℚ) ^ (63 : ℤ) ≤ 10 ^ (63 : ℤ) := by norm_num
      _ ≤ 10 ^ ((Nat.toDigits 10 d.mantissa).length + d.exponent - 1) :=
          zpow_le_zpow_right₀ (by norm_num) (by omega)
      _ ≤ d.magnitude := hlow
  exact_mod_cast hround

/-- The whole numbers whose quotient is rounded. -/
theorem magnitude_eq_div (d : Decimal) :
    ((d.mantissa * powerOfTen d.exponent.toNat : ℕ) : ℚ) / (powerOfTen (-d.exponent).toNat : ℕ) =
      d.magnitude := by
  rw [magnitude, zpow_eq_div 10, ← mul_div_assoc]
  unfold powerOfTen
  push_cast [Nat.pow_eq]
  rfl

/-- The integer part of the double that is read from a decimal literal: the number is rounded to
53 binary digits, and then cut off. -/
theorem truncate?_toFloat (d : Decimal) :
    truncate? d.toFloat = truncated? d.negative ⌊rounded d.magnitude⌋₊ := by
  have hzero : (0 : Float) = Float.ofBits (UInt64.ofNat (0 * 2 ^ 52 + 0)) := by decide +kernel
  have hinfinity : (1 / 0 : Float) = Float.ofBits (UInt64.ofNat infinityBits) := by decide +kernel
  show truncate? (signed d.negative _) = _
  split
  · next hsmall =>
    have hread : truncate? (signed d.negative 0) = truncated? d.negative 0 := by
      rw [hzero, truncate?_of_binary? (binary?_ofBits (by norm_num) (.inr rfl) (by decide) _)]
      simp
    rw [hread, floor_rounded_magnitude hsmall]
  · next hsome =>
    have hmantissa : d.mantissa ≠ 0 := fun hnone => hsome (.inl hnone)
    split
    · next hlarge =>
      rw [hinfinity, truncate?_of_infinite (binary?_infinity d.negative),
        truncated?_of_le (le_rounded_magnitude hmantissa hlarge)]
    · have hpower : ∀ k, 0 < powerOfTen k := fun k => Nat.pow_pos (by norm_num)
      have hnum : 0 < d.mantissa * powerOfTen d.exponent.toNat :=
        Nat.mul_pos (Nat.pos_of_ne_zero hmantissa) (hpower _)
      rw [truncate?_nearest hnum (hpower _), magnitude_eq_div]

end Decimal

end SpecTree.Number
