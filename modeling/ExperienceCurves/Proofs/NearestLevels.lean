import ExperienceCurves.Proofs.DragFailures
import Mathlib.Data.Rat.Floor

/-!
Levels rounded half upward. A level is rounded by adding a half and cutting off, and the addition is
rounded itself. As long as there are binary numbers halfway between whole numbers, this makes a
difference for one level only, the greatest one below a half.
-/
namespace ExperienceCurves

-- Powers of whole numbers are those of the core library, whatever else is imported.
attribute [local instance (high)] instPowNat

namespace Binary64

/-- The greatest number below a half. -/
def belowHalf : Binary64 := finite false (2 ^ (fractionBits + 1) - 1) (-54) (by decide)

theorem toRat_half : (decimal 5 1).toRat = 1 / 2 := by decide +kernel

/-- A finite number as a whole number of units. -/
theorem exists_units {x : Binary64} (hx : x.isFinite = true) :
    ∃ n k : Int, n.natAbs < 2 ^ (fractionBits + 1) ∧ -1074 ≤ k ∧ k ≤ 971 ∧
      x.toRat = n * (2 : Rat) ^ k ∧
      (n = 2 ^ (fractionBits + 1) - 1 → k = -54 → x = belowHalf) := by
  cases x with
  | nan => cases hx
  | infinite negative => cases hx
  | finite negative mantissa exponent hcanonical =>
    obtain ⟨hmantissa, hlow, hhigh, -⟩ := id hcanonical
    cases negative with
    | false =>
      refine ⟨mantissa, exponent, hmantissa, hlow, hhigh, scaled_eq mantissa exponent, ?_⟩
      rintro hfull rfl
      obtain rfl : mantissa = 2 ^ (fractionBits + 1) - 1 := by
        have hwidth : fractionBits = 52 := rfl
        rw [hwidth] at hfull ⊢
        omega
      rfl
    | true =>
      refine ⟨-mantissa, exponent, by rwa [Int.natAbs_neg], hlow, hhigh, ?_, ?_⟩
      · change -scaled mantissa exponent = _
        rw [scaled_eq]
        push_cast
        rw [neg_mul]
      · intro hfull
        have hpositive : (0 : Int) < 2 ^ (fractionBits + 1) - 1 := by decide
        omega

variable {x : Binary64}

/-- What is below the next whole number stays below it, if a number of the format is between. -/
theorem floor_add_half_of_le (hx : x.isFinite = true) (hsmall : |x.toRat| < 2 ^ 52) {z : Rat}
    (hz : Exact z) (hle : x.toRat + 1 / 2 ≤ z) (hlt : z < ((x.toRat + 1 / 2).floor : Rat) + 1) :
    (x + decimal 5 1).toRat.floor = (x.toRat + 1 / 2).floor := by
  obtain ⟨hlow, hhigh⟩ := abs_lt.1 hsmall
  have hfloor : Exact ((x.toRat + 1 / 2).floor : Rat) := by
    have hexact := exact_units (n := (x.toRat + 1 / 2).floor) (k := 0) ?_ (by decide) (by decide)
    · rwa [zpow_zero, mul_one] at hexact
    · have hwidth : fractionBits = 52 := rfl
      have habove : -(2 ^ 52 : Int) ≤ (x.toRat + 1 / 2).floor :=
        Rat.le_floor_iff.2 (by push_cast; linarith)
      have hbelow : (x.toRat + 1 / 2).floor < (2 ^ 52 + 1 : Int) :=
        Rat.floor_lt_iff.2 (by push_cast; linarith)
      rw [hwidth]
      omega
  have hhalf : (decimal 5 1).isFinite = true := by decide +kernel
  have hbetween := between_add hx hhalf hfloor hz
    (by rw [toRat_half]; exact Rat.floor_le _) (by rw [toRat_half]; exact hle)
  apply Int.le_antisymm
  · rw [← Int.lt_add_one_iff, Rat.floor_lt_iff]
    push_cast
    exact hbetween.le_high.trans_lt hlt
  · exact Rat.le_floor_iff.2 hbetween.low_le

/-- Whole numbers are the numbers of the format from which halves can be added exactly. -/
theorem floor_add_half_of_exact (hx : x.isFinite = true) (hsmall : |x.toRat| < 2 ^ 52)
    (hexact : Exact (x.toRat + 1 / 2)) :
    (x + decimal 5 1).toRat.floor = (x.toRat + 1 / 2).floor := by
  refine floor_add_half_of_le hx hsmall hexact le_rfl ?_
  have hlt := Rat.lt_floor_add_one (x.toRat + 1 / 2)
  rwa [Int.cast_add, Int.cast_one] at hlt

/-- A sum with a half, rounded up to units of twice the size, stays below the next whole number. It
would reach it from an odd number of units only, and then the sum would have no more bits than a
mantissa. -/
theorem half_units_lt {n m : Int} {j : ℕ} (hj : j ≤ 53) (hn : n < 2 ^ 53)
    (hlarge : 2 ^ 53 ≤ n + 2 ^ j) (hne : n = 2 ^ 53 - 1 → j ≠ 53)
    (hm : n + 2 ^ j < 2 ^ j * (2 * (m + 1))) : (n + 2 ^ j + 1) / 2 < 2 ^ j * (m + 1) := by
  by_contra hreached
  have hnext : n + 1 = 2 ^ j * (2 * m + 1) := by
    have hdouble : (2 : Int) ^ j * (2 * (m + 1)) = 2 * (2 ^ j * (m + 1)) := by ring
    have hodd : (2 : Int) ^ j * (2 * m + 1) = 2 * (2 ^ j * (m + 1)) - 2 ^ j := by ring
    omega
  rcases hj.lt_or_eq with hless | rfl
  · obtain ⟨i, hi⟩ : ∃ i, 53 = j + (i + 1) := ⟨52 - j, by omega⟩
    have hfull : (2 : Int) ^ 53 = 2 ^ j * (2 * 2 ^ i) := by rw [hi, pow_add, pow_succ']
    have hunit : (0 : Int) < 2 ^ j := by positivity
    have hle : 2 * m + 1 ≤ 2 * 2 ^ i := by
      apply le_of_mul_le_mul_left _ hunit
      rw [← hfull, ← hnext]
      omega
    have hround : (2 : Int) ^ j * (2 * (m + 1)) ≤ 2 ^ j * (2 * 2 ^ i) :=
      mul_le_mul_of_nonneg_left (by omega) hunit.le
    omega
  · omega

/-- A sum of a whole number and a half. -/
theorem exact_whole_add_half {n : Int} (hn : n.natAbs < 2 ^ 52) : Exact ((n : Rat) + 1 / 2) := by
  have hbits : (2 * n + 1).natAbs < 2 ^ (fractionBits + 1) := by
    have hwidth : fractionBits = 52 := rfl
    rw [hwidth]
    omega
  have hexact := exact_units hbits (k := -1) (by decide) (by decide)
  have hsum : ((2 * n + 1 : Int) : Rat) * 2 ^ (-1 : Int) = (n : Rat) + 1 / 2 := by
    push_cast
    rw [zpow_neg_one]
    ring
  rwa [hsum] at hexact

/-- A sum of a fraction and a half, rounded up to units of twice the size. -/
theorem exists_exact_of_le {n m : Int} {j : ℕ} {u : Rat} (hj : j ≤ 53) (hpositive : 0 < u)
    (hu : u * (2 * 2 ^ j) = 1) (hn : n < 2 ^ 53) (hlarge : 2 ^ 53 ≤ n + 2 ^ j)
    (hne : n = 2 ^ 53 - 1 → j ≠ 53) (hlt : ((n + 2 ^ j : Int) : Rat) * u < m + 1) :
    ∃ z, Exact z ∧ ((n + 2 ^ j : Int) : Rat) * u ≤ z ∧ z < m + 1 := by
  have hbits : ((n + 2 ^ j + 1) / 2).natAbs < 2 ^ (fractionBits + 1) := by
    have hwidth : fractionBits = 52 := rfl
    rw [hwidth]
    rcases hj.lt_or_eq with hless | rfl
    · have hunit : (2 : Int) ^ j ≤ 2 ^ 52 := pow_le_pow_right₀ (by decide) (by omega)
      omega
    · omega
  have hscale : (2 : Rat) ^ (-(j : Int)) = 2 * u := by
    rw [zpow_neg, zpow_natCast]
    apply inv_eq_of_mul_eq_one_right
    linarith
  refine ⟨_, exact_units hbits (by omega : -1074 ≤ -(j : Int)) (by omega), ?_, ?_⟩
  · have hround : ((n + 2 ^ j : Int) : Rat) ≤ (((n + 2 ^ j + 1) / 2 : Int) : Rat) * 2 := by
      exact_mod_cast (by omega : n + 2 ^ j ≤ (n + 2 ^ j + 1) / 2 * 2)
    rw [hscale, ← mul_assoc]
    exact mul_le_mul_of_nonneg_right hround hpositive.le
  · have hbelow : n + 2 ^ j < 2 ^ j * (2 * (m + 1)) := by
      have hscaled := mul_lt_mul_of_pos_right hlt (show (0 : Rat) < 2 * 2 ^ j by positivity)
      rw [mul_assoc, hu, mul_one] at hscaled
      have hcast : ((n + 2 ^ j : Int) : Rat) < ((2 ^ j * (2 * (m + 1)) : Int) : Rat) := by
        push_cast at hscaled ⊢
        linarith
      exact_mod_cast hcast
    have hround : (((n + 2 ^ j + 1) / 2 : Int) : Rat) < 2 ^ j * (m + 1) := by
      exact_mod_cast half_units_lt hj hn hlarge hne hbelow
    rw [hscale]
    calc (((n + 2 ^ j + 1) / 2 : Int) : Rat) * (2 * u) < 2 ^ j * (m + 1) * (2 * u) :=
          mul_lt_mul_of_pos_right hround (by positivity)
      _ = u * (2 * 2 ^ j) * (m + 1) := by ring
      _ = m + 1 := by rw [hu, one_mul]

/-- Fractions of so small units are below a quarter. -/
theorem exists_exact_of_gt {n m : Int} {j : ℕ} {u : Rat} (hj : 53 < j) (hpositive : 0 < u)
    (hu : u * (2 * 2 ^ j) = 1) (hn : n < 2 ^ 53) (hm : 0 ≤ m) :
    ∃ z, Exact z ∧ ((n + 2 ^ j : Int) : Rat) * u ≤ z ∧ z < m + 1 := by
  have hthreeQuarters : ((3 : Int) : Rat) * 2 ^ (-2 : Int) = 3 / 4 := by norm_num
  refine ⟨_, exact_units (n := 3) (k := -2) (by decide) (by decide) (by decide), ?_, ?_⟩
  · have hunit : (2 : Rat) ^ 54 ≤ 2 ^ j := pow_le_pow_right₀ (by norm_num) hj
    have hquarter : 2 ^ 53 * u ≤ 1 / 4 := by
      have hscaled := mul_le_mul_of_nonneg_left hunit (show (0 : Rat) ≤ 2 * u by positivity)
      linarith
    have hpart : (n : Rat) * u ≤ 2 ^ 53 * u :=
      mul_le_mul_of_nonneg_right (by exact_mod_cast hn.le) hpositive.le
    rw [hthreeQuarters]
    push_cast
    linarith
  · have hleast : (0 : Rat) ≤ m := by exact_mod_cast hm
    rw [hthreeQuarters]
    linarith

/-- A sum of a fraction and a half, where it has too many bits for a mantissa. -/
theorem exists_exact_above {n : Int} {j : ℕ} {u : Rat} (hu : u * (2 * 2 ^ j) = 1)
    (hn : n < 2 ^ 53) (hlarge : 2 ^ 53 ≤ n + 2 ^ j) (hne : n = 2 ^ 53 - 1 → j ≠ 53) :
    ∃ z, Exact z ∧ ((n + 2 ^ j : Int) : Rat) * u ≤ z ∧
      z < ((((n + 2 ^ j : Int) : Rat) * u).floor : Rat) + 1 := by
  have hpositive : 0 < u := by
    by_contra hneg
    have hproduct := mul_nonpos_of_nonpos_of_nonneg (not_lt.1 hneg)
      (show (0 : Rat) ≤ 2 * 2 ^ j by positivity)
    linarith
  rcases le_or_gt j 53 with hj | hj
  · have hlt := Rat.lt_floor_add_one (((n + 2 ^ j : Int) : Rat) * u)
    rw [Int.cast_add _ 1, Int.cast_one] at hlt
    exact exists_exact_of_le hj hpositive hu hn hlarge hne hlt
  · refine exists_exact_of_gt hj hpositive hu hn (Rat.le_floor_iff.2 ?_)
    have hsum : 0 ≤ n + 2 ^ j := by omega
    rw [Int.cast_zero]
    exact mul_nonneg (Int.cast_nonneg hsum) hpositive.le

/-- Where halves are numbers of the format, a sum with a half is rounded across a whole number in
one case only. -/
theorem floor_add_half (hx : x.isFinite = true) (hsmall : |x.toRat| < 2 ^ 52)
    (hne : x ≠ belowHalf) : (x + decimal 5 1).toRat.floor = (x.toRat + 1 / 2).floor := by
  have hwidth : fractionBits = 52 := rfl
  obtain ⟨n, k, hn, hlow, hhigh, hvalue, hlast⟩ := exists_units hx
  rw [hwidth] at hn hlast
  rcases le_or_gt 0 k with hwhole | hfraction
  · obtain ⟨i, rfl⟩ := Int.eq_ofNat_of_zero_le hwhole
    have hint : x.toRat = ((n * 2 ^ i : Int) : Rat) := by
      rw [hvalue, zpow_natCast]
      push_cast
      rfl
    apply floor_add_half_of_exact hx hsmall
    rw [hint, abs_lt] at hsmall
    rw [hint]
    have hbelow : n * 2 ^ i < 2 ^ 52 := by exact_mod_cast hsmall.2
    have habove : -(2 ^ 52) < n * 2 ^ i := by exact_mod_cast hsmall.1
    exact exact_whole_add_half (by omega)
  · obtain ⟨j, rfl⟩ : ∃ j : ℕ, k = -((j : Int) + 1) := ⟨(-k - 1).toNat, by omega⟩
    have hunit : (2 : Rat) ^ (-((j : Int) + 1)) * (2 * 2 ^ j) = 1 := by
      rw [zpow_neg, zpow_add_one₀ two_ne_zero, zpow_natCast]
      field_simp
    have hsum : x.toRat + 1 / 2 = ((n + 2 ^ j : Int) : Rat) * 2 ^ (-((j : Int) + 1)) := by
      rw [hvalue]
      push_cast
      linarith
    have hnonneg : (0 : Int) ≤ 2 ^ j := by positivity
    rcases lt_or_ge (n + 2 ^ j) (2 ^ 53) with hshort | hlarge
    · apply floor_add_half_of_exact hx hsmall
      rw [hsum]
      exact exact_units (by rw [hwidth]; omega) hlow hhigh
    · obtain ⟨z, hz, hle, hlt⟩ := exists_exact_above hunit (by omega) hlarge
        fun hfull hj => hne (hlast hfull (by omega))
      rw [← hsum] at hle hlt
      exact floor_add_half_of_le hx hsmall hz hle hlt

end Binary64

end ExperienceCurves
