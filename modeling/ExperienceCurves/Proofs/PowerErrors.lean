import ExperienceCurves.Proofs.UnitPowers
import Mathlib.Algebra.Order.Ring.Pow

/-!
Distance of a power from the exact one. The lower end of the bracket loses a tiny part with every
cut, and the exact power lies in the unit that begins below it, or just above that unit's start. So
the power, which is one of the two ends of this unit, is about one unit away from the exact one.
-/
namespace ExperienceCurves

-- Powers of whole numbers are those of the core library, whatever else is imported.
attribute [local instance (high)] instPowNat

open Enclosure Binary64

namespace Enclosure

/-- The part that a cut to so many bits may lose. -/
def loss (bits : Nat) : Rat := (2 : Rat) ^ (1 - (bits : Int))

theorem loss_nonneg (bits : Nat) : 0 ≤ loss bits := by
  unfold loss
  positivity

theorem loss_le_one {bits : Nat} (h : 1 ≤ bits) : loss bits ≤ 1 :=
  zpow_le_one_of_nonpos₀ one_le_two (by omega)

theorem Endpoint.le_toRat_cutDown (bits : Nat) (x : Endpoint) :
    x.toRat * (1 - loss bits) ≤ (x.cutDown bits).toRat := by
  have hloss := loss_nonneg bits
  have hunit : (0 : Rat) < (2 : Rat) ^ x.exponent := by positivity
  have hcut : (x.mantissa : Rat) * (1 - loss bits) ≤
      ((x.mantissa / 2 ^ excess bits x * 2 ^ excess bits x : Nat) : Rat) := by
    by_cases hzero : x.mantissa = 0
    · rw [hzero]
      simp
    · by_cases hfits : excess bits x = 0
      · have hmantissa : (0 : Rat) ≤ x.mantissa := Nat.cast_nonneg _
        rw [hfits, pow_zero, Nat.div_one, mul_one]
        nlinarith
      · have hlead := two_zpow_log2_le hzero
        have hpart : (2 : Rat) ^ excess bits x ≤ x.mantissa * loss bits := by
          have hexponent : (excess bits x : Int) = x.mantissa.log2 + (1 - (bits : Int)) := by
            unfold excess at hfits ⊢
            omega
          rw [loss, ← zpow_natCast, hexponent, zpow_add₀ two_ne_zero]
          gcongr
        have hrest := Nat.lt_div_mul_add (a := x.mantissa) (Nat.two_pow_pos (excess bits x))
        have hcast : (x.mantissa : Rat) <
            ((x.mantissa / 2 ^ excess bits x * 2 ^ excess bits x : Nat) : Rat) +
              2 ^ excess bits x := by exact_mod_cast hrest
        linarith
  unfold toRat cutDown
  dsimp only
  rw [scaled_shift, scaled_eq]
  calc (x.mantissa : Rat) * 2 ^ x.exponent * (1 - loss bits)
      = x.mantissa * (1 - loss bits) * 2 ^ x.exponent := by ring
    _ ≤ _ := mul_le_mul_of_nonneg_right hcut hunit.le

/-- A product that is cut down. -/
theorem Endpoint.le_toRat_cutDown_mul {bits : Nat} (hbits : 1 ≤ bits) (x y : Endpoint) {a b : Rat}
    (hb : 0 ≤ b) (hx : a ≤ x.toRat) (hy : b ≤ y.toRat) :
    a * b * (1 - loss bits) ≤ ((x.mul y).cutDown bits).toRat := by
  have hkept : 0 ≤ 1 - loss bits := sub_nonneg.2 (loss_le_one hbits)
  have hxNonneg := x.toRat_nonneg
  refine le_trans ?_ (Endpoint.le_toRat_cutDown bits _)
  rw [Endpoint.toRat_mul]
  gcongr

/-- Squaring with cuts stays close to the exact power, by induction on the halvings of the
exponent. -/
theorem Bracket.le_power_lower {bits : Nat} (hbits : 1 ≤ bits) (x : Bracket) (n : Nat) :
    x.lower.toRat ^ n * (1 - loss bits) ^ (3 * n - 1) ≤ (power bits x n).lower.toRat := by
  have hkept : 0 ≤ 1 - loss bits := sub_nonneg.2 (loss_le_one hbits)
  have hkeptLe : 1 - loss bits ≤ 1 := sub_le_self 1 (loss_nonneg bits)
  have hbase := x.lower.toRat_nonneg
  induction n using Nat.strong_induction_on with
  | _ n ih =>
    unfold power
    by_cases hzero : n = 0
    · subst hzero
      simp [one, exact, Endpoint.toRat, scaled_eq]
    · rw [if_neg hzero]
      dsimp only
      have hhalf := ih (n / 2) (by omega)
      have hhalfNonneg : 0 ≤ x.lower.toRat ^ (n / 2) * (1 - loss bits) ^ (3 * (n / 2) - 1) := by
        positivity
      have hsquare := Endpoint.le_toRat_cutDown_mul hbits _ _ hhalfNonneg hhalf hhalf
      have hcollect : x.lower.toRat ^ (n / 2) * (1 - loss bits) ^ (3 * (n / 2) - 1) *
          (x.lower.toRat ^ (n / 2) * (1 - loss bits) ^ (3 * (n / 2) - 1)) * (1 - loss bits) =
          x.lower.toRat ^ (n / 2 + n / 2) * (1 - loss bits) ^ (2 * (3 * (n / 2) - 1) + 1) := by
        ring
      rw [hcollect] at hsquare
      split
      · refine le_trans ?_ hsquare
        have hexponent : n / 2 + n / 2 = n := by omega
        rw [hexponent]
        gcongr ?_ * ?_
        exact pow_le_pow_of_le_one hkept hkeptLe (by omega)
      · have hproduct := Endpoint.le_toRat_cutDown_mul hbits _ x.lower hbase hsquare le_rfl
        refine le_trans ?_ hproduct
        have hsplit : x.lower.toRat ^ n = x.lower.toRat ^ (n / 2 + n / 2) * x.lower.toRat := by
          rw [← pow_succ]
          congr 1
          omega
        calc x.lower.toRat ^ n * (1 - loss bits) ^ (3 * n - 1)
            ≤ x.lower.toRat ^ n * (1 - loss bits) ^ (2 * (3 * (n / 2) - 1) + 1 + 1) := by
              gcongr ?_ * ?_
              exact pow_le_pow_of_le_one hkept hkeptLe (by omega)
          _ = x.lower.toRat ^ (n / 2 + n / 2) * (1 - loss bits) ^ (2 * (3 * (n / 2) - 1) + 1) *
              x.lower.toRat * (1 - loss bits) := by
            rw [hsplit]
            ring

/-- With enough bits almost nothing is lost. -/
theorem Bracket.le_power_lower_of_bits {bits n : Nat} (hbits : 128 ≤ bits) (hn : n ≠ 0)
    (x : Bracket) :
    x.lower.toRat ^ n * (1 - 3 * n * (2 : Rat) ^ (-127 : Int)) ≤ (power bits x n).lower.toRat := by
  have hbase := x.lower.toRat_nonneg
  have hloss : loss bits ≤ (2 : Rat) ^ (-127 : Int) := zpow_le_zpow_right₀ one_le_two (by omega)
  have hlossNonneg := loss_nonneg bits
  have hbernoulli := one_add_mul_le_pow (a := -loss bits)
    (by linarith [loss_le_one (by omega : 1 ≤ bits)]) (3 * n - 1)
  refine le_trans ?_ (le_power_lower (by omega) x n)
  gcongr ?_ * ?_
  rw [← sub_eq_add_neg] at hbernoulli
  refine le_trans ?_ hbernoulli
  have hcount : ((3 * n - 1 : Nat) : Rat) ≤ 3 * n := by exact_mod_cast Nat.sub_le (3 * n) 1
  have hproduct : ((3 * n - 1 : Nat) : Rat) * loss bits ≤ 3 * n * (2 : Rat) ^ (-127 : Int) := by
    gcongr
  linarith

end Enclosure

namespace Binary64

variable {mantissa : Nat} {k : Int} {r : Rat} {x y : Binary64} {num den : Nat}

/-- The number of the format that begins the unit in which a number lies. -/
def BeginsUnitOf (r : Rat) (x : Binary64) : Prop :=
  ∃ m e hc, x = finite false m e hc ∧ scaled m e ≤ r ∧ r < scaled (m + 1) e

/-- A mantissa that is cut off begins the unit of the quotient. -/
theorem mantissaAt_div_spec (num : Nat) (hden : den ≠ 0) (exponent : Int) :
    scaled (mantissaAt (fun num den => num / den) num den exponent) exponent ≤ (num : Rat) / den ∧
      (num : Rat) / den <
        scaled (mantissaAt (fun num den => num / den) num den exponent + 1) exponent := by
  have hunit : (0 : Rat) < (2 : Rat) ^ exponent := by positivity
  obtain ⟨top, bottom, hbottom, hmantissa, hquotient⟩ :=
    exists_mantissaAt (fun num den => num / den) num hden exponent
  have hbottomRat : (0 : Rat) < bottom := by exact_mod_cast hbottom
  have hlow := Nat.div_mul_le_self top bottom
  have hhigh := Nat.lt_div_mul_add (a := top) hbottom
  rw [scaled_eq, scaled_eq, hmantissa, hquotient, mul_le_mul_iff_left₀ hunit,
    mul_lt_mul_iff_left₀ hunit, le_div_iff₀ hbottomRat, div_lt_iff₀ hbottomRat]
  constructor
  · exact_mod_cast hlow
  · have hnext : top < (top / bottom + 1) * bottom := by
      rw [Nat.succ_mul]
      exact hhigh
    exact_mod_cast hnext

theorem beginsUnitOf_truncated (hden : den ≠ 0) (h : num ≤ den) :
    (truncated false num den).BeginsUnitOf ((num : Rat) / den) := by
  have hdenRat : (0 : Rat) < den := by exact_mod_cast Nat.pos_of_ne_zero hden
  by_cases hnum : num = 0
  · subst hnum
    refine ⟨0, -1074, _, rfl, ?_, ?_⟩
    · rw [scaled_eq, Nat.cast_zero, zero_mul, zero_div]
    · rw [scaled_eq, Nat.cast_zero, zero_div]
      positivity
  · have heq : truncated false num den = pack false
        (mantissaAt (fun num den => num / den) num den (exponentOf num den)) (exponentOf num den) :=
      ofQuotient_eq false hnum
    obtain ⟨hlow, hhigh⟩ := mantissaAt_div_spec num hden (exponentOf num den)
    have hfull := (exponentOf_cases hnum hden).imp_right
      (mantissaAt_bounds isRounding_div hden _ _).2
    have hunit : (0 : Rat) < (2 : Rat) ^ exponentOf num den := by positivity
    have hcanonical : Canonical
        (mantissaAt (fun num den => num / den) num den (exponentOf num den))
        (exponentOf num den) := by
      refine ⟨?_, le_max_left _ _, ?_, hfull.symm⟩
      · have hbelow := lt_full_exponentOf hnum hden
        rw [← div_lt_iff₀ hdenRat] at hbelow
        have hlt := hlow.trans_lt hbelow
        rw [scaled_eq, mul_lt_mul_iff_left₀ hunit] at hlt
        exact_mod_cast hlt
      · rcases exponentOf_cases hnum hden with hleast | hlarge
        · omega
        · rw [← le_div_iff₀ hdenRat] at hlarge
          have hone : (num : Rat) / den ≤ 1 := (div_le_one hdenRat).2 (by exact_mod_cast h)
          have hpart : (2 : Rat) ^ exponentOf num den ≤
              (2 ^ fractionBits : Nat) * (2 : Rat) ^ exponentOf num den :=
            le_mul_of_one_le_left hunit.le (by norm_num)
          have hexponent :=
            (zpow_le_one_iff_right₀ (one_lt_two (α := Rat))).1 (hpart.trans (hlarge.trans hone))
          omega
    refine ⟨_, _, hcanonical, ?_, hlow, hhigh⟩
    rw [heq, pack, dif_pos hcanonical]

theorem beginsUnitOf_truncateEndpoint {e : Endpoint} (h : e.toRat ≤ 1) :
    (truncateEndpoint e).BeginsUnitOf e.toRat := by
  rcases truncateEndpoint_cases e with ⟨heq, hsmall⟩ | ⟨-, hlarge⟩ | ⟨num, den, hden, hvalue, heq⟩
  · rw [heq]
    refine ⟨0, -1074, _, rfl, ?_, ?_⟩
    · rw [scaled_eq, Nat.cast_zero, zero_mul]
      exact e.toRat_nonneg
    · rwa [scaled_eq, zero_add, Nat.cast_one, one_mul]
  · exact absurd (hlarge.trans h) (one_lt_zpow₀ one_lt_two (by decide)).not_ge
  · have hdenRat : (0 : Rat) < den := by exact_mod_cast Nat.pos_of_ne_zero hden
    rw [← hvalue, div_le_one hdenRat] at h
    rw [heq, ← hvalue]
    exact beginsUnitOf_truncated hden (by exact_mod_cast h)

/-- The unit of a number of the format is a part of what lies in it, or the least unit. -/
theorem unit_le (hcanonical : Canonical mantissa k) (h : scaled mantissa k ≤ r) :
    (2 : Rat) ^ k ≤ r * (2 : Rat) ^ (-52 : Int) + 2 ^ (-1074 : Int) := by
  have hr : 0 ≤ r := (scaled_nonneg mantissa k).trans h
  rcases hcanonical.2.2.2 with hfull | rfl
  · have hleast : (0 : Rat) ≤ 2 ^ (-1074 : Int) := by positivity
    have hunit : (2 : Rat) ^ k ≤ scaled mantissa k * (2 : Rat) ^ (-52 : Int) := by
      calc (2 : Rat) ^ k = ((2 ^ fractionBits : Nat) : Rat) * 2 ^ k * (2 : Rat) ^ (-52 : Int) := by
            norm_num
            ring
        _ ≤ mantissa * (2 : Rat) ^ k * (2 : Rat) ^ (-52 : Int) := by gcongr
        _ = scaled mantissa k * (2 : Rat) ^ (-52 : Int) := by rw [scaled_eq]
    have hpart : scaled mantissa k * (2 : Rat) ^ (-52 : Int) ≤ r * (2 : Rat) ^ (-52 : Int) := by
      gcongr
    linarith
  · have hpart : 0 ≤ r * (2 : Rat) ^ (-52 : Int) := by positivity
    linarith

/-- The number of the format that begins the unit of a number, which falls short of an exact one by
a part of it at most. -/
def BeginsUnitBelow (exact part : Rat) (x : Binary64) : Prop :=
  ∃ r, exact * (1 - part) ≤ r ∧ r ≤ exact ∧ x.BeginsUnitOf r

/-- Both ends of the unit are about one unit away from the exact number. -/
theorem BeginsUnitBelow.error {exact part : Rat} (h : x.BeginsUnitBelow exact part)
    (hexact : exact < 1) (hpart : 0 ≤ part) :
    |x.toRat - exact| ≤ exact * ((2 : Rat) ^ (-52 : Int) + part) + 2 ^ (-1074 : Int) ∧
      |x.away.toRat - exact| ≤ exact * ((2 : Rat) ^ (-52 : Int) + part) + 2 ^ (-1074 : Int) := by
  obtain ⟨r, hlow, hhigh, m, e, hc, rfl, hbegin, hend⟩ := h
  obtain ⟨m', e', hc', haway, hvalue⟩ := exists_away hc (hbegin.trans_lt (hhigh.trans_lt hexact))
  have hunit := unit_le hc hbegin
  have hnext : scaled (m + 1) e = scaled m e + (2 : Rat) ^ e := by
    rw [scaled_eq, scaled_eq]
    push_cast
    ring
  have hpower : (0 : Rat) < (2 : Rat) ^ (-52 : Int) := by positivity
  have hr : 0 ≤ r := (scaled_nonneg m e).trans hbegin
  have hlost : 0 ≤ exact * part := mul_nonneg (hr.trans hhigh) hpart
  have hshare : r * (2 : Rat) ^ (-52 : Int) ≤ exact * (2 : Rat) ^ (-52 : Int) := by gcongr
  have hvalueAway : (finite false m e hc).away.toRat = scaled m e + (2 : Rat) ^ e := by
    rw [haway, ← hnext, ← hvalue]
    rfl
  have hvalueSelf : (finite false m e hc).toRat = scaled m e := rfl
  rw [hnext] at hend
  rw [hvalueSelf, hvalueAway, abs_le, abs_le]
  refine ⟨⟨?_, ?_⟩, ?_, ?_⟩
  all_goals linarith

/-- A positive whole power of a positive number below one is one of the two ends of the unit in
which the lower end of its bracket lies. -/
theorem powPositive_error (x y : Binary64) (h : scaled mantissa k < 1) {numerator : Nat}
    (hnumerator : numerator ≠ 0) :
    |(powPositive x y ⟨mantissa, k⟩ ⟨false, numerator, 0⟩).toRat - scaled mantissa k ^ numerator| ≤
      scaled mantissa k ^ numerator *
        ((2 : Rat) ^ (-52 : Int) + 3 * numerator * (2 : Rat) ^ (-127 : Int)) +
          2 ^ (-1074 : Int) := by
  have hexact : scaled mantissa k ^ numerator < 1 :=
    pow_lt_one₀ (scaled_nonneg mantissa k) h hnumerator
  have hpart : (0 : Rat) ≤ 3 * numerator * (2 : Rat) ^ (-127 : Int) := by positivity
  obtain ⟨magnitude, hbelow, hpower⟩ := powPositive_spec
    (P := BeginsUnitBelow (scaled mantissa k ^ numerator)
      (3 * numerator * (2 : Rat) ^ (-127 : Int))) x y ⟨mantissa, k⟩ numerator (by
    intro bits hbits
    have hmany : 128 ≤ bits := by
      simp only [workingBits, List.mem_cons, List.not_mem_nil, or_false] at hbits
      omega
    have hlow := Bracket.le_power_lower_of_bits hmany hnumerator (.exact ⟨mantissa, k⟩)
    have hhigh := Bracket.power_lower_le bits (.exact ⟨mantissa, k⟩) numerator
    exact ⟨_, hlow, hhigh, beginsUnitOf_truncateEndpoint (hhigh.trans hexact.le)⟩)
  obtain ⟨hself, haway⟩ := hbelow.error hexact hpart
  rcases hpower with hpower | hpower
  · rw [hpower]
    exact hself
  · rw [hpower]
    exact haway

theorem toRat_ne_zero (hx : x.isFinite = true) (hzero : x.isZero = false) : x.toRat ≠ 0 := by
  cases x with
  | nan => cases hx
  | infinite negative => cases hx
  | finite negative mantissa exponent hcanonical =>
    have hmantissa : (mantissa : Rat) ≠ 0 := by exact_mod_cast beq_eq_false_iff_ne.1 hzero
    have hvalue : scaled mantissa exponent ≠ 0 := by
      rw [scaled_eq]
      exact mul_ne_zero hmantissa (by positivity)
    cases negative with
    | true => exact neg_ne_zero.2 hvalue
    | false => exact hvalue

/-- A positive whole power of a number from zero to one, against the exact power. -/
theorem pow_error (hx : x.Between 0 1) (hy : y.IsInteger) (hsign : y.isNegative = false)
    (hzero : y.isZero = false) {n : Nat} (hn : (n : Rat) = y.toRat) :
    |(x.pow y).toRat - x.toRat ^ n| ≤
      x.toRat ^ n * ((2 : Rat) ^ (-52 : Int) + 3 * n * (2 : Rat) ^ (-127 : Int)) +
        2 ^ (-1074 : Int) := by
  have hroom : 0 ≤ x.toRat ^ n * ((2 : Rat) ^ (-52 : Int) + 3 * n * (2 : Rat) ^ (-127 : Int)) +
      2 ^ (-1074 : Int) := by
    have hbase := hx.low_le
    positivity
  rcases pow_cases hx hy hsign hzero with
    ⟨hone, hpow⟩ | ⟨hbase, negative, hpow⟩ |
    ⟨mantissa, k, hc, numerator, rfl, hlt, hnumerator, hvalue, hpow⟩
  · rw [hpow, toRat_one, hone, one_pow, sub_self, abs_zero]
    rwa [hone, one_pow] at hroom
  · have hexponent : n ≠ 0 := by
      rintro rfl
      exact toRat_ne_zero hy.isFinite hzero hn.symm
    rw [hpow, toRat_signedZero, hbase, zero_pow hexponent, sub_self, abs_zero]
    rwa [hbase, zero_pow hexponent] at hroom
  · obtain rfl : numerator = n := by exact_mod_cast hvalue.trans hn.symm
    rw [hpow]
    exact powPositive_error _ _ hlt hnumerator

end Binary64

end ExperienceCurves
