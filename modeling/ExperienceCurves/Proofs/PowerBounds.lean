import ExperienceCurves.Proofs.NearestRounding
import ExperienceCurves.Proofs.PowerErrors

/-!
Powers of any size. A whole power is cut to a number below the exact one or to the neighbour of
that, so it is at most one unit above the exact power, and it has the sign of the exact power. Where
a power is infinite, the exact one is at the end of the range or beyond it.
-/
namespace ExperienceCurves

-- Powers of whole numbers are those of the core library, whatever else is imported.
attribute [local instance (high)] instPowNat

namespace Binary64

open Enclosure

variable {mantissa : Nat} {k : Int} {v r : Rat} {x y : Binary64} {num den : Nat}

/-- A number and the largest unit that it can have. -/
def unitAbove (r : Rat) : Rat := r + (r * (2 : Rat) ^ (-52 : Int) + 2 ^ (-1074 : Int))

theorem le_unitAbove (hr : 0 ≤ r) : r ≤ unitAbove r :=
  le_add_of_nonneg_right (by positivity)

theorem unitAbove_mono (h : v ≤ r) : unitAbove v ≤ unitAbove r := by
  unfold unitAbove
  gcongr

/-- What is one unit above a number that is not small is hardly more than the number. -/
theorem unitAbove_le (hr : 0 ≤ r) (h : 7 / 8 ≤ unitAbove r) :
    3 / 4 ≤ r ∧ unitAbove r ≤ 16 / 15 * r := by
  have hpart : r * (2 : Rat) ^ (-52 : Int) ≤ r * (1 / 64) := by
    gcongr
    norm_num
  have hleast : (2 : Rat) ^ (-1074 : Int) ≤ 1 / 64 :=
    (zpow_le_zpow_right₀ one_le_two (by decide : (-1074 : Int) ≤ -6)).trans (by norm_num)
  unfold unitAbove at h ⊢
  constructor
  · linarith
  · linarith

theorem standsFor_toRat (hx : x.isFinite = true) (hsign : x.isNegative = false) :
    x.StandsFor x.toRat := by
  cases x with
  | nan => cases hx
  | infinite negative => cases hx
  | finite negative mantissa exponent hcanonical =>
    obtain rfl : negative = false := hsign
    exact Or.inl ⟨mantissa, exponent, hcanonical, rfl, rfl⟩

theorem standsFor_one : (1 : Binary64).StandsFor 1 :=
  toRat_one ▸ standsFor_toRat isFinite_one (by decide +kernel)

theorem toRat_of_isZero (h : x.isZero = true) : x.toRat = 0 := by
  cases x with
  | nan => rfl
  | infinite negative => rfl
  | finite negative mantissa exponent hcanonical =>
    obtain rfl : mantissa = 0 := eq_of_beq h
    cases negative <;> simp [toRat, scaled_eq]

theorem exists_truncated (hden : den ≠ 0) :
    ∃ v ≤ (num : Rat) / den, (truncated false num den).StandsFor v := by
  by_cases hnum : num = 0
  · subst hnum
    exact ⟨0, by simp, standsFor_zero⟩
  · have heq : truncated false num den = pack false
        (mantissaAt (fun num den => num / den) num den (exponentOf num den)) (exponentOf num den) :=
      ofQuotient_eq false hnum
    refine ⟨_, (mantissaAt_div_spec num hden (exponentOf num den)).1, ?_⟩
    rw [heq]
    exact standsFor_pack (le_max_left _ _)
      ((mantissaAt_bounds isRounding_div hden _ _).1 (lt_full_exponentOf hnum hden).le)
      ((exponentOf_cases hnum hden).symm.imp_left (mantissaAt_bounds isRounding_div hden _ _).2)

theorem exists_truncateEndpoint (e : Endpoint) :
    ∃ v ≤ e.toRat, (truncateEndpoint e).StandsFor v := by
  rcases truncateEndpoint_cases e with ⟨heq, -⟩ | ⟨heq, hlarge⟩ | ⟨num, den, hden, hvalue, heq⟩
  · rw [heq]
    exact ⟨0, e.toRat_nonneg, standsFor_zero⟩
  · rw [heq]
    exact ⟨e.toRat, le_rfl, Or.inr ⟨rfl, greatest_lt.trans_le hlarge⟩⟩
  · rw [heq, ← hvalue]
    exact exists_truncated hden

theorem StandsFor.away (h : x.StandsFor v) : ∃ w ≤ unitAbove v, x.away.StandsFor w := by
  have hnonneg := h.nonneg
  rcases h with ⟨m, e, hc, rfl, rfl⟩ | ⟨rfl, hlarge⟩
  · refine ⟨scaled (m + 1) e, ?_, standsFor_away hc⟩
    have hunit := unit_le hc le_rfl
    have hnext : scaled (m + 1) e = scaled m e + (2 : Rat) ^ e := by
      rw [scaled_eq, scaled_eq]
      push_cast
      ring
    rw [hnext]
    exact add_le_add_right hunit _
  · exact ⟨v, le_unitAbove hnonneg, Or.inr ⟨rfl, hlarge⟩⟩

/-- The magnitude of a whole power is at most one unit above the exact power. -/
theorem exists_powPositive (x y : Binary64) (base : Endpoint) (numerator : Nat) :
    ∃ v ≤ unitAbove (base.toRat ^ numerator),
      (powPositive x y base ⟨false, numerator, 0⟩).StandsFor v := by
  obtain ⟨magnitude, ⟨v, hv, hstands⟩, hpower⟩ := powPositive_spec
    (P := fun x => ∃ v ≤ base.toRat ^ numerator, x.StandsFor v) x y base numerator (by
    intro bits _
    obtain ⟨v, hv, hstands⟩ := exists_truncateEndpoint
      (powerBracket bits base ⟨false, numerator, 0⟩).lower
    exact ⟨v, hv.trans (Bracket.power_lower_le bits (.exact base) numerator), hstands⟩)
  have hexact := hstands.nonneg.trans hv
  rcases hpower with hpower | hpower
  · rw [hpower]
    exact ⟨v, hv.trans (le_unitAbove hexact), hstands⟩
  · rw [hpower]
    obtain ⟨w, hw, hneighbour⟩ := hstands.away
    exact ⟨w, hw.trans (unitAbove_mono hv), hneighbour⟩

theorem isFinite_of_neg (h : x.neg.isFinite = true) : x.isFinite = true := by
  cases x with
  | nan => cases h
  | infinite negative => cases h
  | finite negative mantissa exponent hcanonical => rfl

theorem isInfinite_neg (x : Binary64) : x.neg.isInfinite = x.isInfinite := by
  cases x <;> rfl

theorem abs_toRat_finite (negative : Bool) (hc : Canonical mantissa k) :
    |(finite negative mantissa k hc).toRat| = scaled mantissa k := by
  have hsize := abs_of_nonneg (scaled_nonneg mantissa k)
  cases negative with
  | false => exact hsize
  | true => exact (abs_neg _).trans hsize

/-- A power that is not negative is a magnitude, and a negative one is the negation of one. Either
is at most one unit larger than the exact power, and has its sign. -/
theorem pow_bound (hx : x.isFinite = true) (hy : y.IsInteger) (hsign : y.isNegative = false)
    {n : Nat} (hn : (n : Rat) = y.toRat) :
    ∃ v p, v ≤ unitAbove (|x.toRat| ^ n) ∧ StandsFor v p ∧
      (x.pow y = p ∧ 0 ≤ x.toRat ^ n ∨ x.pow y = p.neg ∧ x.toRat ^ n ≤ 0) := by
  have hone : (1 : Rat) ≤ unitAbove 1 := le_unitAbove zero_le_one
  cases hzero : y.isZero with
  | true =>
    obtain rfl : n = 0 := by
      rw [toRat_of_isZero hzero] at hn
      exact_mod_cast hn
    have hpow : x.pow y = 1 := by
      unfold pow
      rw [hzero, Bool.true_or, if_pos rfl]
    refine ⟨1, 1, ?_, standsFor_one, Or.inl ⟨hpow, ?_⟩⟩
    · rwa [pow_zero]
    · rw [pow_zero]
      exact zero_le_one
  | false =>
    have hpositive : n ≠ 0 := by
      rintro rfl
      exact toRat_ne_zero hy.isFinite hzero hn.symm
    rcases pow_whole_cases hx hy hsign hzero with ⟨hbase, hpow⟩ | ⟨hbase, negative, hpow⟩ |
      ⟨negative, mantissa, k, hc, numerator, rfl, -, -, -, hvalue, hpow⟩
    · refine ⟨1, 1, ?_, standsFor_one, Or.inl ⟨hpow, ?_⟩⟩
      · rwa [hbase, abs_one, one_pow]
      · rw [hbase, one_pow]
        exact zero_le_one
    · have hexact : x.toRat ^ n = 0 := by rw [hbase, zero_pow hpositive]
      refine ⟨0, zero false, (by unfold unitAbove; positivity), standsFor_zero, ?_⟩
      cases negative with
      | false => exact Or.inl ⟨hpow, hexact.ge⟩
      | true => exact Or.inr ⟨hpow, hexact.le⟩
    · obtain rfl : numerator = n := by exact_mod_cast hvalue.trans hn.symm
      obtain ⟨v, hv, hstands⟩ := exists_powPositive (finite negative mantissa k hc).abs y
        ⟨mantissa, k⟩ numerator
      refine ⟨v, _, ?_, hstands, ?_⟩
      · rwa [abs_toRat_finite]
      · cases hodd : negative && numerator % 2 == 1 with
        | true =>
          rw [hodd, if_pos rfl] at hpow
          rw [Bool.and_eq_true, beq_iff_eq] at hodd
          obtain ⟨rfl, hodd⟩ := hodd
          have hbase : (finite true mantissa k hc).toRat ≤ 0 :=
            neg_nonpos.2 (scaled_nonneg mantissa k)
          exact Or.inr ⟨hpow, (Nat.odd_iff.2 hodd).pow_nonpos hbase⟩
        | false =>
          rw [hodd, if_neg Bool.false_ne_true] at hpow
          rw [Bool.and_eq_false_iff, beq_eq_false_iff_ne, Nat.mod_two_ne_one] at hodd
          refine Or.inl ⟨hpow, ?_⟩
          rcases hodd with rfl | heven
          · exact pow_nonneg (scaled_nonneg mantissa k) _
          · exact (Nat.even_iff.2 heven).pow_nonneg _

/-- A power that is infinite has an exact one that nearly reaches the end of the range. -/
theorem lt_of_pow_isInfinite (hx : x.isFinite = true) (hy : y.IsInteger)
    (hsign : y.isNegative = false) {n : Nat} (hn : (n : Rat) = y.toRat)
    (hinfinite : (x.pow y).isInfinite = true) : (greatest : Rat) < unitAbove (|x.toRat| ^ n) := by
  obtain ⟨v, p, hv, hstands, ⟨hpow, -⟩ | ⟨hpow, -⟩⟩ := pow_bound hx hy hsign hn
  · rw [hpow] at hinfinite
    exact (hstands.lt_of_isInfinite hinfinite).trans_le hv
  · rw [hpow, isInfinite_neg] at hinfinite
    exact (hstands.lt_of_isInfinite hinfinite).trans_le hv

/-- A finite power is at most one unit larger than the exact one, and has its sign. -/
theorem abs_pow_le (hx : x.isFinite = true) (hy : y.IsInteger) (hsign : y.isNegative = false)
    {n : Nat} (hn : (n : Rat) = y.toRat) (hfinite : (x.pow y).isFinite = true) :
    |(x.pow y).toRat| ≤ unitAbove (|x.toRat| ^ n) ∧ 0 ≤ (x.pow y).toRat * x.toRat ^ n := by
  obtain ⟨v, p, hv, hstands, ⟨hpow, hexact⟩ | ⟨hpow, hexact⟩⟩ := pow_bound hx hy hsign hn
  · rw [hpow] at hfinite ⊢
    rw [hstands.toRat_eq hfinite, abs_of_nonneg hstands.nonneg]
    exact ⟨hv, mul_nonneg hstands.nonneg hexact⟩
  · rw [hpow] at hfinite ⊢
    rw [toRat_neg, hstands.toRat_eq (isFinite_of_neg hfinite), abs_neg,
      abs_of_nonneg hstands.nonneg]
    exact ⟨hv, mul_nonneg_of_nonpos_of_nonpos (neg_nonpos.2 hstands.nonneg) hexact⟩

end Binary64

end ExperienceCurves
