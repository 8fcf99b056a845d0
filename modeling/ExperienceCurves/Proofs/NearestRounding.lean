import ExperienceCurves.Proofs.BezierValues

/-!
Rounding to the nearest number. Where the whole number nearest to a quotient lies is decided by the
halves between whole numbers. From this one fact it follows that rounding keeps the order, and that
it moves a number by half a unit at most, which is a part of the number itself or, at the bottom of
the format, half of the least unit.
-/
namespace ExperienceCurves

-- Powers of whole numbers are those of the core library, whatever else is imported.
attribute [local instance (high)] instPowNat

namespace Rounding

/-- The nearest whole number is at most a bound if the quotient is below the half that follows the
bound, or is that half and the bound is even. -/
theorem halfEven_le_iff {num den bound : Nat} (hden : 0 < den) :
    halfEven num den ≤ bound ↔
      2 * num < (2 * bound + 1) * den ∨ 2 * num = (2 * bound + 1) * den ∧ bound % 2 = 0 := by
  have hdivision := Nat.div_add_mod num den
  have hrest := Nat.mod_lt num hden
  have hhalf : (2 * bound + 1) * den = 2 * (den * bound) + den := by ring
  obtain ⟨hlow, hhigh⟩ := halfEven_bounds num den
  rw [hhalf]
  rcases lt_trichotomy (num / den) bound with hlt | rfl | hgt
  · have hroom : den * (num / den) + den ≤ den * bound := by
      rw [← Nat.mul_succ]
      exact Nat.mul_le_mul_left den hlt
    omega
  · unfold halfEven
    dsimp only
    split <;> omega
  · have hroom : den * bound + den ≤ den * (num / den) := by
      rw [← Nat.mul_succ]
      exact Nat.mul_le_mul_left den hgt
    omega

end Rounding

namespace Binary64

open Rounding

section Rounded

variable {num den num' den' : Nat}

/-- The same for a mantissa, whose halves are halves of the unit. -/
theorem mantissaAt_le_iff (num : Nat) (hden : den ≠ 0) (bound : Nat) (exponent : Int) :
    mantissaAt halfEven num den exponent ≤ bound ↔
      (num : Rat) / den < (bound + 1 / 2) * (2 : Rat) ^ exponent ∨
        (num : Rat) / den = (bound + 1 / 2) * (2 : Rat) ^ exponent ∧ bound % 2 = 0 := by
  have hunit : (0 : Rat) < (2 : Rat) ^ exponent := by positivity
  obtain ⟨top, bottom, hbottom, hmantissa, hquotient⟩ :=
    exists_mantissaAt halfEven num hden exponent
  have hbottomRat : (0 : Rat) < bottom := by exact_mod_cast hbottom
  have hhalf : (bound + 1 / 2 : Rat) * bottom = (((2 * bound + 1) * bottom : Nat) : Rat) / 2 := by
    push_cast
    ring
  rw [hmantissa, halfEven_le_iff hbottom, hquotient, mul_lt_mul_iff_left₀ hunit,
    mul_left_inj' hunit.ne', div_lt_iff₀ hbottomRat, div_eq_iff hbottomRat.ne', hhalf,
    lt_div_iff₀ two_pos, eq_div_iff two_ne_zero, mul_comm (top : Rat) 2]
  norm_cast

/-- A mantissa is at most half a unit away from the quotient. -/
theorem mantissaAt_error (num : Nat) (hden : den ≠ 0) (exponent : Int) :
    |mantissaAt halfEven num den exponent * (2 : Rat) ^ exponent - num / den| ≤
      (2 : Rat) ^ exponent / 2 := by
  have hunit : (0 : Rat) < (2 : Rat) ^ exponent := by positivity
  have hhigh : (num : Rat) / den ≤
      (mantissaAt halfEven num den exponent + 1 / 2) * (2 : Rat) ^ exponent := by
    rcases (mantissaAt_le_iff num hden _ exponent).1 le_rfl with hlt | heq
    · exact hlt.le
    · exact heq.1.le
  have hlow :
      (mantissaAt halfEven num den exponent - 1 / 2) * (2 : Rat) ^ exponent ≤ num / den := by
    rcases Nat.eq_zero_or_pos (mantissaAt halfEven num den exponent) with hzero | hpos
    · have hquotient : (0 : Rat) ≤ num / den := by positivity
      rw [hzero, Nat.cast_zero]
      linarith
    · have hbefore := mt (mantissaAt_le_iff num hden
        (mantissaAt halfEven num den exponent - 1) exponent).2 (by omega)
      rw [not_or, not_lt, Nat.cast_sub hpos, Nat.cast_one] at hbefore
      linarith [hbefore.1]
  rw [abs_le]
  constructor
  · linarith
  · linarith

/-- The value of a rounded quotient. -/
def rounded (num den : Nat) : Rat :=
  scaled (mantissaAt halfEven num den (exponentOf num den)) (exponentOf num den)

theorem rounded_zero (hden : den ≠ 0) : rounded 0 den = 0 := by
  have hdenPos := Nat.pos_of_ne_zero hden
  have hmantissa : mantissaAt halfEven 0 den (exponentOf 0 den) ≤ 0 := by
    rw [mantissaAt_le_iff 0 hden, Nat.cast_zero, zero_div]
    left
    positivity
  rw [rounded, Nat.le_zero.1 hmantissa, scaled_eq, Nat.cast_zero, zero_mul]

/-- Rounding moves a quotient by a part of itself, or by half of the least unit. -/
theorem rounded_error (hnum : num ≠ 0) (hden : den ≠ 0) :
    |rounded num den - num / den| ≤ num / den * (2 : Rat) ^ (-53 : Int) + 2 ^ (-1075 : Int) := by
  have hdenPos : (0 : Rat) < den := by exact_mod_cast Nat.pos_of_ne_zero hden
  have hquotient : (0 : Rat) ≤ num / den := by positivity
  have herror := mantissaAt_error num hden (exponentOf num den)
  have hunit : (2 : Rat) ^ exponentOf num den / 2 ≤
      num / den * (2 : Rat) ^ (-53 : Int) + 2 ^ (-1075 : Int) := by
    have hleast : (0 : Rat) ≤ 2 ^ (-1075 : Int) := by positivity
    rcases exponentOf_cases hnum hden with hsmall | hfull
    · have hhalf : (2 : Rat) ^ (-1074 : Int) / 2 = 2 ^ (-1075 : Int) := by
        rw [div_eq_iff two_ne_zero, ← zpow_add_one₀ two_ne_zero]
        norm_num
      have hpart : (0 : Rat) ≤ num / den * (2 : Rat) ^ (-53 : Int) := by positivity
      rw [hsmall, hhalf]
      linarith
    · rw [← le_div_iff₀ hdenPos, Nat.cast_pow, Nat.cast_ofNat] at hfull
      have hhalf : (2 : Rat) ^ exponentOf num den / 2 =
          2 ^ fractionBits * (2 : Rat) ^ exponentOf num den * (2 : Rat) ^ (-53 : Int) := by
        norm_num
        ring
      rw [hhalf]
      have hpart := mul_le_mul_of_nonneg_right hfull
        (show (0 : Rat) ≤ (2 : Rat) ^ (-53 : Int) by positivity)
      linarith
  rw [rounded, scaled_eq]
  exact herror.trans hunit

/-- Where the exponent is not the least one, a rounded mantissa is a full one. -/
theorem full_le_mantissaAt (hnum : num ≠ 0) (hden : den ≠ 0) (h : exponentOf num den ≠ -1074) :
    2 ^ fractionBits ≤ mantissaAt halfEven num den (exponentOf num den) :=
  (mantissaAt_bounds isRounding_halfEven hden _ _).2 ((exponentOf_cases hnum hden).resolve_left h)

theorem mantissaAt_le_full (hnum : num ≠ 0) (hden : den ≠ 0) :
    mantissaAt halfEven num den (exponentOf num den) ≤ 2 ^ (fractionBits + 1) :=
  (mantissaAt_bounds isRounding_halfEven hden _ _).1 (lt_full_exponentOf hnum hden).le

theorem exponentOf_mono (hnum : num ≠ 0) (hden : den ≠ 0) (hnum' : num' ≠ 0) (hden' : den' ≠ 0)
    (h : (num : Rat) / den ≤ num' / den') : exponentOf num den ≤ exponentOf num' den' := by
  have hdenPos : (0 : Rat) < den := by exact_mod_cast Nat.pos_of_ne_zero hden
  have hdenPos' : (0 : Rat) < den' := by exact_mod_cast Nat.pos_of_ne_zero hden'
  have hlow := (binaryOrder_spec hnum hden).1
  have hhigh := (binaryOrder_spec hnum' hden').2
  rw [← le_div_iff₀ hdenPos] at hlow
  rw [← div_lt_iff₀ hdenPos'] at hhigh
  have horder := (zpow_lt_zpow_iff_right₀ one_lt_two).1 ((hlow.trans h).trans_lt hhigh)
  unfold exponentOf
  omega

/-- Rounding keeps the order. At one exponent the mantissas keep it, and a full mantissa at a higher
exponent is above all others. -/
theorem rounded_mono (hden : den ≠ 0) (hden' : den' ≠ 0) (h : (num : Rat) / den ≤ num' / den') :
    rounded num den ≤ rounded num' den' := by
  have hdenPos : (0 : Rat) < den := by exact_mod_cast Nat.pos_of_ne_zero hden
  by_cases hnum : num = 0
  · subst hnum
    rw [rounded_zero hden]
    exact scaled_nonneg _ _
  have hquotient : (0 : Rat) < num / den :=
    div_pos (by exact_mod_cast Nat.pos_of_ne_zero hnum) hdenPos
  have hnum' : num' ≠ 0 := by
    rintro rfl
    rw [Nat.cast_zero, zero_div] at h
    linarith
  unfold rounded
  rw [scaled_eq, scaled_eq]
  rcases (exponentOf_mono hnum hden hnum' hden' h).lt_or_eq with hlt | heq
  · have hfull := full_le_mantissaAt hnum' hden' (by unfold exponentOf at hlt ⊢; omega)
    have hsmall := mantissaAt_le_full hnum hden
    calc (mantissaAt halfEven num den (exponentOf num den) : Rat) * 2 ^ exponentOf num den
        ≤ (2 ^ (fractionBits + 1) : Nat) * (2 : Rat) ^ exponentOf num den := by gcongr
      _ = (2 ^ fractionBits : Nat) * (2 : Rat) ^ (exponentOf num den + 1) := by
        rw [zpow_add_one₀ two_ne_zero, pow_succ]
        push_cast
        ring
      _ ≤ (2 ^ fractionBits : Nat) * (2 : Rat) ^ exponentOf num' den' := by
        gcongr
        · exact one_le_two
        · omega
      _ ≤ mantissaAt halfEven num' den' (exponentOf num' den') *
          (2 : Rat) ^ exponentOf num' den' := by gcongr
  -- A tie goes to the even mantissa, so the same tie goes the same way.
  · rw [heq]
    gcongr
    rw [mantissaAt_le_iff num hden]
    rcases (mantissaAt_le_iff num' hden' _ (exponentOf num' den')).1 le_rfl with
      hbelow | ⟨htie, heven⟩
    · exact Or.inl (h.trans_lt hbelow)
    · exact (htie ▸ h).lt_or_eq.imp_right fun hsame => ⟨hsame, heven⟩

/-- Fractions of one value have the same nearest number, be they in lowest terms or not. -/
theorem nearest_eq_of_div_eq (negative : Bool) (hden : den ≠ 0) (hden' : den' ≠ 0)
    (h : (num : Rat) / den = num' / den') :
    nearest negative num den = nearest negative num' den' := by
  have hdenRat : (den : Rat) ≠ 0 := by exact_mod_cast hden
  have hdenRat' : (den' : Rat) ≠ 0 := by exact_mod_cast hden'
  have hzero : num = 0 ↔ num' = 0 := by
    rw [div_eq_div_iff hdenRat hdenRat'] at h
    constructor
    · rintro rfl
      simpa [hdenRat] using h.symm
    · rintro rfl
      simpa [hdenRat'] using h
  by_cases hnum : num = 0
  · rw [hnum, hzero.1 hnum]
    rfl
  · have hnum' : num' ≠ 0 := mt hzero.2 hnum
    have hexponent : exponentOf num den = exponentOf num' den' :=
      le_antisymm (exponentOf_mono hnum hden hnum' hden' h.le)
        (exponentOf_mono hnum' hden' hnum hden h.ge)
    have hmantissa : mantissaAt halfEven num den (exponentOf num den) =
        mantissaAt halfEven num' den' (exponentOf num den) := by
      apply eq_of_forall_ge_iff
      intro bound
      rw [mantissaAt_le_iff num hden, mantissaAt_le_iff num' hden', h]
    unfold nearest
    rw [ofQuotient_eq negative hnum, ofQuotient_eq negative hnum', hmantissa, hexponent]

/-- The nearest number stands for the rounded value. -/
theorem standsFor_nearest (num : Nat) (hden : den ≠ 0) :
    (nearest false num den).StandsFor (rounded num den) := by
  by_cases hnum : num = 0
  · subst hnum
    rw [rounded_zero hden]
    exact standsFor_zero
  · have hfull : 2 ^ fractionBits ≤ mantissaAt halfEven num den (exponentOf num den) ∨
        exponentOf num den = -1074 :=
      or_iff_not_imp_right.2 fun h => full_le_mantissaAt hnum hden h
    rw [nearest, ofQuotient_eq false hnum]
    exact standsFor_pack (le_max_left _ _) (mantissaAt_le_full hnum hden) hfull

end Rounded

/-- The value that a rational number is rounded to, if it is not too large. -/
def nearestValue (r : Rat) : Rat := rounded r.num.natAbs r.den

variable {r q : Rat}

theorem nearestValue_nonneg (r : Rat) : 0 ≤ nearestValue r := scaled_nonneg _ _

theorem natAbs_div_den (hr : 0 ≤ r) : ((r.num.natAbs : Nat) : Rat) / r.den = r := by
  have hnum : (r.num.natAbs : Int) = r.num := Int.natAbs_of_nonneg (Rat.num_nonneg.2 hr)
  calc ((r.num.natAbs : Nat) : Rat) / r.den = ((r.num.natAbs : Int) : Rat) / r.den := rfl
    _ = r := by rw [hnum, Rat.num_div_den]

/-- Rounding keeps the order. -/
theorem nearestValue_mono (hr : 0 ≤ r) (hle : r ≤ q) : nearestValue r ≤ nearestValue q := by
  apply rounded_mono r.den_nz q.den_nz
  rwa [natAbs_div_den hr, natAbs_div_den (hr.trans hle)]

/-- Fractions of one value are rounded alike. -/
theorem rounded_eq (num : Nat) {den : Nat} (hden : den ≠ 0) :
    rounded num den = nearestValue ((num : Rat) / den) := by
  have hvalue := natAbs_div_den (r := (num : Rat) / den) (by positivity)
  exact le_antisymm (rounded_mono hden (Rat.den_nz _) hvalue.ge)
    (rounded_mono (Rat.den_nz _) hden hvalue.le)

theorem standsFor_ofRat (hr : 0 < r) (negativeZero : Bool) :
    (ofRat negativeZero r).StandsFor (nearestValue r) := by
  rw [ofRat, if_neg hr.ne', decide_eq_false hr.le.not_gt]
  exact standsFor_nearest r.num.natAbs r.den_nz

theorem toRat_ofRat (hr : 0 ≤ r) {negativeZero : Bool}
    (hfinite : (ofRat negativeZero r).isFinite = true) :
    (ofRat negativeZero r).toRat = nearestValue r := by
  by_cases hzero : r = 0
  · subst hzero
    rw [ofRat, if_pos rfl, toRat_signedZero]
    exact (rounded_zero one_ne_zero).symm
  · exact (standsFor_ofRat (lt_of_le_of_ne' hr hzero) negativeZero).toRat_eq hfinite

/-- What the format can hold is not moved. -/
theorem nearestValue_of_exact (hr : 0 ≤ r) (h : Exact r) : nearestValue r = r := by
  have hbetween := between_ofRat false h h le_rfl le_rfl
  rw [← toRat_ofRat hr hbetween.isFinite]
  exact le_antisymm hbetween.le_high hbetween.low_le

/-- Rounding moves a number by a part of itself, or by half of the least unit. -/
theorem ofRat_error (hr : 0 ≤ r) {negativeZero : Bool}
    (hfinite : (ofRat negativeZero r).isFinite = true) :
    |(ofRat negativeZero r).toRat - r| ≤ r * (2 : Rat) ^ (-53 : Int) + 2 ^ (-1075 : Int) := by
  rw [toRat_ofRat hr hfinite]
  by_cases hzero : r = 0
  · subst hzero
    have hrounded : nearestValue 0 = 0 := rounded_zero one_ne_zero
    rw [hrounded, sub_zero, abs_zero, zero_mul, zero_add]
    positivity
  · have hnum : r.num.natAbs ≠ 0 := Int.natAbs_ne_zero.2 (Rat.num_ne_zero.2 hzero)
    have herror := rounded_error hnum r.den_nz
    rwa [natAbs_div_den hr] at herror

variable {x y z : Binary64}

theorem toRat_sub (hx : x.isFinite = true) (hy : y.isFinite = true) (hle : y.toRat ≤ x.toRat)
    (hfinite : (x - y).isFinite = true) : (x - y).toRat = nearestValue (x.toRat - y.toRat) := by
  obtain ⟨negativeZero, heq⟩ := exists_sub_eq hx hy
  rw [heq] at hfinite ⊢
  exact toRat_ofRat (sub_nonneg.2 hle) hfinite

theorem toRat_add (hx : x.isFinite = true) (hy : y.isFinite = true) (hnonneg : 0 ≤ x.toRat)
    (hnonneg' : 0 ≤ y.toRat) (hfinite : (x + y).isFinite = true) :
    (x + y).toRat = nearestValue (x.toRat + y.toRat) := by
  obtain ⟨negativeZero, heq⟩ := exists_add_eq hx hy
  rw [heq] at hfinite ⊢
  exact toRat_ofRat (add_nonneg hnonneg hnonneg') hfinite

theorem toRat_mul (hx : x.isFinite = true) (hy : y.isFinite = true) (hnonneg : 0 ≤ x.toRat)
    (hnonneg' : 0 ≤ y.toRat) (hfinite : (x * y).isFinite = true) :
    (x * y).toRat = nearestValue (x.toRat * y.toRat) := by
  obtain ⟨negativeZero, heq⟩ := exists_mul_eq hx hy
  rw [heq] at hfinite ⊢
  exact toRat_ofRat (mul_nonneg hnonneg hnonneg') hfinite

theorem toRat_div (hx : x.isFinite = true) (hy : y.isFinite = true) (hzero : y.isZero = false)
    (hnonneg : 0 ≤ x.toRat / y.toRat) (hfinite : (x / y).isFinite = true) :
    (x / y).toRat = nearestValue (x.toRat / y.toRat) := by
  obtain ⟨negativeZero, heq⟩ := exists_div_eq hx hy hzero
  rw [heq] at hfinite ⊢
  exact toRat_ofRat hnonneg hfinite

end Binary64

/-- A quotient of whole numbers depends on its exact value only. -/
theorem Number.quotient_eq_of_mul_eq {a b c d : Int} (hb : 0 < b) (hd : 0 < d)
    (h : a * d = c * b) : quotient a b = quotient c d := by
  have hdiv : ((a.natAbs : Nat) : Rat) / b.natAbs = (c.natAbs : Nat) / d.natAbs := by
    have hbRat : ((b.natAbs : Nat) : Rat) ≠ 0 := by exact_mod_cast (by omega : b.natAbs ≠ 0)
    have hdRat : ((d.natAbs : Nat) : Rat) ≠ 0 := by exact_mod_cast (by omega : d.natAbs ≠ 0)
    rw [div_eq_div_iff hbRat hdRat]
    exact_mod_cast (by rw [← Int.natAbs_mul, ← Int.natAbs_mul, h] :
      a.natAbs * d.natAbs = c.natAbs * b.natAbs)
  have hsign : decide (a < 0) = decide (c < 0) := by
    have hleft : a * d < 0 * d ↔ a < 0 := mul_lt_mul_iff_left₀ hd
    have hright : c * b < 0 * b ↔ c < 0 := mul_lt_mul_iff_left₀ hb
    rw [decide_eq_decide, ← hleft, ← hright, h, zero_mul, zero_mul]
  unfold quotient
  rw [if_neg hb.ne', if_neg hd.ne', decide_eq_false hb.not_gt, decide_eq_false hd.not_gt, hsign,
    Binary64.nearest_eq_of_div_eq _ (by omega) (by omega) hdiv]

/-- A quotient of whole numbers that are not negative. -/
theorem Number.toRat_quotient {a b : Int} (ha : 0 ≤ a) (hb : 0 < b) {x : Binary64}
    (h : quotient a b = .ok (.real x)) (hfinite : x.isFinite = true) :
    x.toRat = Binary64.nearestValue ((a : Rat) / b) := by
  have hden : b.natAbs ≠ 0 := by omega
  have hsign : (decide (a < 0) != decide (b < 0)) = false := by
    rw [decide_eq_false (by omega : ¬a < 0), decide_eq_false (by omega : ¬b < 0)]
    rfl
  unfold quotient at h
  rw [if_neg hb.ne', hsign] at h
  dsimp only at h
  split at h
  · cases h
  · obtain rfl := Number.real.inj (Except.ok.inj h)
    rw [(Binary64.standsFor_nearest _ hden).toRat_eq hfinite, Binary64.rounded_eq _ hden]
    rw [Nat.cast_natAbs, Nat.cast_natAbs, abs_of_nonneg ha, abs_of_pos hb]

end ExperienceCurves
