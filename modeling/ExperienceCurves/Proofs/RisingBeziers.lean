import ExperienceCurves.Proofs.BezierEnds
import ExperienceCurves.Proofs.RoundingErrors

/-!
Bezier segments that rise. With ordered control values the exact polynomial rises from the first of
them to the last. The ends of the levels are placed exactly and every other level in its order, so
all that can make a requirement dip is the rounding of the polynomial itself. It is a matter of ten
roundings, and with the cut to a whole number it costs one point, unless the requirements are huge.
-/
namespace ExperienceCurves

-- Powers of whole numbers are those of the core library, whatever else is imported.
attribute [local instance (high)] instPowNat

open Binary64

namespace CubicBezier

/-- The value of the polynomial without any rounding. -/
def exactValue (p0 p1 p2 p3 t : Rat) : Rat :=
  (1 - t) ^ 3 * p0 + 3 * (1 - t) ^ 2 * t * p1 + 3 * (1 - t) * t ^ 2 * p2 + t ^ 3 * p3

section Exact

variable {p0 p1 p2 p3 t t' : Rat}

/-- The steps between the control values, each with the weight of all terms after it. -/
theorem exactValue_eq (p0 p1 p2 p3 t : Rat) :
    exactValue p0 p1 p2 p3 t =
      p0 + (p1 - p0) * (1 - (1 - t) ^ 3) + (p2 - p1) * (t ^ 2 * (3 - 2 * t)) +
        (p3 - p2) * t ^ 3 := by
  unfold exactValue
  ring

theorem exactValue_zero (p0 p1 p2 p3 : Rat) : exactValue p0 p1 p2 p3 0 = p0 := by
  simp [exactValue]

theorem exactValue_one (p0 p1 p2 p3 : Rat) : exactValue p0 p1 p2 p3 1 = p3 := by
  simp [exactValue]

/-- Ordered control values make it rise, because each of the weights does. -/
theorem exactValue_mono (h01 : p0 ≤ p1) (h12 : p1 ≤ p2) (h23 : p2 ≤ p3) (h0 : 0 ≤ t)
    (hle : t ≤ t') (h1 : t' ≤ 1) : exactValue p0 p1 p2 p3 t ≤ exactValue p0 p1 p2 p3 t' := by
  have hfirst : 1 - (1 - t) ^ 3 ≤ 1 - (1 - t') ^ 3 := by
    have hpower : (1 - t') ^ 3 ≤ (1 - t) ^ 3 :=
      pow_le_pow_left₀ (by linarith) (by linarith) 3
    linarith
  have hsecond : t ^ 2 * (3 - 2 * t) ≤ t' ^ 2 * (3 - 2 * t') := by
    have hdifference : t' ^ 2 * (3 - 2 * t') - t ^ 2 * (3 - 2 * t) =
        (t' - t) * (2 * t * (1 - t) + 2 * t' * (1 - t') + (t + t') - 2 * t * t') := by ring
    have hproduct : t * t' ≤ t := mul_le_of_le_one_right h0 h1
    have hproduct' : t * t' ≤ t' := mul_le_of_le_one_left (h0.trans hle) (hle.trans h1)
    have hrest : 0 ≤ t * (1 - t) := mul_nonneg h0 (by linarith)
    have hrest' : 0 ≤ t' * (1 - t') := mul_nonneg (h0.trans hle) (by linarith)
    have hnonneg := mul_nonneg (sub_nonneg.2 hle)
      (by linarith : 0 ≤ 2 * t * (1 - t) + 2 * t' * (1 - t') + (t + t') - 2 * t * t')
    linarith
  have hthird : t ^ 3 ≤ t' ^ 3 := pow_le_pow_left₀ h0 hle 3
  rw [exactValue_eq, exactValue_eq]
  gcongr ?_ + ?_ * ?_ + ?_ * ?_ + ?_ * ?_
  all_goals linarith

/-- It stays between the first and the last control value. -/
theorem exactValue_bounds (h01 : p0 ≤ p1) (h12 : p1 ≤ p2) (h23 : p2 ≤ p3) (h0 : 0 ≤ t)
    (h1 : t ≤ 1) : p0 ≤ exactValue p0 p1 p2 p3 t ∧ exactValue p0 p1 p2 p3 t ≤ p3 := by
  have hlow := exactValue_mono h01 h12 h23 le_rfl h0 h1
  have hhigh := exactValue_mono h01 h12 h23 h0 h1 le_rfl
  rw [exactValue_zero] at hlow
  rw [exactValue_one] at hhigh
  exact ⟨hlow, hhigh⟩

end Exact

/-- The most that rounding moves a value of control values up to a bound. -/
def drift (high : Rat) : Rat := 11 * (high + 1) / 2 ^ 53

variable {p0 p1 p2 p3 t : Binary64} {high : Rat}

/-- The longest chain of roundings is that of the second term. -/
theorem near_bernstein {b0 b1 b2 b3 T U : Rat} (hU : U = 1 - t.toRat + 2 ^ (-200 : Int))
    (h0 : Near 100 0 b0 p0.toRat p0) (h1 : Near 100 0 b1 p1.toRat p1)
    (h2 : Near 100 0 b2 p2.toRat p2) (h3 : Near 100 0 b3 p3.toRat p3)
    (ht : Near 200 0 T t.toRat t) (hunit : t.Between 0 1) :
    Near 705 10 (U ^ 3 * b0 + 3 * U ^ 2 * T * b1 + 3 * U * T ^ 2 * b2 + T ^ 3 * b3)
      (exactValue p0.toRat p1.toRat p2.toRat p3.toRat t.toRat) (bernstein p0 p1 p2 p3 t) := by
  have hu := Near.complement hunit
  rw [← hU] at hu
  have huUnit := between_complement hunit
  have hthree : Near 2 0 3 3 (ofInt 3) := by
    have hvalue : (ofInt 3).toRat = 3 := by decide +kernel
    have hnear : Near 2 0 3 (ofInt 3).toRat (ofInt 3) :=
      .refl (by decide +kernel) (by decide +kernel) hvalue.le (by norm_num) (by norm_num)
    rwa [hvalue] at hnear
  have hu2 := hu.pow huUnit (j := 2) (by decide) (by decide) (by decide)
  have hu3 := hu.pow huUnit (j := 3) (by decide) (by decide) (by decide)
  have ht2 := ht.pow hunit (j := 2) (by decide) (by decide) (by decide)
  have ht3 := ht.pow hunit (j := 3) (by decide) (by decide) (by decide)
  -- Six roundings, seven, six and three, and one for each of the sums that follow.
  have hfirst := hu3.mul h0 (by decide)
  have hsecond := ((hthree.mul hu2 (by decide)).mul ht (by decide)).mul h1 (by decide)
  have hthird := ((hthree.mul hu (by decide)).mul ht2 (by decide)).mul h2 (by decide)
  have hfourth := ht3.mul h3 (by decide)
  exact ((hfirst.add hsecond (by decide)).add hthird (by decide)).add hfourth (by decide)

/-- The whole budget is that of the weights, which add up to one but for tiny parts, times that of
the control values. -/
theorem budget_le {b0 b1 b2 b3 T U b : Rat} (hU : 0 ≤ U) (hT : 0 ≤ T) (h0 : b0 ≤ b) (h1 : b1 ≤ b)
    (h2 : b2 ≤ b) (h3 : b3 ≤ b) :
    U ^ 3 * b0 + 3 * U ^ 2 * T * b1 + 3 * U * T ^ 2 * b2 + T ^ 3 * b3 ≤ (U + T) ^ 3 * b := by
  calc U ^ 3 * b0 + 3 * U ^ 2 * T * b1 + 3 * U * T ^ 2 * b2 + T ^ 3 * b3
      ≤ U ^ 3 * b + 3 * U ^ 2 * T * b + 3 * U * T ^ 2 * b + T ^ 3 * b := by gcongr
    _ = (U + T) ^ 3 * b := by ring

/-- Ten roundings are less than eleven half units. -/
theorem swell_ten_le {high : Rat} (hhigh : 0 ≤ high) :
    (swell 10 - 1) * ((1 + 2 * (2 : Rat) ^ (-200 : Int)) ^ 3 * (high + 2 ^ (-100 : Int))) ≤
      drift high := by
  have hswell : (swell 10 - 1) * (1 + 2 * (2 : Rat) ^ (-200 : Int)) ^ 3 ≤ 11 / 2 ^ 53 := by
    unfold swell roundoff
    norm_num
  have htiny : (2 : Rat) ^ (-100 : Int) ≤ 1 := zpow_le_one_of_nonpos₀ one_le_two (by decide)
  have hbudget : 0 ≤ high + (2 : Rat) ^ (-100 : Int) := by positivity
  calc (swell 10 - 1) * ((1 + 2 * (2 : Rat) ^ (-200 : Int)) ^ 3 * (high + 2 ^ (-100 : Int)))
      = (swell 10 - 1) * (1 + 2 * (2 : Rat) ^ (-200 : Int)) ^ 3 * (high + 2 ^ (-100 : Int)) := by
        ring
    _ ≤ 11 / 2 ^ 53 * (high + 1) := by gcongr
    _ = drift high := by
      unfold drift
      ring

/-- How far the rounded polynomial is away from the exact one. -/
theorem bernstein_error (h0 : p0.Between 0 high) (h1 : p1.Between 0 high) (h2 : p2.Between 0 high)
    (h3 : p3.Between 0 high) (hhigh : high ≤ 2 ^ 53) (ht : t.Between 0 1) :
    (bernstein p0 p1 p2 p3 t).isFinite = true ∧
      |(bernstein p0 p1 p2 p3 t).toRat -
        exactValue p0.toRat p1.toRat p2.toRat p3.toRat t.toRat| ≤ drift high := by
  have htiny : (0 : Rat) < (2 : Rat) ^ (-200 : Int) := by positivity
  have htiny' : (2 : Rat) ^ (-200 : Int) ≤ 1 := zpow_le_one_of_nonpos₀ one_le_two (by decide)
  have hsmall : (0 : Rat) < (2 : Rat) ^ (-100 : Int) := by positivity
  have hsmall' : (2 : Rat) ^ (-100 : Int) ≤ 1 := zpow_le_one_of_nonpos₀ one_le_two (by decide)
  have hcontrol {p : Binary64} (hp : p.Between 0 high) :
      Near 100 0 (p.toRat + 2 ^ (-100 : Int)) p.toRat p := by
    have hlow := hp.low_le
    have hle := hp.le_high
    have hmost : (2 : Rat) ^ 53 + 1 ≤ 2 ^ 100 := by norm_num
    exact .refl hp.isFinite hlow (by linarith) (by push_cast; linarith) (by linarith)
  have hlow := ht.low_le
  have hle := ht.le_high
  have hnear : Near 200 0 (t.toRat + 2 ^ (-200 : Int)) t.toRat t := by
    have hmost : (2 : Rat) ≤ 2 ^ 200 := by norm_num
    exact .refl ht.isFinite hlow (by linarith) (by push_cast; linarith) (by linarith)
  have hvalue := near_bernstein rfl (hcontrol h0) (hcontrol h1) (hcontrol h2) (hcontrol h3) hnear ht
  refine ⟨hvalue.isFinite, hvalue.estimates.error_le.trans ?_⟩
  refine le_trans ?_ (swell_ten_le (h0.low_le.trans h0.le_high))
  have hswell := one_le_swell 10
  have hweights : 1 + 2 * (2 : Rat) ^ (-200 : Int) =
      1 - t.toRat + 2 ^ (-200 : Int) + (t.toRat + 2 ^ (-200 : Int)) := by ring
  rw [hweights]
  gcongr
  exact budget_le (by linarith) (by linarith) (by linarith [h0.le_high]) (by linarith [h1.le_high])
    (by linarith [h2.le_high]) (by linarith [h3.le_high])

end CubicBezier

namespace BezierSegment

/-- Whole levels in order, whole requirements that do not fall, and ordered control ratios between
the ends. -/
structure IsRising (s : BezierSegment) (first last low high : Int) : Prop where
  startLevel : s.startLevel = .int first
  endLevel : s.endLevel = .int last
  first_lt_last : first < last
  startExp : s.startExp.Between low low
  endExp : s.endExp.Between high high
  low_nonneg : 0 ≤ low
  low_le_high : low ≤ high
  high_le : high ≤ 2 ^ (53 : Nat)
  control1 : s.control1.y.Between 0 1
  control2 : s.control2.y.Between 0 1
  controls_le : s.control1.y.toRat ≤ s.control2.y.toRat

/-- A level between those of the segment has this parameter, which no clamp changes. -/
structure PlacedAt (s : BezierSegment) (level : Number) (t : Binary64) : Prop where
  parameter : s.parameter level = .ok (.real t)
  clamp : CubicBezier.clamp (.real 0) (.real 1) (.real t) = .real t
  unit : t.Between 0 1

/-- Two levels are whole, or the levels of the segment are small enough for offsets to be exact. -/
def Comparable (first last : Int) (m n : Number) : Prop :=
  (∃ i j : Int, m.plain = .int i ∧ n.plain = .int j) ∨
    first.natAbs ≤ 2 ^ fractionBits ∧ last.natAbs ≤ 2 ^ fractionBits

variable {s : BezierSegment} {first last low high : Int} {level m n : Number}

section Control

variable {p range y y' : Binary64} {a b : Rat}

/-- A share of an exact range. -/
theorem between_share (hrange : range.Between (b - a) (b - a)) (hexact : Exact (b - a))
    (hle : a ≤ b) (hy : y.Between 0 1) : (y * range).Between 0 (b - a) := by
  have hnonneg : 0 ≤ range.toRat := (sub_nonneg.2 hle).trans hrange.low_le
  have hleRange := mul_le_of_le_one_left hnonneg hy.le_high
  exact between_mul hy.isFinite hrange.isFinite exact_zero hexact (mul_nonneg hy.low_le hnonneg)
    (hleRange.trans hrange.le_high)

/-- A share of the way from one requirement to another leads to a requirement between them. -/
theorem between_control (hp : p.Between a a) (ha : Exact a) (hb : Exact b)
    (hshare : (y * range).Between 0 (b - a)) : (p + y * range).Between a b := by
  have hlow := hshare.low_le
  have hhigh := hshare.le_high
  have hbegin := hp.low_le
  have hend := hp.le_high
  exact between_add hp.isFinite hshare.isFinite ha hb (by linarith) (by linarith)

/-- The larger of two shares leads no less far. -/
theorem control_mono (hp : p.Between a a) (ha : Exact a) (hb : Exact b) (hnonneg : 0 ≤ a)
    (hrange : range.Between (b - a) (b - a)) (hexact : Exact (b - a)) (hle : a ≤ b)
    (hy : y.Between 0 1) (hy' : y'.Between 0 1) (hshares : y.toRat ≤ y'.toRat) :
    (p + y * range).toRat ≤ (p + y' * range).toRat := by
  have hshare := between_share hrange hexact hle hy
  have hshare' := between_share hrange hexact hle hy'
  have hrangeNonneg : 0 ≤ range.toRat := (sub_nonneg.2 hle).trans hrange.low_le
  have hpNonneg : 0 ≤ p.toRat := hnonneg.trans hp.low_le
  have hproducts : (y * range).toRat ≤ (y' * range).toRat := by
    rw [toRat_mul hy.isFinite hrange.isFinite hy.low_le hrangeNonneg hshare.isFinite,
      toRat_mul hy'.isFinite hrange.isFinite hy'.low_le hrangeNonneg hshare'.isFinite]
    exact nearestValue_mono (mul_nonneg hy.low_le hrangeNonneg)
      (mul_le_mul_of_nonneg_right hshares hrangeNonneg)
  rw [toRat_add hp.isFinite hshare.isFinite hpNonneg hshare.low_le
      (between_control hp ha hb hshare).isFinite,
    toRat_add hp.isFinite hshare'.isFinite hpNonneg hshare'.low_le
      (between_control hp ha hb hshare').isFinite]
  exact nearestValue_mono (add_nonneg hpNonneg hshare.low_le) (by linarith)

end Control

/-- Ordered ratios make ordered control values, however they are rounded. -/
theorem IsRising.exists_controls (h : s.IsRising first last low high) :
    ∃ p0 p1 p2 p3 : Binary64, s.HasCurve p0 p1 p2 p3 ∧ p0.Between low low ∧
      p1.Between low high ∧ p2.Between low high ∧ p3.Between high high ∧
      p1.toRat ≤ p2.toRat := by
  have hbits : 2 ^ (fractionBits + 1) = 2 ^ (53 : Nat) := rfl
  have hlowNonneg := h.low_nonneg
  have hle := h.low_le_high
  have hhighLe := h.high_le
  have hleRat : (low : Rat) ≤ high := by exact_mod_cast hle
  have hlow : Exact low := exact_intCast (by omega)
  have hhigh : Exact high := exact_intCast (by omega)
  have hexact : Exact ((high : Rat) - low) := by
    rw [← Int.cast_sub]
    exact exact_intCast (by omega)
  obtain ⟨p0, p3, range, h0, h0Between, h3, h3Between, hrange, hcurve⟩ :=
    curve_eq h.startExp h.endExp hlow hlow hhigh hhigh hexact hexact le_rfl le_rfl
  have hcontrol {y : Binary64} (hy : y.Between 0 1) : (p0 + y * range).Between low high :=
    between_control h0Between hlow hhigh (between_share hrange hexact hleRat hy)
  exact ⟨p0, _, _, p3, ⟨_, hcurve, h0, rfl, rfl, h3⟩, h0Between, hcontrol h.control1,
    hcontrol h.control2, h3Between, control_mono h0Between hlow hhigh
      (by exact_mod_cast hlowNonneg) hrange hexact hleRat h.control1 h.control2 h.controls_le⟩

/-- A ratio between zero and one is kept by the clamp, as far as its value goes. -/
theorem exists_placedAt {ratio : Binary64}
    (hparameter : s.parameter level =
      .ok (CubicBezier.clamp (.real 0) (.real 1) (.real ratio))) (hratio : ratio.Between 0 1) :
    ∃ t, s.PlacedAt level t ∧ t.toRat = ratio.toRat := by
  have hzero : (0 : Binary64).Between 0 1 :=
    ⟨isFinite_zero, toRat_zero.ge, toRat_zero.le.trans zero_le_one⟩
  rcases hratio.low_le.eq_or_lt with hlow | hlow
  · rw [CubicBezier.clamp_of_nonpos hratio.isFinite hlow.ge] at hparameter
    exact ⟨0, ⟨hparameter, by decide +kernel, hzero⟩, toRat_zero.trans hlow⟩
  · rcases hratio.le_high.eq_or_lt with hhigh | hhigh
    · rw [CubicBezier.clamp_of_one_le hratio.isFinite hhigh.ge] at hparameter
      exact ⟨1, ⟨hparameter, by decide +kernel, between_one⟩, toRat_one.trans hhigh.symm⟩
    · have hclamp : CubicBezier.clamp (.real 0) (.real 1) (.real ratio) = .real ratio := by
        have hbelow : (Number.real ratio).lt (.real 1) = true := by
          rw [Number.lt_real, lt_of_isFinite hratio.isFinite isFinite_one, toRat_one]
          exact decide_eq_true hhigh
        have habove : (Number.real 0).lt (.real ratio) = true := by
          rw [Number.lt_real, zero_lt_of_isFinite hratio.isFinite]
          exact decide_eq_true hlow
        unfold CubicBezier.clamp Number.min Number.max
        rw [if_pos hbelow, if_pos habove]
      exact ⟨ratio, ⟨hparameter.trans (congrArg _ hclamp), hclamp, hratio⟩, rfl⟩

/-- A whole level of the segment, however large it is. -/
theorem exists_placedAt_whole (hstart : s.startLevel = .int first)
    (hend : s.endLevel = .int last) (hlt : first < last) {i : Int} (hlevel : level.plain = .int i)
    (hlow : first ≤ i) (hhigh : i ≤ last) :
    ∃ t, s.PlacedAt level t ∧
      t.toRat = nearestValue (((i - first : Int) : Rat) / (last - first : Int)) := by
  have hspan : 0 < last - first := by omega
  have hspanRat : (0 : Rat) < (last - first : Int) := by exact_mod_cast hspan
  have hoffset : (0 : Rat) ≤ (i - first : Int) := by exact_mod_cast (by omega : 0 ≤ i - first)
  obtain ⟨ratio, hquotient, hratio⟩ := Number.between_quotient (a := i - first) hspan exact_zero
    exact_one (div_nonneg hoffset hspanRat.le)
    ((div_le_one hspanRat).2 (by exact_mod_cast (by omega : i - first ≤ last - first)))
  obtain ⟨t, ht, hvalue⟩ :=
    exists_placedAt (parameter_whole hstart hend hlt hlevel hquotient) hratio
  refine ⟨t, ht, hvalue.trans ?_⟩
  exact Number.toRat_quotient (by omega) hspan hquotient hratio.isFinite

/-- Any level of a segment with small levels, by its position. -/
theorem exists_placedAt_of_small (hstart : s.startLevel = .int first)
    (hend : s.endLevel = .int last) (hlt : first < last)
    (hsmall : first.natAbs ≤ 2 ^ fractionBits ∧ last.natAbs ≤ 2 ^ fractionBits)
    (hcovers : s.covers level = true) :
    ∃ (v : Rat) (t : Binary64), level.isNan = false ∧
      level.position = ((v : WithTop Rat) : Line) ∧ (first : Rat) ≤ v ∧ s.PlacedAt level t ∧
      t.toRat = nearestValue (nearestValue (v - first) / (last - first : Int)) := by
  have hbits : 2 ^ (fractionBits + 1) = 2 * 2 ^ fractionBits := by decide
  obtain ⟨hfirst, hlast⟩ := hsmall
  rcases Number.plain_cases level with ⟨i, hi⟩ | ⟨x, rfl, -⟩
  · obtain ⟨hlow, hhigh⟩ := covers_plain hstart hend hi hcovers
    obtain ⟨t, ht, hvalue⟩ := exists_placedAt_whole hstart hend hlt hi hlow hhigh
    obtain ⟨hnan, hposition⟩ := Number.position_of_plain hi
    have hoffset : nearestValue ((i : Rat) - first) = (i - first : Int) := by
      rw [← Int.cast_sub]
      exact nearestValue_of_exact (by exact_mod_cast (by omega : 0 ≤ i - first))
        (exact_intCast (by omega))
    refine ⟨i, t, hnan, hposition, by exact_mod_cast hlow, ht, ?_⟩
    rw [hoffset]
    exact hvalue
  · obtain ⟨hfinite, hlow, hhigh⟩ := isFinite_of_covers hstart hend hcovers
    obtain ⟨hbegin, hbeginFinite, hbeginValue⟩ := ofInt_exact (n := first) (by omega)
    obtain ⟨hlength, hlengthFinite, hlengthValue⟩ := ofInt_exact (n := last - first) (by omega)
    have hlengthZero := isZero_of_ofInt? hlength (by omega)
    have hspan : (0 : Rat) < (last - first : Int) := by
      exact_mod_cast (by omega : 0 < last - first)
    have hoffset : (x - ofInt first).Between 0 (last - first : Int) :=
      between_sub hfinite hbeginFinite exact_zero (exact_intCast (by omega))
        (by rw [hbeginValue]; linarith) (by rw [hbeginValue]; push_cast; linarith)
    have hratioLow : 0 ≤ (x - ofInt first).toRat / (ofInt (last - first)).toRat := by
      rw [hlengthValue]
      exact div_nonneg hoffset.low_le hspan.le
    have hratioHigh : (x - ofInt first).toRat / (ofInt (last - first)).toRat ≤ 1 := by
      rw [hlengthValue]
      exact (div_le_one hspan).2 hoffset.le_high
    have hratio := between_div hoffset.isFinite hlengthFinite hlengthZero exact_zero exact_one
      hratioLow hratioHigh
    obtain ⟨t, ht, hvalue⟩ :=
      exists_placedAt (parameter_real hstart hend hlt hbegin hlength x) hratio
    have hnan : (Number.real x).isNan = false := isNan_of_isFinite hfinite
    have hposition : (Number.real x).position = ((x.toRat : WithTop Rat) : Line) := by
      cases x with
      | nan => cases hfinite
      | infinite negative => cases hfinite
      | finite negative mantissa exponent hcanonical => rfl
    refine ⟨x.toRat, t, hnan, hposition, hlow, ht, ?_⟩
    rw [hvalue, toRat_div hoffset.isFinite hlengthFinite hlengthZero hratioLow hratio.isFinite,
      toRat_sub hfinite hbeginFinite (by rw [hbeginValue]; exact hlow) hoffset.isFinite,
      hbeginValue, hlengthValue]

/-- Levels in order are placed in order. -/
theorem exists_placedAt_le (hstart : s.startLevel = .int first) (hend : s.endLevel = .int last)
    (hlt : first < last) (hm : s.covers m = true) (hn : s.covers n = true) (hle : m.le n = true)
    (hcomparable : Comparable first last m n) :
    ∃ t t', s.PlacedAt m t ∧ s.PlacedAt n t' ∧ t.toRat ≤ t'.toRat := by
  have hspan : (0 : Rat) < (last - first : Int) := by exact_mod_cast (by omega : 0 < last - first)
  rcases hcomparable with ⟨i, j, hi, hj⟩ | hsmall
  · obtain ⟨hilow, hihigh⟩ := covers_plain hstart hend hi hm
    obtain ⟨hjlow, hjhigh⟩ := covers_plain hstart hend hj hn
    obtain ⟨t, ht, hvalue⟩ := exists_placedAt_whole hstart hend hlt hi hilow hihigh
    obtain ⟨t', ht', hvalue'⟩ := exists_placedAt_whole hstart hend hlt hj hjlow hjhigh
    obtain ⟨hnan, hposition⟩ := Number.position_of_plain hi
    obtain ⟨hnan', hposition'⟩ := Number.position_of_plain hj
    rw [Number.le_iff hnan hnan', hposition, hposition', WithBot.coe_le_coe, WithTop.coe_le_coe,
      Int.cast_le] at hle
    refine ⟨t, t', ht, ht', ?_⟩
    rw [hvalue, hvalue']
    apply nearestValue_mono
    · exact div_nonneg (by exact_mod_cast (by omega : 0 ≤ i - first)) hspan.le
    · gcongr
  · obtain ⟨v, t, hnan, hposition, hlow, ht, hvalue⟩ :=
      exists_placedAt_of_small hstart hend hlt hsmall hm
    obtain ⟨v', t', hnan', hposition', -, ht', hvalue'⟩ :=
      exists_placedAt_of_small hstart hend hlt hsmall hn
    rw [Number.le_iff hnan hnan', hposition, hposition', WithBot.coe_le_coe,
      WithTop.coe_le_coe] at hle
    refine ⟨t, t', ht, ht', ?_⟩
    rw [hvalue, hvalue']
    apply nearestValue_mono
    · exact div_nonneg (nearestValue_nonneg _) hspan.le
    · gcongr
      exact nearestValue_mono (sub_nonneg.2 hlow) (by linarith)

/-- The ends have their own requirements. -/
theorem IsRising.requiredExp_first (h : s.IsRising first last low high) :
    s.requiredExp (.int first) = .ok low := by
  obtain ⟨p0, p1, p2, p3, hcurve, h0, h1, h2, h3, -⟩ := h.exists_controls
  have hvalue : p0.toRat = low := le_antisymm h0.le_high h0.low_le
  have hparameter := parameter_of_le_first h.startLevel h.endLevel h.first_lt_last le_rfl
    (measures_first first last)
  rw [requiredExp_zero hcurve h0.isFinite h1.isFinite h2.isFinite h3.isFinite hparameter
    (hvalue ▸ by exact_mod_cast h.low_nonneg), hvalue, Rat.floor_intCast]

theorem IsRising.requiredExp_last (h : s.IsRising first last low high) :
    s.requiredExp (.int last) = .ok high := by
  obtain ⟨p0, p1, p2, p3, hcurve, h0, h1, h2, h3, -⟩ := h.exists_controls
  have hvalue : p3.toRat = high := le_antisymm h3.le_high h3.low_le
  have hparameter := parameter_of_last_le h.startLevel h.endLevel h.first_lt_last le_rfl
    (measures_last h.first_lt_last)
  have hnonneg := h.low_nonneg.trans h.low_le_high
  rw [requiredExp_one hcurve h0.isFinite h1.isFinite h2.isFinite h3.isFinite hparameter
    (hvalue ▸ by exact_mod_cast hnonneg), hvalue, Rat.floor_intCast]

/-- The requirement where a level is placed: the cut of a value near the exact one. -/
theorem IsRising.exists_requiredExp (h : s.IsRising first last low high) :
    ∃ p1 p2 : Rat, (low : Rat) ≤ p1 ∧ p1 ≤ p2 ∧ p2 ≤ high ∧ ∀ level t, s.PlacedAt level t →
      ∃ v : Rat, s.requiredExp level = .ok (max 0 v).floor ∧
        |v - CubicBezier.exactValue low p1 p2 high t.toRat| ≤ CubicBezier.drift high := by
  obtain ⟨p0, p1, p2, p3, hcurve, h0, h1, h2, h3, h12⟩ := h.exists_controls
  have h0Value : p0.toRat = low := le_antisymm h0.le_high h0.low_le
  have h3Value : p3.toRat = high := le_antisymm h3.le_high h3.low_le
  have hlow : (0 : Rat) ≤ low := by exact_mod_cast h.low_nonneg
  have hle : (low : Rat) ≤ high := by exact_mod_cast h.low_le_high
  have hhigh : (high : Rat) ≤ 2 ^ 53 := by exact_mod_cast h.high_le
  refine ⟨p1.toRat, p2.toRat, h1.low_le, h12, h2.le_high, ?_⟩
  intro level t ht
  obtain ⟨hfinite, herror⟩ := CubicBezier.bernstein_error (h0.mono hlow hle)
    (h1.mono hlow le_rfl) (h2.mono hlow le_rfl) (h3.mono (hlow.trans hle) le_rfl) hhigh ht.unit
  rw [h0Value, h3Value] at herror
  exact ⟨_, requiredExp_of_clamp hcurve ht.parameter ht.clamp ht.unit hfinite, herror⟩

/-- For requirements up to a 32nd of what is exact the drift is less than half a point. -/
theorem drift_lt (h : high ≤ 2 ^ (48 : Nat)) : CubicBezier.drift high < 1 / 2 := by
  have hhigh : (high : Rat) ≤ 2 ^ (48 : Nat) := by exact_mod_cast h
  unfold CubicBezier.drift
  rw [div_lt_iff₀ (by positivity)]
  norm_num at hhigh ⊢
  linarith

/-- The cut of a value that is not below zero loses less than one point. -/
theorem floor_max_zero_bounds {v bound : Rat} (hbound : 0 ≤ bound) (h : v ≤ bound) :
    0 ≤ (max 0 v).floor ∧ ((max 0 v).floor : Rat) ≤ bound ∧ max 0 v < (max 0 v).floor + 1 := by
  refine ⟨Rat.le_floor_iff.2 (le_max_left 0 v), (Rat.floor_le _).trans (max_le hbound h), ?_⟩
  exact_mod_cast Rat.lt_floor_add_one (max 0 v)

theorem le_self_of_covers (hstart : s.startLevel = .int first) (h : s.covers level = true) :
    level.le level = true := by
  rw [Span.covers, hstart, Bool.and_eq_true] at h
  have hnan := Number.isNan_of_le h.1
  exact (Number.le_iff hnan hnan).2 le_rfl

/-- The ends of a rising segment are exact, and between them it rises but for a drift and the cut to
a whole number. Up to a 32nd of what is exact no requirement is above that of the end, and one point
is all that is lost, against the start or a level before. -/
theorem rises_but_for_drift (h : s.IsRising first last low high) :
    s.requiredExp (.int first) = .ok low ∧ s.requiredExp (.int last) = .ok high ∧
    (∀ level, s.covers level = true → Comparable first last level level →
      ∃ exp : Int, s.requiredExp level = .ok exp ∧ 0 ≤ exp ∧
        low - 1 - CubicBezier.drift high < exp ∧ exp ≤ high + CubicBezier.drift high ∧
        (high ≤ 2 ^ (48 : Nat) → low - 1 ≤ exp ∧ exp ≤ high)) ∧
    ∀ m n exp exp', s.covers m = true → s.covers n = true → m.le n = true →
      Comparable first last m n → s.requiredExp m = .ok exp → s.requiredExp n = .ok exp' →
        exp < exp' + 1 + 2 * CubicBezier.drift high ∧ (high ≤ 2 ^ (48 : Nat) → exp ≤ exp' + 1) := by
  have hlt := h.first_lt_last
  have hlow : (0 : Rat) ≤ low := by exact_mod_cast h.low_nonneg
  have hle : (low : Rat) ≤ high := by exact_mod_cast h.low_le_high
  have hdrift : 0 ≤ CubicBezier.drift high := by
    have hhigh := hlow.trans hle
    unfold CubicBezier.drift
    positivity
  obtain ⟨p1, p2, h01, h12, h23, hvalue⟩ := h.exists_requiredExp
  refine ⟨h.requiredExp_first, h.requiredExp_last, ?_, ?_⟩
  · intro level hcovers hcomparable
    obtain ⟨t, -, ht, -, -⟩ := exists_placedAt_le h.startLevel h.endLevel hlt hcovers hcovers
      (le_self_of_covers h.startLevel hcovers) hcomparable
    obtain ⟨v, hexp, herror⟩ := hvalue level t ht
    obtain ⟨hexactLow, hexactHigh⟩ :=
      CubicBezier.exactValue_bounds h01 h12 h23 ht.unit.low_le ht.unit.le_high
    obtain ⟨herrorLow, herrorHigh⟩ := abs_le.1 herror
    have hroom : 0 ≤ high + CubicBezier.drift high := by linarith
    have hbound : v ≤ high + CubicBezier.drift high := by linarith
    obtain ⟨hnonneg, hcut, hkept⟩ := floor_max_zero_bounds hroom hbound
    have hkeptValue := (le_max_right 0 v).trans_lt hkept
    refine ⟨_, hexp, hnonneg, by linarith, hcut, ?_⟩
    intro hsmall
    have hhalf := drift_lt hsmall
    constructor
    · have hbelow : ((low - 2 : Int) : Rat) < (max 0 v).floor := by
        push_cast
        linarith
      have hbelowInt := Int.cast_lt.1 hbelow
      omega
    · have habove : ((max 0 v).floor : Rat) < (high + 1 : Int) := by
        push_cast
        linarith
      have haboveInt := Int.cast_lt.1 habove
      omega
  · intro m n exp exp' hm hn hmn hcomparable hexp hexp'
    obtain ⟨t, t', ht, ht', horder⟩ :=
      exists_placedAt_le h.startLevel h.endLevel hlt hm hn hmn hcomparable
    obtain ⟨v, hexpValue, herror⟩ := hvalue m t ht
    obtain ⟨v', hexpValue', herror'⟩ := hvalue n t' ht'
    obtain rfl := Except.ok.inj (hexpValue.symm.trans hexp)
    obtain rfl := Except.ok.inj (hexpValue'.symm.trans hexp')
    have hrises :=
      CubicBezier.exactValue_mono h01 h12 h23 ht.unit.low_le horder ht'.unit.le_high
    have hup := (abs_le.1 herror).2
    have hdown := (abs_le.1 herror').1
    obtain ⟨-, -, hkept'⟩ := floor_max_zero_bounds (le_max_left 0 v') (le_max_right 0 v')
    have hroom : 0 ≤ max 0 v' + 2 * CubicBezier.drift high :=
      add_nonneg (le_max_left 0 v') (by linarith)
    have hbound : v ≤ max 0 v' + 2 * CubicBezier.drift high := by linarith [le_max_right 0 v']
    obtain ⟨-, hcut, -⟩ := floor_max_zero_bounds hroom hbound
    refine ⟨by linarith, ?_⟩
    intro hsmall
    have hhalf := drift_lt hsmall
    have hbelow : ((max 0 v).floor : Rat) < ((max 0 v').floor + 2 : Int) := by
      push_cast
      linarith
    have hbelowInt := Int.cast_lt.1 hbelow
    omega

/-- A whole level and one between whole levels of a segment that rises from 100 to 1500. -/
theorem rises_but_for_drift_usual :
    let s : BezierSegment :=
      ⟨⟨"a", .int 1, .int 10⟩, .real (ofNat 100), .real (ofNat 1500), .usual1, .usual2⟩
    s.IsRising 1 10 100 1500 ∧ s.requiredExp (.int 1) = .ok 100 ∧
      s.requiredExp (.int 10) = .ok 1500 ∧ ∃ exp exp' : Int, s.requiredExp (.int 4) = .ok exp ∧
        s.requiredExp (.real (decimal 45 1)) = .ok exp' ∧ 99 ≤ exp ∧ exp ≤ exp' + 1 ∧
        exp' ≤ 1500 := by
  intro s
  have hrising : s.IsRising 1 10 100 1500 := by
    refine ⟨rfl, rfl, by decide, ?_, ?_, by decide, by decide, by decide, ?_, ?_, ?_⟩
    · exact ⟨by decide +kernel, by decide +kernel, by decide +kernel⟩
    · exact ⟨by decide +kernel, by decide +kernel, by decide +kernel⟩
    · exact ⟨by decide +kernel, by decide +kernel, by decide +kernel⟩
    · exact ⟨by decide +kernel, by decide +kernel, by decide +kernel⟩
    · decide +kernel
  obtain ⟨hfirst, hlast, hbounds, hrises⟩ := rises_but_for_drift hrising
  have hsmall : (1 : Int).natAbs ≤ 2 ^ fractionBits ∧ (10 : Int).natAbs ≤ 2 ^ fractionBits := by
    decide
  have hwhole : s.covers (.int 4) = true := by decide +kernel
  have hbinary : s.covers (.real (decimal 45 1)) = true := by decide +kernel
  obtain ⟨exp, hexp, -, -, -, hroom⟩ := hbounds (.int 4) hwhole (Or.inr hsmall)
  obtain ⟨exp', hexp', -, -, -, hroom'⟩ :=
    hbounds (.real (decimal 45 1)) hbinary (Or.inr hsmall)
  have horder := hrises (.int 4) (.real (decimal 45 1)) exp exp' hwhole hbinary
    (by decide +kernel) (Or.inr hsmall) hexp hexp'
  exact ⟨hrising, hfirst, hlast, exp, exp', hexp, hexp', (hroom (by decide)).1,
    horder.2 (by decide), (hroom' (by decide)).2⟩

/-- A point that is lost: a flat segment, whose requirement dips by one at its third level. -/
theorem flat_segment_dips :
    let s : BezierSegment :=
      ⟨⟨"a", .int 1, .int 4⟩, .real (ofNat 7), .real (ofNat 7), .usual1, .usual2⟩
    s.IsRising 1 4 7 7 ∧ s.requiredExp (.int 2) = .ok 7 ∧ s.requiredExp (.int 3) = .ok 6 := by
  intro s
  refine ⟨⟨rfl, rfl, by decide, ?_, ?_, by decide, by decide, by decide, ?_, ?_, ?_⟩, ?_, ?_⟩
  · exact ⟨by decide +kernel, by decide +kernel, by decide +kernel⟩
  · exact ⟨by decide +kernel, by decide +kernel, by decide +kernel⟩
  · exact ⟨by decide +kernel, by decide +kernel, by decide +kernel⟩
  · exact ⟨by decide +kernel, by decide +kernel, by decide +kernel⟩
  · decide +kernel
  · exact Outcome.eq_ok_of_toOption (by decide +kernel)
  · exact Outcome.eq_ok_of_toOption (by decide +kernel)

end BezierSegment

end ExperienceCurves
