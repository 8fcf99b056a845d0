import ExperienceCurves.Proofs.BezierProgress

/-!
Ends of Bezier segments. At the parameters zero and one all powers are exact, three of the four
terms vanish and the fourth is the control value itself, so no rounding touches the requirement of
an end. A boundary between two segments therefore has one requirement, if they agree on it.
-/
namespace ExperienceCurves

-- Powers of whole numbers are those of the core library, whatever else is imported.
attribute [local instance (high)] instPowNat

open Binary64

namespace Binary64

variable {x y : Binary64} {r : Rat}

theorem between_one_mul (hx : x.Between 1 1) (hy : y.isFinite = true) :
    (x * y).Between y.toRat y.toRat := by
  have hone : x.toRat = 1 := le_antisymm hx.le_high hx.low_le
  have hproduct : x.toRat * y.toRat = y.toRat := by rw [hone, one_mul]
  exact between_mul hx.isFinite hy (exact_toRat hy) (exact_toRat hy) hproduct.ge hproduct.le

theorem between_zero_mul (hx : x.Between 0 0) (hy : y.isFinite = true) : (x * y).Between 0 0 := by
  have hzero : x.toRat = 0 := le_antisymm hx.le_high hx.low_le
  have hproduct : x.toRat * y.toRat = 0 := by rw [hzero, zero_mul]
  exact between_mul hx.isFinite hy exact_zero exact_zero hproduct.ge hproduct.le

theorem between_add_zero (hx : x.Between r r) (hy : y.Between 0 0) : (x + y).Between r r := by
  have hvalue : x.toRat = r := le_antisymm hx.le_high hx.low_le
  have hexact : Exact r := ⟨x, hx.isFinite, hvalue⟩
  have hlow := hy.low_le
  have hhigh := hy.le_high
  exact between_add hx.isFinite hy.isFinite hexact hexact (by linarith) (by linarith)

theorem between_zero_add (hx : x.Between 0 0) (hy : y.Between r r) : (x + y).Between r r := by
  have hvalue : y.toRat = r := le_antisymm hy.le_high hy.low_le
  have hexact : Exact r := ⟨y, hy.isFinite, hvalue⟩
  have hlow := hx.low_le
  have hhigh := hx.le_high
  exact between_add hx.isFinite hy.isFinite hexact hexact (by linarith) (by linarith)

end Binary64

namespace CubicBezier

variable {p0 p1 p2 p3 r : Binary64}

/-- At zero the first control value alone counts. -/
theorem between_bernstein_zero (h0 : p0.isFinite = true) (h1 : p1.isFinite = true)
    (h2 : p2.isFinite = true) (h3 : p3.isFinite = true) :
    (bernstein p0 p1 p2 p3 0).Between p0.toRat p0.toRat := by
  have hweight0 : ((ofInt 1 - 0).pow (ofInt 3)).Between 1 1 :=
    ⟨by decide +kernel, by decide +kernel, by decide +kernel⟩
  have hweight1 : (ofInt 3 * (ofInt 1 - 0).pow (ofInt 2) * 0).Between 0 0 :=
    ⟨by decide +kernel, by decide +kernel, by decide +kernel⟩
  have hweight2 : (ofInt 3 * (ofInt 1 - 0) * (0 : Binary64).pow (ofInt 2)).Between 0 0 :=
    ⟨by decide +kernel, by decide +kernel, by decide +kernel⟩
  have hweight3 : ((0 : Binary64).pow (ofInt 3)).Between 0 0 :=
    ⟨by decide +kernel, by decide +kernel, by decide +kernel⟩
  have hfirst := between_add_zero (between_one_mul hweight0 h0) (between_zero_mul hweight1 h1)
  exact between_add_zero (between_add_zero hfirst (between_zero_mul hweight2 h2))
    (between_zero_mul hweight3 h3)

/-- At one the last control value alone counts. -/
theorem between_bernstein_one (h0 : p0.isFinite = true) (h1 : p1.isFinite = true)
    (h2 : p2.isFinite = true) (h3 : p3.isFinite = true) :
    (bernstein p0 p1 p2 p3 1).Between p3.toRat p3.toRat := by
  have hweight0 : ((ofInt 1 - 1).pow (ofInt 3)).Between 0 0 :=
    ⟨by decide +kernel, by decide +kernel, by decide +kernel⟩
  have hweight1 : (ofInt 3 * (ofInt 1 - 1).pow (ofInt 2) * 1).Between 0 0 :=
    ⟨by decide +kernel, by decide +kernel, by decide +kernel⟩
  have hweight2 : (ofInt 3 * (ofInt 1 - 1) * (1 : Binary64).pow (ofInt 2)).Between 0 0 :=
    ⟨by decide +kernel, by decide +kernel, by decide +kernel⟩
  have hweight3 : ((1 : Binary64).pow (ofInt 3)).Between 1 1 :=
    ⟨by decide +kernel, by decide +kernel, by decide +kernel⟩
  have hfirst := between_add_zero (between_zero_mul hweight0 h0) (between_zero_mul hweight1 h1)
  exact between_zero_add (between_add_zero hfirst (between_zero_mul hweight2 h2))
    (between_one_mul hweight3 h3)

theorem clamp_of_nonpos (hr : r.isFinite = true) (h : r.toRat ≤ 0) :
    clamp (.real 0) (.real 1) (.real r) = .real 0 := by
  have hone : (Number.real r).lt (.real 1) = true := by
    rw [Number.lt_real, lt_of_isFinite hr isFinite_one, toRat_one, decide_eq_true_eq]
    linarith
  have hzero : ¬(Number.real 0).lt (.real r) = true := by
    rw [Number.lt_real, zero_lt_of_isFinite hr, decide_eq_true_eq]
    exact not_lt.2 h
  unfold clamp Number.min Number.max
  rw [if_pos hone, if_neg hzero]

theorem clamp_of_one_le (hr : r.isFinite = true) (h : 1 ≤ r.toRat) :
    clamp (.real 0) (.real 1) (.real r) = .real 1 := by
  have hone : ¬(Number.real r).lt (.real 1) = true := by
    rw [Number.lt_real, lt_of_isFinite hr isFinite_one, toRat_one, decide_eq_true_eq]
    exact not_lt.2 h
  have hzero : (Number.real 0).lt (.real 1) = true := by decide +kernel
  unfold clamp Number.min Number.max
  rw [if_neg hone, if_pos hzero]

end CubicBezier

namespace BezierSegment

/-- Whole levels in order, binary ends that are not below zero, and finite control values. -/
structure HasPoints (s : BezierSegment) (first last : Int) (p0 p1 p2 p3 : Binary64) : Prop where
  startLevel : s.startLevel = .int first
  endLevel : s.endLevel = .int last
  first_lt_last : first < last
  curve : s.curve = .ok ⟨.real p0, .real p1, .real p2, .real p3⟩
  isFinite0 : p0.isFinite = true
  isFinite1 : p1.isFinite = true
  isFinite2 : p2.isFinite = true
  isFinite3 : p3.isFinite = true
  start_nonneg : 0 ≤ p0.toRat
  end_nonneg : 0 ≤ p3.toRat

variable {s t : BezierSegment} {first last level : Int} {p0 p1 p2 p3 u : Binary64}

/-- A finite value is rounded down, or up to zero. -/
theorem floor_max_zero {v : Binary64} (hv : v.isFinite = true) :
    ((Number.real 0).max (.real v)).floor = .ok (max 0 v.toRat).floor := by
  unfold Number.max
  rw [Number.lt_real, zero_lt_of_isFinite hv]
  by_cases hpos : 0 < v.toRat
  · rw [if_pos (decide_eq_true hpos), max_eq_right hpos.le, Number.floor_real hv]
  · rw [if_neg (by simpa using hpos), max_eq_left (not_lt.1 hpos),
      Number.floor_real isFinite_zero, toRat_zero]

/-- The curve of a segment, its control values as binary numbers. -/
def HasCurve (s : BezierSegment) (p0 p1 p2 p3 : Binary64) : Prop :=
  ∃ c, s.curve = .ok c ∧ c.p0.toBinary64 = .ok p0 ∧ c.p1.toBinary64 = .ok p1 ∧
    c.p2.toBinary64 = .ok p2 ∧ c.p3.toBinary64 = .ok p3

theorem HasPoints.hasCurve (h : s.HasPoints first last p0 p1 p2 p3) : s.HasCurve p0 p1 p2 p3 :=
  ⟨_, h.curve, rfl, rfl, rfl, rfl⟩

section Curve

variable {level : Number}

/-- The requirement at a parameter that the clamp keeps. -/
theorem requiredExp_of_clamp (hcurve : s.HasCurve p0 p1 p2 p3)
    (hparameter : s.parameter level = .ok (.real u))
    (hclamp : CubicBezier.clamp (.real 0) (.real 1) (.real u) = .real u) (hu : u.Between 0 1)
    (hvalue : (CubicBezier.bernstein p0 p1 p2 p3 u).isFinite = true) :
    s.requiredExp level = .ok (max 0 (CubicBezier.bernstein p0 p1 p2 p3 u).toRat).floor := by
  obtain ⟨c, hc, h0, h1, h2, h3⟩ := hcurve
  rw [← floor_max_zero hvalue]
  unfold requiredExp
  rw [hparameter]
  change s.curve >>= (fun c => c.evaluate (.real u) >>= fun exp => _) = _
  rw [hc]
  change CubicBezier.evaluate _ (.real u) >>= _ = _
  rw [CubicBezier.evaluate, hclamp, CubicBezier.valueAt_real h0 h1 h2 h3 hu]
  rfl

theorem requiredExp_zero (hcurve : s.HasCurve p0 p1 p2 p3) (h0 : p0.isFinite = true)
    (h1 : p1.isFinite = true) (h2 : p2.isFinite = true) (h3 : p3.isFinite = true)
    (hparameter : s.parameter level = .ok (.real 0)) (hnonneg : 0 ≤ p0.toRat) :
    s.requiredExp level = .ok p0.toRat.floor := by
  have hzero : (0 : Binary64).Between 0 1 :=
    ⟨isFinite_zero, toRat_zero.ge, toRat_zero.le.trans zero_le_one⟩
  have hvalue := CubicBezier.between_bernstein_zero h0 h1 h2 h3
  rw [requiredExp_of_clamp hcurve hparameter (by decide +kernel) hzero hvalue.isFinite,
    le_antisymm hvalue.le_high hvalue.low_le, max_eq_right hnonneg]

theorem requiredExp_one (hcurve : s.HasCurve p0 p1 p2 p3) (h0 : p0.isFinite = true)
    (h1 : p1.isFinite = true) (h2 : p2.isFinite = true) (h3 : p3.isFinite = true)
    (hparameter : s.parameter level = .ok (.real 1)) (hnonneg : 0 ≤ p3.toRat) :
    s.requiredExp level = .ok p3.toRat.floor := by
  have hvalue := CubicBezier.between_bernstein_one h0 h1 h2 h3
  rw [requiredExp_of_clamp hcurve hparameter (by decide +kernel) between_one hvalue.isFinite,
    le_antisymm hvalue.le_high hvalue.low_le, max_eq_right hnonneg]

end Curve

/-- A quotient of whole numbers that is not too large for the format. -/
def Measures (first last level : Int) : Prop :=
  |((level - first : Int) : Rat) / (last - first : Int)| ≤ greatest

/-- A level at the first one or below it is placed at zero. -/
theorem parameter_of_le_first (hstart : s.startLevel = .int first) (hend : s.endLevel = .int last)
    (hlt : first < last) (hle : level ≤ first) (hmeasures : Measures first last level) :
    s.parameter (.int level) = .ok (.real 0) := by
  have hspan : 0 < last - first := by omega
  have hratioLe : ((level - first : Int) : Rat) / (last - first : Int) ≤ 0 := by
    apply div_nonpos_of_nonpos_of_nonneg
    · exact_mod_cast (by omega : level - first ≤ 0)
    · exact_mod_cast hspan.le
  obtain ⟨ratio, hquotient, hratio⟩ :=
    Number.between_quotient hspan exact_greatest.neg exact_zero (abs_le.1 hmeasures).1 hratioLe
  rw [parameter_whole hstart hend hlt rfl hquotient,
    CubicBezier.clamp_of_nonpos hratio.isFinite hratio.le_high]

/-- A level at the last one or above it is placed at one. -/
theorem parameter_of_last_le (hstart : s.startLevel = .int first) (hend : s.endLevel = .int last)
    (hlt : first < last) (hle : last ≤ level) (hmeasures : Measures first last level) :
    s.parameter (.int level) = .ok (.real 1) := by
  have hspan : 0 < last - first := by omega
  have hleRatio : 1 ≤ ((level - first : Int) : Rat) / (last - first : Int) := by
    rw [one_le_div (by exact_mod_cast hspan)]
    exact_mod_cast (by omega : last - first ≤ level - first)
  obtain ⟨ratio, hquotient, hratio⟩ :=
    Number.between_quotient hspan exact_one exact_greatest hleRatio (abs_le.1 hmeasures).2
  rw [parameter_whole hstart hend hlt rfl hquotient,
    CubicBezier.clamp_of_one_le hratio.isFinite hratio.low_le]

/-- At the first level and below it the requirement is that of the start. -/
theorem requiredExp_of_le_first (h : s.HasPoints first last p0 p1 p2 p3) (hle : level ≤ first)
    (hmeasures : Measures first last level) :
    s.requiredExp (.int level) = .ok p0.toRat.floor :=
  requiredExp_zero h.hasCurve h.isFinite0 h.isFinite1 h.isFinite2 h.isFinite3
    (parameter_of_le_first h.startLevel h.endLevel h.first_lt_last hle hmeasures) h.start_nonneg

/-- At the last level and above it the requirement is that of the end. -/
theorem requiredExp_of_last_le (h : s.HasPoints first last p0 p1 p2 p3) (hle : last ≤ level)
    (hmeasures : Measures first last level) :
    s.requiredExp (.int level) = .ok p3.toRat.floor :=
  requiredExp_one h.hasCurve h.isFinite0 h.isFinite1 h.isFinite2 h.isFinite3
    (parameter_of_last_le h.startLevel h.endLevel h.first_lt_last hle hmeasures) h.end_nonneg

theorem measures_first (first last : Int) : Measures first last first := by
  unfold Measures
  rw [sub_self, Int.cast_zero, zero_div, abs_zero]
  exact Nat.cast_nonneg greatest

theorem measures_last (h : first < last) : Measures first last last := by
  have hspan : ((last - first : Int) : Rat) ≠ 0 := by
    exact_mod_cast (by omega : last - first ≠ 0)
  unfold Measures
  rw [div_self hspan, abs_one]
  exact_mod_cast Nat.mul_pos (by decide : 0 < 2 ^ (fractionBits + 1) - 1) (Nat.two_pow_pos 971)

/-- Levels of up to 300 digits. -/
theorem measures_of_natAbs_le (h : first < last) (hfirst : first.natAbs ≤ 10 ^ (300 : Nat))
    (hlevel : level.natAbs ≤ 10 ^ (300 : Nat)) : Measures first last level := by
  have hroom : 2 * 10 ^ (300 : Nat) ≤ greatest := by decide +kernel
  have hspan : (1 : Rat) ≤ ((last - first : Int) : Rat) := by
    exact_mod_cast (by omega : 1 ≤ last - first)
  have hoffset : |((level - first : Int) : Rat)| ≤ greatest := by
    rw [← Int.cast_abs, ← Nat.cast_natAbs]
    exact_mod_cast (by omega : (level - first).natAbs ≤ greatest)
  unfold Measures
  rw [abs_div, abs_of_pos (by linarith : (0 : Rat) < ((last - first : Int) : Rat))]
  exact (div_le_self (abs_nonneg _) hspan).trans hoffset

theorem covers_whole (h : s.HasPoints first last p0 p1 p2 p3) (hlow : first ≤ level)
    (hhigh : level ≤ last) : s.covers (.int level) = true := by
  rw [Span.covers, h.startLevel, h.endLevel, Number.le_int, Number.le_int, decide_eq_true hlow,
    decide_eq_true hhigh]
  rfl

/-- If all segments that cover a level have the same requirement there, so has the curve, whichever
of them decides. -/
theorem atLevel_of_all {c : Curve} {level : Number} {exp : Int} (hmode : c.useBezier = true)
    (hs : s ∈ c.bezierSegments) (hcovers : s.covers level = true)
    (hall : ∀ r ∈ c.bezierSegments, r.covers level = true → r.requiredExp level = .ok exp) :
    Requirement.atLevel (some c) level = .ok (some exp) := by
  have hactive : c.active = c.bezierSegments.map .bezier := by
    rw [Curve.active, hmode, if_pos rfl]
  apply Requirement.atLevel_of_ok
  unfold Requirement.strict
  cases hfound : c.segmentAt? level with
  | none =>
    have hnone := List.find?_eq_none.1 hfound (.bezier s)
      (hactive ▸ List.mem_map_of_mem hs)
    exact absurd hcovers hnone
  | some found =>
    have hmem := List.mem_of_find?_eq_some hfound
    have hfoundCovers := List.find?_some hfound
    rw [hactive] at hmem
    obtain ⟨r, hr, rfl⟩ := List.mem_map.1 hmem
    exact Outcome.ofFault_eq_ok_iff.2 (hall r hr hfoundCovers)

/-- The ends of a segment are exact: the requirement of the start holds at the first level and below
it, that of the end at the last level and above it. Where the next segment begins at the same level
with the same requirement, both segments have it there, and so has a curve in which only the two of
them cover the level, in whatever order they stand. -/
theorem exact_at_ends (h : s.HasPoints first last p0 p1 p2 p3) :
    (first.natAbs ≤ 10 ^ (300 : Nat) → ∀ level : Int, level.natAbs ≤ 10 ^ (300 : Nat) →
      (level ≤ first → s.requiredExp (.int level) = .ok p0.toRat.floor) ∧
      (last ≤ level → s.requiredExp (.int level) = .ok p3.toRat.floor)) ∧
    ∀ (t : BezierSegment) (final : Int) (q0 q1 q2 q3 : Binary64),
      t.HasPoints last final q0 q1 q2 q3 → p3.eq q0 = true →
        s.requiredExp (.int last) = .ok p3.toRat.floor ∧
        t.requiredExp (.int last) = .ok p3.toRat.floor ∧
        ∀ c : Curve, c.useBezier = true → s ∈ c.bezierSegments →
          (∀ r ∈ c.bezierSegments, r.covers (.int last) = true → r = s ∨ r = t) →
          Requirement.atLevel (some c) (.int last) = .ok (some p3.toRat.floor) := by
  have hlt := h.first_lt_last
  constructor
  · intro hfirst level hlevel
    have hmeasures := measures_of_natAbs_le hlt hfirst hlevel
    exact ⟨fun hle => requiredExp_of_le_first h hle hmeasures,
      fun hle => requiredExp_of_last_le h hle hmeasures⟩
  · intro t final q0 q1 q2 q3 ht hsame
    have hvalue : p3.toRat = q0.toRat := by
      rwa [eq_of_isFinite h.isFinite3 ht.isFinite0, decide_eq_true_eq] at hsame
    have hend := requiredExp_of_last_le h le_rfl (measures_last hlt)
    have hstart := requiredExp_of_le_first ht le_rfl (measures_first last final)
    rw [← hvalue] at hstart
    refine ⟨hend, hstart, ?_⟩
    intro c hmode hs honly
    apply atLevel_of_all hmode hs (covers_whole h hlt.le le_rfl)
    intro r hr hcovers
    rcases honly r hr hcovers with rfl | rfl
    · exact hend
    · exact hstart

/-- Two segments that meet at level ten, where the steeper one begins. -/
theorem exact_at_ends_joined :
    let s : BezierSegment :=
      ⟨⟨"a", .int 1, .int 10⟩, .real (ofNat 100), .real (decimal 15005 1), .usual1, .usual2⟩
    let t : BezierSegment :=
      ⟨⟨"b", .int 10, .int 20⟩, .real (decimal 15005 1), .real (ofNat 9000), .usual1, .usual2⟩
    let c : Curve := ⟨[], [t, s], true, none⟩
    s.requiredExp (.int (-7)) = .ok 100 ∧ s.requiredExp (.int 10) = .ok 1500 ∧
      t.requiredExp (.int 10) = .ok 1500 ∧
      Requirement.atLevel (some c) (.int 10) = .ok (some 1500) := by
  intro s t c
  have hs : s.HasPoints 1 10 (ofNat 100) (ofNat 100 + decimal 1 1 * (decimal 15005 1 - ofNat 100))
      (ofNat 100 + decimal 9 1 * (decimal 15005 1 - ofNat 100)) (decimal 15005 1) :=
    ⟨rfl, rfl, by decide, Outcome.eq_ok_of_toOption (by decide +kernel), by decide +kernel,
      by decide +kernel, by decide +kernel, by decide +kernel, by decide +kernel,
      by decide +kernel⟩
  have ht : t.HasPoints 10 20 (decimal 15005 1)
      (decimal 15005 1 + decimal 1 1 * (ofNat 9000 - decimal 15005 1))
      (decimal 15005 1 + decimal 9 1 * (ofNat 9000 - decimal 15005 1)) (ofNat 9000) :=
    ⟨rfl, rfl, by decide, Outcome.eq_ok_of_toOption (by decide +kernel), by decide +kernel,
      by decide +kernel, by decide +kernel, by decide +kernel, by decide +kernel,
      by decide +kernel⟩
  obtain ⟨hbeyond, hjoined⟩ := exact_at_ends hs
  obtain ⟨hend, hstart, hcurve⟩ := hjoined t 20 _ _ _ _ ht (by decide +kernel)
  have hfirst : (ofNat 100).toRat.floor = 100 := by decide +kernel
  have hlast : (decimal 15005 1).toRat.floor = 1500 := by decide +kernel
  have hbelow := (hbeyond (by decide +kernel) (-7) (by decide +kernel)).1 (by decide)
  rw [hfirst] at hbelow
  rw [hlast] at hend hstart hcurve
  refine ⟨hbelow, hend, hstart, hcurve c rfl (by simp [c]) ?_⟩
  intro r hr _
  simpa [c, or_comm] using hr

end BezierSegment

end ExperienceCurves
