import ExperienceCurves.Editing
import ExperienceCurves.Proofs.NumberOrder
import ExperienceCurves.Proofs.Ranges
import ExperienceCurves.Proofs.UnitPowers

/-!
Requirements of Bezier segments. Between the levels of a segment with finite ends the polynomial
always has a value among the binary numbers, and rounding it down gives a requirement within the
range unless it overflows to infinity. For ends up to a 32nd of the range no step overflows.
-/
namespace ExperienceCurves

-- Powers of whole numbers are those of the core library, whatever else is imported.
attribute [local instance (high)] instPowNat

namespace Binary64

/-- Finite and at most as far from zero as a bound. -/
abbrev Within (bound : Rat) (x : Binary64) : Prop := x.Between (-bound) bound

variable {a b c : Rat} {x y : Binary64}

theorem Within.abs_toRat_le (h : x.Within a) : |x.toRat| ≤ a := abs_le.2 ⟨h.low_le, h.le_high⟩

theorem Between.within (h : x.Between 0 a) : x.Within a :=
  h.mono (neg_nonpos.2 (h.low_le.trans h.le_high)) le_rfl

theorem Within.add (hx : x.Within a) (hy : y.Within b) (hc : Exact c) (hle : a + b ≤ c) :
    (x + y).Within c := by
  have hxlow := hx.low_le
  have hxhigh := hx.le_high
  have hylow := hy.low_le
  have hyhigh := hy.le_high
  exact between_add hx.isFinite hy.isFinite hc.neg hc (by linarith) (by linarith)

theorem Within.mul (hx : x.Within a) (hy : y.Within b) (hc : Exact c) (hle : a * b ≤ c) :
    (x * y).Within c := by
  have hproduct : |x.toRat * y.toRat| ≤ c := by
    rw [abs_mul]
    have ha : 0 ≤ a := (abs_nonneg _).trans hx.abs_toRat_le
    exact (mul_le_mul hx.abs_toRat_le hy.abs_toRat_le (abs_nonneg _) ha).trans hle
  obtain ⟨hlow, hhigh⟩ := abs_le.1 hproduct
  exact between_mul hx.isFinite hy.isFinite hc.neg hc hlow hhigh

theorem exact_greatest : Exact greatest := by
  rw [← scaled_greatest]
  exact exact_scaled (by decide) (by decide) le_rfl

/-- A whole number is rounded as a rational one is. -/
theorem ofInt_eq_ofRat (n : Int) : ofInt n = ofRat false (n : Rat) := by
  by_cases hzero : n = 0
  · subst hzero
    rfl
  · rw [ofRat, if_neg (by exact_mod_cast hzero), Rat.num_intCast, Rat.den_intCast, ofInt]
    congr 1
    simp

/-- A whole number between two numbers of the format is rounded to a number between them. -/
theorem between_ofInt {low high : Rat} {n : Int} (hlow : Exact low) (hhigh : Exact high)
    (hlowLe : low ≤ n) (hleHigh : (n : Rat) ≤ high) :
    ofInt? n = .ok (ofInt n) ∧ (ofInt n).Between low high := by
  have hbetween : (ofInt n).Between low high := by
    rw [ofInt_eq_ofRat]
    exact between_ofRat false hlow hhigh hlowLe hleHigh
  exact ⟨ofInt?_eq_ok_iff.2 ⟨rfl, isInfinite_of_isFinite hbetween.isFinite⟩, hbetween⟩

/-- A whole number that the format can hold. -/
theorem ofInt_exact {n : Int} (h : n.natAbs ≤ 2 ^ (fractionBits + 1)) :
    ofInt? n = .ok (ofInt n) ∧ (ofInt n).isFinite = true ∧ (ofInt n).toRat = n := by
  have hexact := exact_intCast h
  obtain ⟨hdefined, hbetween⟩ := between_ofInt hexact hexact le_rfl le_rfl
  exact ⟨hdefined, hbetween.isFinite, le_antisymm hbetween.le_high hbetween.low_le⟩

end Binary64

open Binary64

namespace Number

/-- A whole or finite number between two bounds. -/
def Between (low high : Rat) (n : Number) : Prop :=
  match n.plain with
  | .int k => low ≤ k ∧ (k : Rat) ≤ high
  | .real x => x.Between low high
  | .truth _ => False

variable {m n : Number} {low high : Rat}

theorem Between.exists_toBinary64 (h : n.Between low high) (hlow : Exact low)
    (hhigh : Exact high) : ∃ x, n.toBinary64 = .ok x ∧ x.Between low high := by
  unfold Between at h
  unfold toBinary64
  rcases plain_cases n with ⟨k, hk⟩ | ⟨x, -, hx⟩
  · rw [hk] at h ⊢
    exact ⟨_, between_ofInt hlow hhigh h.1 h.2⟩
  · rw [hx] at h ⊢
    exact ⟨x, rfl, h⟩

/-- The difference of two bounded numbers. -/
theorem sub_between {low' high' least most : Rat} (hm : m.Between low high)
    (hn : n.Between low' high') (hlow : Exact low) (hhigh : Exact high) (hlow' : Exact low')
    (hhigh' : Exact high') (hleast : Exact least) (hmost : Exact most)
    (hleastLe : least ≤ low - high') (hleMost : high - low' ≤ most) :
    ∃ d x, m.sub n = .ok d ∧ d.toBinary64 = .ok x ∧ x.Between least most := by
  obtain ⟨x, hx, hxBetween⟩ := hm.exists_toBinary64 hlow hhigh
  obtain ⟨y, hy, hyBetween⟩ := hn.exists_toBinary64 hlow' hhigh'
  have hrounded : (x - y).Between least most := by
    have hxlow := hxBetween.low_le
    have hxhigh := hxBetween.le_high
    have hylow := hyBetween.low_le
    have hyhigh := hyBetween.le_high
    exact between_sub hxBetween.isFinite hyBetween.isFinite hleast hmost (by linarith)
      (by linarith)
  rcases plain_cases m with ⟨i, hi⟩ | ⟨x', rfl, -⟩
  · rcases plain_cases n with ⟨j, hj⟩ | ⟨y', rfl, -⟩
    · have hsub : m.sub n = .ok (.int (i - j)) := by
        unfold sub combine
        rw [hi, hj]
      unfold Between at hm hn
      rw [hi] at hm
      rw [hj] at hn
      obtain ⟨hilow, hihigh⟩ := hm
      obtain ⟨hjlow, hjhigh⟩ := hn
      have hdifference := between_ofInt (n := i - j) hleast hmost
        (by push_cast; linarith) (by push_cast; linarith)
      exact ⟨_, _, hsub, hdifference⟩
    · exact ⟨_, _, combine_binary hx hy (Or.inr (congrArg _ (Except.ok.inj hy))), rfl, hrounded⟩
  · exact ⟨_, _, combine_binary hx hy (Or.inl (congrArg _ (Except.ok.inj hx))), rfl, hrounded⟩

/-- A quotient of whole numbers between two numbers of the format is rounded to a number between
them. -/
theorem between_quotient {a b : Int} (hpos : 0 < b) (hlow : Exact low) (hhigh : Exact high)
    (hlowLe : low ≤ (a : Rat) / b) (hleHigh : (a : Rat) / b ≤ high) :
    ∃ x, quotient a b = .ok (.real x) ∧ x.Between low high := by
  have hb : (0 : Rat) < b := by exact_mod_cast hpos
  have hsize : ((b.natAbs : Nat) : Rat) = b := by
    rw [Nat.cast_natAbs, abs_of_pos hpos]
  have hnum : ((a.natAbs : Nat) : Rat) = |(a : Rat) / b| * b.natAbs := by
    rw [hsize, abs_div, abs_of_pos hb, div_mul_cancel₀ _ hb.ne', Nat.cast_natAbs, Int.cast_abs]
  have hsign : (decide (a < 0) != decide (b < 0)) = decide ((a : Rat) / b < 0) := by
    rw [decide_eq_false (by omega : ¬b < 0), Bool.bne_false, decide_eq_decide, div_lt_iff₀ hb,
      zero_mul, Int.cast_lt_zero]
  have hbetween := between_nearest (by omega) hnum hlow hhigh hlowLe hleHigh
  refine ⟨_, ?_, hbetween⟩
  unfold quotient
  rw [if_neg hpos.ne', hsign]
  dsimp only
  rw [isInfinite_of_isFinite hbetween.isFinite, if_neg Bool.false_ne_true]

/-- A quotient of whole numbers that is at most one. -/
theorem exists_quotient {a b : Int} (hlow : 0 ≤ a) (hle : a ≤ b) (hpos : 0 < b) :
    ∃ x, quotient a b = .ok (.real x) := by
  have hb : (0 : Rat) < b := by exact_mod_cast hpos
  obtain ⟨x, hx, -⟩ := between_quotient (a := a) hpos exact_zero exact_one
    (div_nonneg (by exact_mod_cast hlow) hb.le) ((div_le_one hb).2 (by exact_mod_cast hle))
  exact ⟨x, hx⟩

end Number

namespace CubicBezier

/-- Whatever is limited to the unit interval lies in it. -/
theorem exists_clamp (r : Binary64) :
    ∃ t, clamp (.real 0) (.real 1) (.real r) = .real t ∧ t.Between 0 1 := by
  have hzero : (0 : Binary64).Between 0 1 :=
    ⟨isFinite_zero, toRat_zero.ge, toRat_zero.le.trans zero_le_one⟩
  unfold clamp Number.min Number.max
  by_cases hhigh : (Number.real r).lt (.real 1) = true
  · rw [if_pos hhigh]
    by_cases hlow : (Number.real 0).lt (.real r) = true
    · rw [if_pos hlow]
      refine ⟨r, rfl, ?_⟩
      rw [Number.lt_real] at hlow hhigh
      cases r with
      | nan => cases hhigh
      | infinite negative =>
        rw [zero_lt_infinite, Bool.not_eq_true'] at hlow
        subst hlow
        cases hhigh
      | finite negative mantissa exponent hcanonical =>
        rw [lt_of_isFinite rfl isFinite_one, toRat_one, decide_eq_true_eq] at hhigh
        rw [zero_lt_of_isFinite rfl, decide_eq_true_eq] at hlow
        exact ⟨rfl, hlow.le, hhigh.le⟩
    · rw [if_neg hlow]
      exact ⟨0, rfl, hzero⟩
  · rw [if_neg hhigh]
    split
    · exact ⟨1, rfl, between_one⟩
    · exact ⟨0, rfl, hzero⟩

/-- The polynomial among binary numbers. -/
def bernstein (p0 p1 p2 p3 t : Binary64) : Binary64 :=
  let u := ofInt 1 - t
  u.pow (ofInt 3) * p0 + ofInt 3 * u.pow (ofInt 2) * t * p1 + ofInt 3 * u * t.pow (ofInt 2) * p2 +
    t.pow (ofInt 3) * p3

variable {c : CubicBezier} {p0 p1 p2 p3 t : Binary64}

theorem between_complement (ht : t.Between 0 1) : (ofInt 1 - t).Between 0 1 := by
  have hone : (ofInt 1).toRat = 1 := toRat_one
  have hlow := ht.low_le
  have hhigh := ht.le_high
  exact between_sub isFinite_one ht.isFinite exact_zero exact_one (by linarith) (by linarith)

/-- On the unit interval the polynomial always has a value. -/
theorem valueAt_real (h0 : c.p0.toBinary64 = .ok p0) (h1 : c.p1.toBinary64 = .ok p1)
    (h2 : c.p2.toBinary64 = .ok p2) (h3 : c.p3.toBinary64 = .ok p3) (ht : t.Between 0 1) :
    c.valueAt (.real t) = .ok (.real (bernstein p0 p1 p2 p3 t)) := by
  have hsmall (n : Int) (hlow : 1 ≤ n) (hhigh : n ≤ 3) : n ≤ Requirement.greatest :=
    hhigh.trans (by decide +kernel)
  have hone : (Number.int 1).toBinary64 = .ok (ofInt 1) :=
    ofInt?_eq_ok (Requirement.natAbs_le (by decide) (hsmall 1 le_rfl (by decide)))
  have hthree : (Number.int 3).toBinary64 = .ok (ofInt 3) :=
    ofInt?_eq_ok (Requirement.natAbs_le (by decide) (hsmall 3 (by decide) le_rfl))
  have hu := between_complement ht
  have hu2 := Number.pow_unit hu (by decide) (hsmall 2 (by decide) (by decide))
  have hu3 := Number.pow_unit hu (by decide) (hsmall 3 (by decide) le_rfl)
  have ht2 := Number.pow_unit ht (by decide) (hsmall 2 (by decide) (by decide))
  have ht3 := Number.pow_unit ht (by decide) (hsmall 3 (by decide) le_rfl)
  have hmul {n : Number} {x : Binary64} (y : Binary64) (hn : n.toBinary64 = .ok x) :
      (Number.real y).mul n = .ok (.real (y * x)) := Number.combine_binary rfl hn (Or.inl rfl)
  refine Outcome.bind_eq_ok_iff.2 ⟨_, Number.combine_binary hone rfl (Or.inr rfl), ?_⟩
  refine Outcome.bind_eq_ok_iff.2 ⟨_, hu3.1, ?_⟩
  refine Outcome.bind_eq_ok_iff.2 ⟨_, hu2.1, ?_⟩
  refine Outcome.bind_eq_ok_iff.2 ⟨_, Number.mul_real hthree _, ?_⟩
  refine Outcome.bind_eq_ok_iff.2 ⟨_, hmul _ rfl, ?_⟩
  refine Outcome.bind_eq_ok_iff.2 ⟨_, Number.mul_real hthree _, ?_⟩
  refine Outcome.bind_eq_ok_iff.2 ⟨_, ht2.1, ?_⟩
  refine Outcome.bind_eq_ok_iff.2 ⟨_, hmul _ rfl, ?_⟩
  refine Outcome.bind_eq_ok_iff.2 ⟨_, ht3.1, ?_⟩
  refine Outcome.bind_eq_ok_iff.2 ⟨_, hmul _ h0, ?_⟩
  refine Outcome.bind_eq_ok_iff.2 ⟨_, hmul _ h1, ?_⟩
  refine Outcome.bind_eq_ok_iff.2 ⟨_, rfl, ?_⟩
  refine Outcome.bind_eq_ok_iff.2 ⟨_, hmul _ h2, ?_⟩
  refine Outcome.bind_eq_ok_iff.2 ⟨_, rfl, ?_⟩
  refine Outcome.bind_eq_ok_iff.2 ⟨_, hmul _ h3, ?_⟩
  rfl

/-- A 32nd of the range, which leaves room for the control values and the sum of the terms. -/
def safeExp : Rat := (2 : Rat) ^ (1019 : Int)

theorem safeExp_pos : 0 < safeExp := by
  unfold safeExp
  positivity

/-- Up to 31 times the safe requirement is a number of the format. -/
theorem exact_mul_safeExp {n : Nat} (h : n < 32) : Exact (n * safeExp) := by
  have hscaled : (n : Rat) * safeExp = scaled (n * 2 ^ 48) 971 := by
    rw [scaled_eq (n * 2 ^ 48), ← scaled_shift, scaled_eq]
    rfl
  rw [hscaled]
  have hwidth : 2 ^ (fractionBits + 1) = 32 * 2 ^ 48 := by decide
  exact exact_scaled (by omega) (by decide) le_rfl

/-- With ends up to the safe requirement and control values up to four times of it, no step of the
polynomial leaves the range. -/
theorem within_bernstein (h0 : p0.Within safeExp) (h1 : p1.Within (4 * safeExp))
    (h2 : p2.Within (4 * safeExp)) (h3 : p3.Within safeExp) (ht : t.Between 0 1) :
    (bernstein p0 p1 p2 p3 t).Within (26 * safeExp) := by
  have hpositive := safeExp_pos
  have hexact (n : Nat) (h : n < 32) := exact_mul_safeExp h
  have hexact1 : Exact safeExp := by simpa using hexact 1 (by decide)
  have hexact3 : Exact 3 := ⟨ofInt 3, by decide +kernel, by decide +kernel⟩
  have hthree : (ofInt 3).Within 3 := ⟨by decide +kernel, by decide +kernel, by decide +kernel⟩
  have hpower {x : Binary64} (hx : x.Between 0 1) (n : Int) (hone : 1 ≤ n) (hn : n ≤ 3) :
      (x.pow (ofInt n)).Within 1 :=
    (Number.pow_unit hx hone (hn.trans (by decide +kernel))).2.within
  have hu := between_complement ht
  have hfirst : ((ofInt 1 - t).pow (ofInt 3) * p0).Within safeExp :=
    (hpower hu 3 (by decide) le_rfl).mul h0 hexact1 (by linarith)
  have hsecond : (ofInt 3 * (ofInt 1 - t).pow (ofInt 2) * t * p1).Within (12 * safeExp) := by
    have hweight := (hthree.mul (hpower hu 2 (by decide) (by decide)) hexact3 (by norm_num)).mul
      ht.within hexact3 (by norm_num)
    exact hweight.mul h1 (hexact 12 (by decide)) (by linarith)
  have hthird : (ofInt 3 * (ofInt 1 - t) * t.pow (ofInt 2) * p2).Within (12 * safeExp) := by
    have hweight := (hthree.mul hu.within hexact3 (by norm_num)).mul
      (hpower ht 2 (by decide) (by decide)) hexact3 (by norm_num)
    exact hweight.mul h2 (hexact 12 (by decide)) (by linarith)
  have hfourth : (t.pow (ofInt 3) * p3).Within safeExp :=
    (hpower ht 3 (by decide) le_rfl).mul h3 hexact1 (by linarith)
  have hsum2 := hfirst.add hsecond (hexact 13 (by decide)) (by push_cast; linarith)
  have hsum3 := hsum2.add hthird (hexact 25 (by decide)) (by push_cast; linarith)
  exact hsum3.add hfourth (hexact 26 (by decide)) (by push_cast; linarith)

end CubicBezier

namespace BezierSegment

/-- Whole levels in order, finite ends that are not negative, and control ratios within the bounds
of drags. -/
structure IsOrdinary (s : BezierSegment) : Prop where
  levels : ∃ maxLevel, s.Within maxLevel
  startExp : s.startExp.Between 0 greatest
  endExp : s.endExp.Between 0 greatest
  control1 : s.control1.y.Between (-1 / 2) 3
  control2 : s.control2.y.Between (-1 / 2) 3

/-- The value at a level, before it is rounded down. -/
def valueAt (s : BezierSegment) (level : Number) : Except Fault Number := do
  let t ← s.parameter level
  (← s.curve).evaluate t

/-- The sum of the polynomial leaves the range upward. -/
def Overflows (s : BezierSegment) (level : Number) : Prop :=
  s.valueAt level = .ok (.real (.infinite false))

/-- Ends that leave room for everything the polynomial adds up. -/
def IsSafe (s : BezierSegment) : Prop :=
  s.startExp.Between 0 CubicBezier.safeExp ∧ s.endExp.Between 0 CubicBezier.safeExp

/-- The number of levels has no binary number, which only a level between whole ones needs. -/
def IsTooLong (s : BezierSegment) : Prop :=
  ∃ span, s.endLevel.sub s.startLevel = .ok span ∧ span.toBinary64 = .error .integerTooLarge

variable {s : BezierSegment} {level : Number} {first last : Int}

theorem requiredExp_eq (s : BezierSegment) (level : Number) :
    s.requiredExp level = s.valueAt level >>= fun exp => ((Number.real 0).max exp).floor := by
  unfold requiredExp valueAt
  rw [bind_assoc]
  congr 1
  funext t
  rw [bind_assoc]

/-- The parameter is the offset from the first level, divided by the number of levels. -/
theorem parameter_eq (hstart : s.startLevel = .int first) (hend : s.endLevel = .int last)
    (hlt : first < last) {offset : Number} (hoffset : level.sub (.int first) = .ok offset) :
    s.parameter level = offset.div (.int (last - first)) >>= fun ratio =>
      .ok (CubicBezier.clamp (.real 0) (.real 1) ratio) := by
  have hspan : ¬ (Number.int (last - first)).le 0 = true := by
    rw [Number.zero_eq, Number.le_int, decide_eq_true_eq]
    omega
  unfold parameter
  rw [hstart, hend, hoffset]
  exact if_neg hspan

/-- The offset of a whole level from the first one, against the number of levels. -/
theorem parameter_whole (hstart : s.startLevel = .int first) (hend : s.endLevel = .int last)
    (hlt : first < last) {n : Int} (hlevel : level.plain = .int n) {ratio : Binary64}
    (hratio : Number.quotient (n - first) (last - first) = .ok (.real ratio)) :
    s.parameter level = .ok (CubicBezier.clamp (.real 0) (.real 1) (.real ratio)) := by
  have hoffset : level.sub (.int first) = .ok (.int (n - first)) := by
    unfold Number.sub Number.combine
    rw [hlevel]
    rfl
  rw [parameter_eq hstart hend hlt hoffset]
  change Number.quotient (n - first) (last - first) >>= _ = _
  rw [hratio]
  rfl

/-- A whole level has a parameter, however large it is. -/
theorem exists_parameter_whole (hstart : s.startLevel = .int first) (hend : s.endLevel = .int last)
    (hlt : first < last) {n : Int} (hlevel : level.plain = .int n) (hlow : first ≤ n)
    (hhigh : n ≤ last) : ∃ t, s.parameter level = .ok (.real t) := by
  obtain ⟨ratio, hratio⟩ := Number.exists_quotient (a := n - first) (b := last - first) (by omega)
    (by omega) (by omega)
  obtain ⟨t, hclamp, -⟩ := CubicBezier.exists_clamp ratio
  refine ⟨t, ?_⟩
  rw [parameter_whole hstart hend hlt hlevel hratio, hclamp]

/-- The same for a binary level, whose offset is rounded. -/
theorem parameter_real (hstart : s.startLevel = .int first) (hend : s.endLevel = .int last)
    (hlt : first < last) {begin length : Binary64} (hbegin : ofInt? first = .ok begin)
    (hlength : ofInt? (last - first) = .ok length) (x : Binary64) :
    s.parameter (.real x) =
      .ok (CubicBezier.clamp (.real 0) (.real 1) (.real ((x - begin) / length))) := by
  have hnonzero := isZero_of_ofInt? hlength (by omega)
  rw [parameter_eq hstart hend hlt (Number.combine_binary rfl hbegin (Or.inl rfl)), Number.div,
    Number.combine_binary (n := .int (last - first)) rfl hlength (Or.inl rfl), hnonzero]
  rfl

/-- A binary level between whole ones is finite. -/
theorem isFinite_of_covers (hstart : s.startLevel = .int first) (hend : s.endLevel = .int last)
    {x : Binary64} (h : s.covers (.real x) = true) :
    x.isFinite = true ∧ (first : Rat) ≤ x.toRat ∧ x.toRat ≤ last := by
  rw [Span.covers, hstart, hend, Bool.and_eq_true] at h
  obtain ⟨hlow, hhigh⟩ := h
  cases x with
  | nan => cases hlow
  | infinite negative => cases negative with
    | false => cases hhigh
    | true => cases hlow
  | finite negative mantissa exponent hcanonical =>
    rw [Number.le_iff rfl rfl] at hlow hhigh
    refine ⟨rfl, ?_, ?_⟩
    · exact WithTop.coe_le_coe.1 (WithBot.coe_le_coe.1 hlow)
    · exact WithTop.coe_le_coe.1 (WithBot.coe_le_coe.1 hhigh)

theorem covers_plain {n : Int} (hstart : s.startLevel = .int first) (hend : s.endLevel = .int last)
    (hlevel : level.plain = .int n) (h : s.covers level = true) : first ≤ n ∧ n ≤ last := by
  have hlow : s.startLevel.le level = (Number.int first).le (.int n) := by
    rw [hstart, Number.le, Number.le, Number.lt, Number.eq, hlevel]
    rfl
  have hhigh : level.le s.endLevel = (Number.int n).le (.int last) := by
    rw [hend, Number.le, Number.le, Number.lt, Number.eq, hlevel]
    rfl
  rw [Span.covers, hlow, hhigh, Number.le_int, Number.le_int, Bool.and_eq_true, decide_eq_true_eq,
    decide_eq_true_eq] at h
  exact h

/-- A level between whole ones has a parameter unless the segment is too long. -/
theorem parameter_binary (hfirst : 1 ≤ first) (hlt : first < last)
    (hstart : s.startLevel = .int first) (hend : s.endLevel = .int last) {x : Binary64}
    (h : s.covers (.real x) = true) :
    (s.IsTooLong → s.parameter (.real x) = .error .integerTooLarge) ∧
      (¬s.IsTooLong → ∃ t, s.parameter (.real x) = .ok (.real t)) := by
  obtain ⟨hfinite, hlow, hhigh⟩ := isFinite_of_covers hstart hend h
  have hnonneg : (0 : Rat) ≤ first := by exact_mod_cast (by omega : 0 ≤ first)
  have hbegin : ofInt? first = .ok (ofInt first) :=
    (between_ofInt exact_zero exact_greatest hnonneg (hlow.trans (toRat_le hfinite))).1
  have hoffset : (Number.real x).sub (.int first) = .ok (.real (x - ofInt first)) :=
    Number.combine_binary rfl hbegin (Or.inl rfl)
  have hspan : s.endLevel.sub s.startLevel = .ok (.int (last - first)) := by
    rw [hstart, hend]
    rfl
  cases hlength : ofInt? (last - first) with
  | error fault =>
    obtain rfl := ofInt?_error hlength
    refine ⟨fun _ => ?_, fun hfits => absurd ⟨_, hspan, hlength⟩ hfits⟩
    have hratio : (Number.real (x - ofInt first)).div (.int (last - first)) =
        .error .integerTooLarge := by
      change (ofInt? (last - first) >>= fun length => _) = _
      rw [hlength]
      rfl
    rw [parameter_eq hstart hend hlt hoffset, hratio]
    rfl
  | ok length =>
    refine ⟨fun hlong => ?_, fun _ => ?_⟩
    · obtain ⟨span, hspan', htoo⟩ := hlong
      obtain rfl := Except.ok.inj (hspan.symm.trans hspan')
      cases hlength.symm.trans htoo
    · obtain ⟨t, hclamp, -⟩ := CubicBezier.exists_clamp ((x - ofInt first) / length)
      refine ⟨t, ?_⟩
      rw [parameter_real hstart hend hlt hbegin hlength, hclamp]

/-- The control values are made from the binary numbers of the ends and of their difference. -/
theorem curve_eq {low high low' high' least most : Rat} (hstart : s.startExp.Between low high)
    (hend : s.endExp.Between low' high') (hlow : Exact low) (hhigh : Exact high)
    (hlow' : Exact low') (hhigh' : Exact high') (hleast : Exact least) (hmost : Exact most)
    (hleastLe : least ≤ low' - high) (hleMost : high' - low ≤ most) :
    ∃ p0 p3 range : Binary64, s.startExp.toBinary64 = .ok p0 ∧ p0.Between low high ∧
      s.endExp.toBinary64 = .ok p3 ∧ p3.Between low' high' ∧ range.Between least most ∧
      s.curve = .ok ⟨s.startExp, .real (p0 + s.control1.y * range),
        .real (p0 + s.control2.y * range), s.endExp⟩ := by
  obtain ⟨p0, h0, h0Between⟩ := hstart.exists_toBinary64 hlow hhigh
  obtain ⟨p3, h3, h3Between⟩ := hend.exists_toBinary64 hlow' hhigh'
  obtain ⟨difference, range, hdifference, hrange, hbetween⟩ :=
    Number.sub_between hend hstart hlow' hhigh' hlow hhigh hleast hmost hleastLe hleMost
  refine ⟨p0, p3, range, h0, h0Between, h3, h3Between, hbetween, ?_⟩
  have hcontrol (p : ControlPoint) :
      s.controlExp difference p = .ok (.real (p0 + p.y * range)) :=
    Outcome.bind_eq_ok_iff.2 ⟨_, Number.combine_binary rfl hrange (Or.inl rfl),
      Number.combine_binary h0 rfl (Or.inr rfl)⟩
  unfold curve expRange
  rw [hdifference]
  refine Outcome.bind_eq_ok_iff.2 ⟨_, rfl, ?_⟩
  refine Outcome.bind_eq_ok_iff.2 ⟨_, hcontrol s.control1, ?_⟩
  refine Outcome.bind_eq_ok_iff.2 ⟨_, hcontrol s.control2, rfl⟩

/-- Where there is a parameter there is a value. -/
theorem exists_value {bound : Rat} (hbound : Exact bound) (hstart : s.startExp.Between 0 bound)
    (hend : s.endExp.Between 0 bound) {t : Binary64} (ht : s.parameter level = .ok (.real t)) :
    ∃ p0 p3 range u : Binary64, p0.Between 0 bound ∧ p3.Between 0 bound ∧ range.Within bound ∧
      u.Between 0 1 ∧ s.valueAt level = .ok (.real (CubicBezier.bernstein p0
        (p0 + s.control1.y * range) (p0 + s.control2.y * range) p3 u)) := by
  obtain ⟨p0, p3, range, h0, h0Between, h3, h3Between, hwithin, hcurve⟩ :=
    curve_eq hstart hend exact_zero hbound exact_zero hbound hbound.neg hbound (zero_sub bound).ge
      (sub_zero bound).le
  obtain ⟨u, hclamp, hu⟩ := CubicBezier.exists_clamp t
  refine ⟨p0, p3, range, u, h0Between, h3Between, hwithin, hu, ?_⟩
  unfold valueAt
  refine Outcome.bind_eq_ok_iff.2 ⟨_, ht, Outcome.bind_eq_ok_iff.2 ⟨_, hcurve, ?_⟩⟩
  rw [CubicBezier.evaluate, hclamp]
  exact CubicBezier.valueAt_real h0 rfl rfl h3 hu

/-- Between the levels of an ordinary segment the requirement lies within the range, unless the
value overflows there. -/
theorem requiredExp_of_parameter (h : s.IsOrdinary) {t : Binary64}
    (ht : s.parameter level = .ok (.real t)) :
    (s.Overflows level → s.requiredExp level = .error .infinityAsInteger) ∧
      (¬s.Overflows level → ∃ exp, s.requiredExp level = .ok exp ∧ 0 ≤ exp ∧
        exp ≤ Requirement.greatest) := by
  obtain ⟨p0, p3, range, u, -, -, -, -, hvalue⟩ :=
    exists_value exact_greatest h.startExp h.endExp ht
  rw [requiredExp_eq, Overflows, hvalue]
  obtain ⟨herror, hok⟩ := floor_value (CubicBezier.bernstein p0 (p0 + s.control1.y * range)
    (p0 + s.control2.y * range) p3 u)
  refine ⟨fun hover => herror (Number.real.inj (Except.ok.inj hover)), fun hfits => hok ?_⟩
  intro heq
  exact hfits (by rw [heq])

theorem not_overflows_of_isSafe (h : s.IsOrdinary) (hsafe : s.IsSafe) (level : Number) :
    ¬s.Overflows level := by
  intro hover
  obtain ⟨hstart, hend⟩ := hsafe
  have hexact (n : Nat) (hn : n < 32) := CubicBezier.exact_mul_safeExp hn
  have hexact1 : Exact CubicBezier.safeExp := by simpa using hexact 1 (by decide)
  have hpositive := CubicBezier.safeExp_pos
  obtain ⟨t, ht, -⟩ := Outcome.bind_eq_ok_iff.1 hover
  obtain ⟨t, rfl⟩ := isReal_parameter ht
  obtain ⟨p0, p3, range, u, h0, h3, hrange, hu, hvalue⟩ := exists_value hexact1 hstart hend ht
  have hcontrol {y : Binary64} (hy : y.Between (-1 / 2) 3) :
      (p0 + y * range).Within (4 * CubicBezier.safeExp) := by
    have hratio : y.Within 3 := hy.mono (by norm_num) le_rfl
    exact h0.within.add (hratio.mul hrange (hexact 3 (by decide)) (by push_cast; linarith))
      (hexact 4 (by decide)) (by push_cast; linarith)
  have hbounded := CubicBezier.within_bernstein h0.within (hcontrol h.control1)
    (hcontrol h.control2) h3.within hu
  have hinfinite := Number.real.inj (Except.ok.inj (hvalue.symm.trans hover))
  rw [hinfinite] at hbounded
  cases hbounded.isFinite

/-- Every level that an ordinary segment covers has a parameter, unless it lies between whole levels
and the segment is too long. -/
theorem parameter_of_covers (h : s.IsOrdinary) (hcovers : s.covers level = true) :
    (level.IsReal ∧ s.IsTooLong → s.parameter level = .error .integerTooLarge) ∧
      (¬(level.IsReal ∧ s.IsTooLong) → ∃ t, s.parameter level = .ok (.real t)) := by
  obtain ⟨-, first, last, hstart, hend, hfirst, hlt, -⟩ := h.levels
  rcases Number.plain_cases level with ⟨n, hn⟩ | ⟨x, rfl, -⟩
  · obtain ⟨hlow, hhigh⟩ := covers_plain hstart hend hn hcovers
    refine ⟨?_, fun _ => exists_parameter_whole hstart hend hlt hn hlow hhigh⟩
    rintro ⟨⟨x, rfl⟩, -⟩
    cases hn
  · obtain ⟨htoo, hok⟩ := parameter_binary hfirst hlt hstart hend hcovers
    exact ⟨fun hlong => htoo hlong.2, fun hfits => hok fun hlong => hfits ⟨⟨x, rfl⟩, hlong⟩⟩

end BezierSegment

end ExperienceCurves
