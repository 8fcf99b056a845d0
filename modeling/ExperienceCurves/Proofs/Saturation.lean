import ExperienceCurves.Proofs.RoundedPowers

/-!
Requirements at the ends of the range. A product with a power that is held at an end is rounded from
one nearly as large, or some part of it left the range and the base alone decides the end. So an end
tells the truth about the exact product, up to a factor of two, where the base has the sign of the
product and the parts are balanced: the other part does not take the product back into the range.
-/
namespace ExperienceCurves

-- Powers of whole numbers are those of the core library, whatever else is imported.
attribute [local instance (high)] instPowNat

open Binary64

namespace Binary64

variable {q r : Rat} {x : Binary64}

theorem position_of_isFinite (hx : x.isFinite = true) :
    x.position = ((x.toRat : WithTop Rat) : Line) := by
  cases x with
  | nan => cases hx
  | infinite negative => cases hx
  | finite negative mantissa exponent hcanonical => rfl

theorem abs_toRat_le (hx : x.isFinite = true) : |x.toRat| ≤ (greatest : Rat) := by
  have hneg := toRat_le (isFinite_neg hx)
  rw [toRat_neg] at hneg
  exact abs_le.2 ⟨neg_le.1 hneg, toRat_le hx⟩

theorem position_nonpos (h : x.isNegative = true) :
    x.position ≤ (((0 : Rat) : WithTop Rat) : Line) := by
  cases x with
  | nan => cases h
  | infinite negative =>
    obtain rfl : negative = true := h
    exact bot_le
  | finite negative mantissa exponent hcanonical =>
    obtain rfl : negative = true := h
    rw [position_of_isFinite rfl, WithBot.coe_le_coe, WithTop.coe_le_coe]
    exact neg_nonpos.2 (scaled_nonneg mantissa exponent)

theorem position_nonneg (h : x.isNegative = false) :
    (((0 : Rat) : WithTop Rat) : Line) ≤ x.position := by
  cases x with
  | nan => exact le_rfl
  | infinite negative =>
    obtain rfl : negative = false := h
    exact le_top
  | finite negative mantissa exponent hcanonical =>
    obtain rfl : negative = false := h
    rw [position_of_isFinite rfl, WithBot.coe_le_coe, WithTop.coe_le_coe]
    exact scaled_nonneg mantissa exponent

theorem isNegative_ofRat (negativeZero : Bool) (hr : r ≠ 0) :
    (ofRat negativeZero r).isNegative = decide (r < 0) := by
  rw [ofRat, if_neg hr]
  exact isNegative_ofQuotient _ _ _ _

/-- Rounding does not pass a number of the format that is not negative, also beyond the range. -/
theorem position_ofRat_le (negativeZero : Bool) (hq : Exact q) (hnonneg : 0 ≤ q) (h : r ≤ q) :
    (ofRat negativeZero r).position ≤ ((q : WithTop Rat) : Line) := by
  rcases le_or_gt (-(greatest : Rat)) r with hrange | hbelow
  · have hbetween := between_ofRat negativeZero exact_greatest.neg hq hrange h
    rw [position_of_isFinite hbetween.isFinite, WithBot.coe_le_coe, WithTop.coe_le_coe]
    exact hbetween.le_high
  · have hneg : r < 0 := hbelow.trans_le (neg_nonpos.2 (Nat.cast_nonneg greatest))
    refine (position_nonpos ?_).trans (WithBot.coe_le_coe.2 (WithTop.coe_le_coe.2 hnonneg))
    rw [isNegative_ofRat negativeZero hneg.ne, decide_eq_true hneg]

theorem le_position_ofRat (negativeZero : Bool) (hq : Exact q) (hnonneg : 0 ≤ q) (h : -q ≤ r) :
    (((-q : Rat) : WithTop Rat) : Line) ≤ (ofRat negativeZero r).position := by
  rcases le_or_gt r greatest with hrange | hbeyond
  · have hbetween := between_ofRat negativeZero hq.neg exact_greatest h hrange
    rw [position_of_isFinite hbetween.isFinite, WithBot.coe_le_coe, WithTop.coe_le_coe]
    exact hbetween.low_le
  · have hpos : 0 < r := (Nat.cast_nonneg greatest).trans_lt hbeyond
    refine (WithBot.coe_le_coe.2 (WithTop.coe_le_coe.2 (neg_nonpos.2 hnonneg))).trans
      (position_nonneg ?_)
    rw [isNegative_ofRat negativeZero hpos.ne', decide_eq_false hpos.not_gt]

end Binary64

namespace Number

/-- What has a whole part stands at a rational number. -/
theorem exists_position_of_floor {x : Number} {n : Int} (h : x.floor = .ok n) :
    ∃ r : Rat, x.position = ((r : WithTop Rat) : Line) ∧ r.floor = n := by
  rcases plain_cases x with ⟨m, hm⟩ | ⟨z, rfl, -⟩
  · unfold floor at h
    rw [hm] at h
    obtain rfl := Except.ok.inj h
    exact ⟨m, (position_of_plain hm).2, Rat.floor_intCast m⟩
  · cases z with
    | nan => cases h
    | infinite negative => cases h
    | finite negative mantissa exponent hcanonical =>
      exact ⟨_, rfl, Except.ok.inj h⟩

variable {a : Number} {p : Binary64} {fault : Fault}

theorem mul_error_left (ha : a.toBinary64 = .error fault) : a.mul (.real p) = .error fault := by
  unfold mul
  rw [combine_eq (Or.inr ⟨p, rfl⟩), ha]
  rfl

theorem mul_error_right (ha : a.toBinary64 = .error fault) : (real p).mul a = .error fault := by
  unfold mul
  rw [combine_eq (Or.inl ⟨p, rfl⟩), ha]
  rfl

theorem isZero_iff (ha : a.IsFinite) : a.isZero = true ↔ a.toRat = 0 := by
  rcases plain_cases a with ⟨m, hm⟩ | ⟨x, rfl, -⟩
  · rw [toRat_of_plain hm, Int.cast_eq_zero]
    unfold isZero
    rw [hm]
    exact beq_iff_eq
  · refine ⟨toRat_of_isZero, fun hvalue => ?_⟩
    by_contra hzero
    exact toRat_ne_zero ha (Bool.not_eq_true _ ▸ hzero) hvalue

theorem position_of_isFinite (ha : a.IsFinite) :
    a.isNan = false ∧ a.position = ((a.toRat : WithTop Rat) : Line) := by
  rcases plain_cases a with ⟨m, hm⟩ | ⟨x, rfl, -⟩
  · rw [toRat_of_plain hm]
    exact position_of_plain hm
  · exact ⟨isNan_of_isFinite ha, Binary64.position_of_isFinite ha⟩

/-- The least finite number other than zero. -/
theorem two_zpow_le_abs (ha : a.IsFinite) (hzero : a.toRat ≠ 0) :
    (2 : Rat) ^ (-1074 : Int) ≤ |a.toRat| := by
  rcases plain_cases a with ⟨m, hm⟩ | ⟨x, rfl, -⟩
  · rw [toRat_of_plain hm] at hzero ⊢
    have hone : (1 : Rat) ≤ |(m : Rat)| := by
      exact_mod_cast Int.one_le_abs (by exact_mod_cast hzero : m ≠ 0)
    exact (zpow_le_one_of_nonpos₀ one_le_two (by decide)).trans hone
  · cases x with
    | nan => cases ha
    | infinite negative => cases ha
    | finite negative mantissa exponent hcanonical =>
      have hvalue : |(real (finite negative mantissa exponent hcanonical)).toRat| =
          (mantissa : Rat) * (2 : Rat) ^ exponent :=
        (abs_toRat_finite negative hcanonical).trans (scaled_eq _ _)
      have hmantissa : mantissa ≠ 0 := by
        rintro rfl
        rw [Nat.cast_zero, zero_mul, abs_eq_zero] at hvalue
        exact hzero hvalue
      have hone : (1 : Rat) ≤ mantissa := by exact_mod_cast Nat.one_le_iff_ne_zero.2 hmantissa
      rw [hvalue]
      exact (zpow_le_zpow_right₀ one_le_two hcanonical.2.1).trans
        (le_mul_of_one_le_left (by positivity) hone)

end Number

namespace Requirement

variable {x : Number} {exp : Int} {q : Rat}

theorem cast_greatest : ((greatest : Int) : Rat) = (Binary64.greatest : Rat) := Int.cast_natCast _

/-- Rounding down into the range does not pass a bound within the range. -/
theorem le_of_saturate (hx : x.isNan = false) (h : saturate x = .ok exp)
    (hq : -(greatest : Rat) ≤ q) (hle : x.position ≤ ((q : WithTop Rat) : Line)) :
    (exp : Rat) ≤ q := by
  unfold saturate at h
  split at h
  · next hhigh =>
    obtain rfl := Except.ok.inj h
    have hreached := ((Number.le_iff rfl hx).1 hhigh).trans hle
    rwa [Number.position_int, WithBot.coe_le_coe, WithTop.coe_le_coe] at hreached
  · split at h
    · obtain rfl := Except.ok.inj h
      rwa [Int.cast_neg]
    · obtain ⟨r, hr, rfl⟩ := Number.exists_position_of_floor h
      rw [hr, WithBot.coe_le_coe, WithTop.coe_le_coe] at hle
      exact (Rat.le_floor_iff.1 le_rfl).trans hle

/-- Rounding down falls short of a bound by less than one. -/
theorem lt_of_saturate (hx : x.isNan = false) (h : saturate x = .ok exp)
    (hq : q ≤ greatest) (hle : ((q : WithTop Rat) : Line) ≤ x.position) : q < exp + 1 := by
  unfold saturate at h
  split at h
  · obtain rfl := Except.ok.inj h
    linarith
  · split at h
    · next hlow =>
      obtain rfl := Except.ok.inj h
      have hreached := hle.trans ((Number.le_iff hx rfl).1 hlow)
      rw [Number.position_int, WithBot.coe_le_coe, WithTop.coe_le_coe] at hreached
      linarith
    · obtain ⟨r, hr, rfl⟩ := Number.exists_position_of_floor h
      rw [hr, WithBot.coe_le_coe, WithTop.coe_le_coe] at hle
      refine hle.trans_lt ?_
      by_contra hlarge
      have hnext : r.floor + 1 ≤ r.floor :=
        Rat.le_floor_iff.2 (by rw [Int.cast_add, Int.cast_one]; exact not_lt.1 hlarge)
      omega

/-- Seven eighths of the range, up to its last unit. -/
def reach : Rat := ((7 * 2 ^ 50 : Int) : Rat) * (2 : Rat) ^ (971 : Int)

theorem exact_reach : Exact reach := exact_units (by decide) (by decide) le_rfl

/-- The range and most of it, in units of the last place. -/
theorem exists_unit : ∃ unit : Rat, 1 ≤ unit ∧ reach = 7 * 2 ^ 50 * unit ∧
    (greatest : Rat) = (2 ^ 53 - 1) * unit := by
  refine ⟨(2 : Rat) ^ (971 : Int), one_le_zpow₀ one_le_two (by decide), ?_, ?_⟩
  · unfold reach
    norm_num
  · rw [cast_greatest, ← scaled_greatest, scaled_eq]
    norm_num

theorem reach_pos : 0 < reach := by
  unfold reach
  positivity

theorem reach_add_one_lt : reach + 1 < greatest := by
  obtain ⟨unit, hunit, hreach, hgreatest⟩ := exists_unit
  rw [hreach, hgreatest]
  linarith

theorem seven_eighths_lt_reach : 7 / 8 * (greatest : Rat) < reach := by
  obtain ⟨unit, hunit, hreach, hgreatest⟩ := exists_unit
  rw [hreach, hgreatest]
  linarith

theorem half_greatest_le_reach : (greatest : Rat) / 2 ≤ 8 / 13 * reach := by
  obtain ⟨unit, hunit, hreach, hgreatest⟩ := exists_unit
  rw [hreach, hgreatest]
  linarith

/-- A product that is held at an end of the range is rounded from one that reaches as far. -/
theorem reach_of_saturate {y z : Binary64} (hy : y.isFinite = true) (hz : z.isFinite = true)
    (h : saturate (.real (y * z)) = .ok exp) :
    (exp = greatest → reach ≤ y.toRat * z.toRat) ∧
      (exp = -greatest → y.toRat * z.toRat ≤ -reach) := by
  have hnan : (Number.real (y * z)).isNan = false := isNan_mul hy hz
  have hroom := reach_add_one_lt
  have hpositive := reach_pos
  obtain ⟨negativeZero, hproduct⟩ := exists_mul_eq hy hz
  constructor
  · intro hexp
    by_contra hsmall
    have hplace := position_ofRat_le negativeZero exact_reach hpositive.le (not_le.1 hsmall).le
    rw [← hproduct] at hplace
    have hlow : -(greatest : Rat) ≤ reach :=
      (neg_nonpos.2 (Int.cast_nonneg greatest_pos.le)).trans hpositive.le
    have hle := le_of_saturate hnan h hlow hplace
    rw [hexp] at hle
    exact absurd (hle.trans (le_add_of_nonneg_right zero_le_one)) hroom.not_ge
  · intro hexp
    by_contra hlarge
    have hplace := le_position_ofRat negativeZero exact_reach hpositive.le (not_le.1 hlarge).le
    rw [← hproduct] at hplace
    have hhigh : -reach ≤ greatest :=
      (neg_nonpos.2 hpositive.le).trans (Int.cast_nonneg greatest_pos.le)
    have hlt := lt_of_saturate hnan h hhigh hplace
    rw [hexp, Int.cast_neg] at hlt
    generalize ((greatest : Int) : Rat) = top at hlt hroom
    linarith

variable {a b : Number} {n : Nat} {level : Int}

/-- Some part of a product with a power has no binary number near it. -/
def LeavesRange (a b : Number) (n : Nat) : Prop :=
  (greatest : Rat) < |a.toRat| ∨ (greatest : Rat) / 2 < |b.toRat| ^ n ∨
    greatest < n ∧ |b.toRat| ≤ 1 ∧ ¬b.IsWhole

/-- How a product with a power becomes a requirement: whole parts exactly, others after rounding,
and by the base alone if a part of it is out of range. -/
inductive Settles (a b : Number) (n : Nat) : Int → Prop
  | whole {i j exp : Int} (ha : a.plain = .int i) (hb : b.plain = .int j)
      (h : saturate (.int (i * j ^ n)) = .ok exp) : Settles a b n exp
  | rounded {x p : Binary64} {exp : Int} (hx : Rounds a.toRat x) (hp : b.RoundsPower n p)
      (h : saturate (.real (x * p)) = .ok exp) : Settles a b n exp
  | beyond (hmixed : ¬(a.IsWhole ∧ b.IsWhole)) (h : LeavesRange a b n) :
      Settles a b n (Requirement.beyond a)

theorem not_isWhole_real (x : Binary64) : ¬(Number.real x).IsWhole := by
  rintro ⟨m, hm⟩
  cases hm

theorem exists_settles_whole {j : Int} (ha : a.IsFinite) (hb : b.plain = .int j)
    (hn : level - 1 = n) :
    ∃ exp, exponential (.number a) (.number b) (.int level) = .ok exp ∧ Settles a b n exp := by
  have hraise := Number.raise_whole hb n
  rw [← hn] at hraise
  rcases Number.plain_cases a with ⟨i, hi⟩ | ⟨x, rfl, -⟩
  · have hproduct : a.mul (.int (j ^ n)) = .ok (.int (i * j ^ n)) := by
      unfold Number.mul Number.combine
      rw [hi]
      rfl
    exact ⟨_, exponential_of_mul hraise hproduct (saturate_int _), .whole hi hb (saturate_int _)⟩
  · have hvalue : (Number.int (j ^ n)).toRat = b.toRat ^ n := by
      rw [Number.toRat_of_plain hb, Number.toRat_of_plain rfl, Int.cast_pow]
    rcases Number.toBinary64_rounds (a := .int (j ^ n)) trivial with ⟨p, hp, hrounds⟩ | ⟨hlarge, hout⟩
    · have hproduct : (Number.real x).mul (.int (j ^ n)) = .ok (.real (x * p)) :=
        Number.combine_binary rfl hp (Or.inl rfl)
      obtain ⟨exp, hexp, -⟩ := saturate_real (isNan_mul ha hrounds.isFinite)
      rw [hvalue] at hrounds
      exact ⟨exp, exponential_of_mul hraise hproduct hexp,
        .rounded (rounds_toRat ha) (Number.roundsPower_of_rounds hrounds) hexp⟩
    · refine ⟨_, exponential_of_mul_error hraise (Number.mul_error_right hlarge) rfl,
        .beyond (fun h => not_isWhole_real x h.1) (Or.inr (Or.inl ?_))⟩
      rw [hvalue, abs_pow, ← cast_greatest] at hout
      exact (half_lt_self (Int.cast_pos.2 greatest_pos)).trans hout

theorem exists_settles_real {y : Binary64} (ha : a.IsFinite) (hy : y.isFinite = true)
    (hn : level - 1 = n) :
    ∃ exp, exponential (.number a) (.number (.real y)) (.int level) = .ok exp ∧
      Settles a (.real y) n exp := by
  have hmixed : ¬(a.IsWhole ∧ (Number.real y).IsWhole) := fun h => not_isWhole_real y h.2
  rcases Number.raise_real_cases hy n with ⟨p, hraise, hp⟩ | ⟨fault, hraise, hfault, hout⟩
  · rw [← hn] at hraise
    rcases Number.toBinary64_rounds ha with ⟨x, hx, hrounds⟩ | ⟨hlarge, hout⟩
    · obtain ⟨exp, hexp, -⟩ := saturate_real (isNan_mul hrounds.isFinite hp.isFinite)
      exact ⟨exp, exponential_of_mul hraise (Number.mul_real hx p) hexp, .rounded hrounds hp hexp⟩
    · exact ⟨_, exponential_of_mul_error hraise (Number.mul_error_left hlarge) rfl,
        .beyond hmixed (Or.inl hout)⟩
  · rw [← hn] at hraise
    refine ⟨_, exponential_of_raise_error hraise hfault, .beyond hmixed (Or.inr ?_)⟩
    exact hout.imp_right fun h => ⟨Int.ofNat_lt.2 h.1, h.2, not_isWhole_real y⟩

/-- Every product of finite numbers becomes a requirement. -/
theorem exists_settles (ha : a.IsFinite) (hb : b.IsFinite) (hn : level - 1 = n) :
    ∃ exp, exponential (.number a) (.number b) (.int level) = .ok exp ∧ Settles a b n exp := by
  rcases Number.plain_cases b with ⟨j, hj⟩ | ⟨y, rfl, -⟩
  · exact exists_settles_whole ha hj hn
  · exact exists_settles_real ha hb hn

/-- A requirement at an end of the range stands for a number that is at least half as far out. -/
structure Truthful (exp : Int) (exact : Rat) : Prop where
  high : exp = greatest → (greatest : Rat) / 2 ≤ exact
  low : exp = -greatest → exact ≤ -((greatest : Rat) / 2)

/-- The base decides rightly for a product that is out of range. Its sign is that of the product
unless all parts are in range, with an exponent that is not rounded. And where one part is out of
range, the other does not take the product back. -/
structure Balanced (a b : Number) (n : Nat) : Prop where
  sign : 0 ≤ b.toRat ∨ Even n ∨ |a.toRat| ≤ greatest ∧ |b.toRat| ^ n ≤ greatest / 2 ∧
    (n ≤ 2 ^ (fractionBits + 1) ∨ b.IsWhole)
  base : |a.toRat| ≤ greatest ∨ 1 / 2 ≤ |b.toRat| ^ n
  power : |b.toRat| ^ n ≤ greatest / 2 ∨ 1 ≤ |a.toRat|
  exponent : n ≤ greatest ∨ 1 < |b.toRat| ∨ b.IsWhole

theorem half_greatest_le : (greatest : Rat) / 2 ≤ greatest :=
  half_le_self (Int.cast_nonneg greatest_pos.le)

/-- The size and the sign of the exact number make the requirement truthful. -/
theorem truthful_of_size {exact : Rat}
    (hsize : exp = greatest ∨ exp = -greatest → (greatest : Rat) / 2 ≤ |exact|)
    (hhigh : exp = greatest → 0 ≤ exact) (hlow : exp = -greatest → exact ≤ 0) :
    Truthful exp exact := by
  constructor
  · intro hexp
    rw [← abs_of_nonneg (hhigh hexp)]
    exact hsize (Or.inl hexp)
  · intro hexp
    have hreached := hsize (Or.inr hexp)
    rw [abs_of_nonpos (hlow hexp)] at hreached
    linarith

theorem truthful_whole {i : Int} (h : saturate (.int i) = .ok exp) : Truthful exp i := by
  have hpositive := greatest_pos
  rw [saturate_int] at h
  obtain rfl := Except.ok.inj h
  constructor
  · intro hexp
    exact half_greatest_le.trans (Int.cast_le.2 (by omega))
  · intro hexp
    have hreached : (i : Rat) ≤ (-greatest : Int) := Int.cast_le.2 (by omega)
    rw [Int.cast_neg] at hreached
    exact hreached.trans (neg_le_neg half_greatest_le)

/-- The base decides by its sign. -/
theorem beyond_cases (ha : a.IsFinite) :
    a.toRat = 0 ∧ beyond a = 0 ∨ 0 < a.toRat ∧ beyond a = greatest ∨
      a.toRat < 0 ∧ beyond a = -greatest := by
  have hzero := Number.isZero_iff ha
  have hpositive : (Number.int 0).lt a = true ↔ 0 < a.toRat := by
    rw [Number.lt_iff rfl (Number.position_of_isFinite ha).1, (Number.position_of_isFinite ha).2,
      Number.position_int, WithBot.coe_lt_coe, WithTop.coe_lt_coe, Int.cast_zero]
  unfold beyond
  rcases lt_trichotomy a.toRat 0 with hneg | hbase | hpos
  · rw [if_neg (mt hzero.1 hneg.ne), if_neg (mt hpositive.1 hneg.not_gt)]
    exact Or.inr (Or.inr ⟨hneg, rfl⟩)
  · rw [if_pos (hzero.2 hbase)]
    exact Or.inl ⟨hbase, rfl⟩
  · rw [if_neg (mt hzero.1 hpos.ne'), if_pos (hpositive.2 hpos)]
    exact Or.inr (Or.inl ⟨hpos, rfl⟩)

/-- A product with zero is never at an end. -/
theorem truthful_beyond_zero (ha : a.IsFinite) (hzero : a.toRat = 0) : Truthful (beyond a) 0 := by
  have hpositive := greatest_pos
  rcases beyond_cases ha with ⟨-, hexp⟩ | ⟨hbase, -⟩ | ⟨hbase, -⟩
  · constructor
    · intro hend
      omega
    · intro hend
      omega
  · exact absurd hzero hbase.ne'
  · exact absurd hzero hbase.ne

theorem truthful_beyond (ha : a.IsFinite) {power : Rat} (hsign : 0 ≤ power)
    (hsize : (greatest : Rat) / 2 ≤ |a.toRat| * |power|) : Truthful (beyond a) (a.toRat * power) := by
  have hpositive := greatest_pos
  rcases beyond_cases ha with ⟨hzero, -⟩ | ⟨hbase, hexp⟩ | ⟨hbase, hexp⟩
  · rw [hzero, zero_mul]
    exact truthful_beyond_zero ha hzero
  · refine truthful_of_size (fun _ => abs_mul a.toRat power ▸ hsize)
      (fun _ => mul_nonneg hbase.le hsign) fun hend => ?_
    omega
  · refine truthful_of_size (fun _ => abs_mul a.toRat power ▸ hsize) (fun hend => ?_)
      fun _ => mul_nonpos_of_nonpos_of_nonneg hbase.le hsign
    omega

/-- A rounded product at an end of the range has an exact one at least half as far out: the rounded
power is not small, so the exact one is about as large or far beyond the range. -/
theorem half_le_of_reach {x p : Binary64} (ha : a.IsFinite) (hx : Rounds a.toRat x)
    (hp : b.RoundsPower n p) (h : reach ≤ |x.toRat * p.toRat|) :
    (greatest : Rat) / 2 ≤ |a.toRat| * |b.toRat| ^ n := by
  rw [abs_mul] at h
  have hexact : 0 ≤ |b.toRat| ^ n := by positivity
  have hpower : 7 / 8 ≤ |p.toRat| := by
    by_contra hsmall
    have hproduct : |x.toRat| * |p.toRat| ≤ greatest * (7 / 8) :=
      mul_le_mul (abs_toRat_le hx.isFinite) (not_le.1 hsmall).le (abs_nonneg _)
        (Int.cast_nonneg greatest_pos.le)
    rw [mul_comm (greatest : Rat)] at hproduct
    exact absurd (h.trans hproduct) seven_eighths_lt_reach.not_ge
  rcases hp.size hpower with hfar | hnear
  · have hzero : a.toRat ≠ 0 := by
      intro hzero
      have hbase := hx.size
      rw [hzero, abs_zero, zero_mul] at hbase
      have hproduct := mul_nonpos_of_nonpos_of_nonneg hbase (abs_nonneg p.toRat)
      exact absurd (h.trans hproduct) reach_pos.not_ge
    calc (greatest : Rat) / 2 ≤ greatest := half_greatest_le
      _ ≤ (2 : Rat) ^ (1024 : Int) := cast_greatest ▸ greatest_lt.le
      _ ≤ (2 : Rat) ^ (-1074 : Int) * 2 ^ 2100 := by
        rw [← zpow_natCast, ← zpow_add₀ two_ne_zero]
        exact zpow_le_zpow_right₀ one_le_two (by decide)
      _ ≤ |a.toRat| * |b.toRat| ^ n :=
        mul_le_mul (Number.two_zpow_le_abs ha hzero) hfar (by positivity) (abs_nonneg _)
  · have hbase : |x.toRat| ≤ |a.toRat| * (65 / 64) := by
      refine hx.size.trans ?_
      gcongr
      norm_num
    have hproduct : |x.toRat| * |p.toRat| ≤ |a.toRat| * (65 / 64) * (8 / 5 * |b.toRat| ^ n) :=
      mul_le_mul hbase hnear (abs_nonneg _) (by positivity)
    have hreached : 8 / 13 * reach ≤ |a.toRat| * |b.toRat| ^ n := by linarith
    exact half_greatest_le_reach.trans hreached

theorem truthful_rounded {x p : Binary64} (ha : a.IsFinite) (hx : Rounds a.toRat x)
    (hp : b.RoundsPower n p) (h : saturate (.real (x * p)) = .ok exp)
    (hsign : a.toRat = 0 ∨ 0 ≤ b.toRat ∨ Even n ∨ n ≤ 2 ^ (fractionBits + 1) ∨ b.IsWhole) :
    Truthful exp (a.toRat * b.toRat ^ n) := by
  obtain ⟨hhigh, hlow⟩ := reach_of_saturate hx.isFinite hp.isFinite h
  have hpositive := reach_pos
  have hproduct : 0 ≤ x.toRat * p.toRat * (a.toRat * b.toRat ^ n) := by
    rcases hsign with hzero | hsign
    · rw [hzero, zero_mul, mul_zero]
    · rw [mul_mul_mul_comm]
      exact mul_nonneg hx.sign (hp.sign hsign)
  apply truthful_of_size
  · intro hexp
    rw [abs_mul, abs_pow]
    apply half_le_of_reach ha hx hp
    rcases hexp with hexp | hexp
    · exact (hhigh hexp).trans (le_abs_self _)
    · exact (le_neg.2 (hlow hexp)).trans (neg_le_abs _)
  · intro hexp
    exact nonneg_of_mul_nonneg_right hproduct (hpositive.trans_le (hhigh hexp))
  · intro hexp
    have hneg : x.toRat * p.toRat < 0 := (hlow hexp).trans_lt (neg_neg_iff_pos.2 hpositive)
    by_contra hpos
    exact absurd hproduct (mul_neg_of_neg_of_pos hneg (not_le.1 hpos)).not_ge

/-- Out of range, a balanced product has the sign of its base and is not small. -/
theorem Balanced.of_leavesRange (h : Balanced a b n) (hout : LeavesRange a b n) :
    0 ≤ b.toRat ^ n ∧ (greatest : Rat) / 2 ≤ |a.toRat| * |b.toRat| ^ n := by
  have hpower : 0 ≤ |b.toRat| ^ n := by positivity
  constructor
  · rcases h.sign with hbase | heven | ⟨hbase, hsmall, hexponent⟩
    · exact pow_nonneg hbase n
    · exact heven.pow_nonneg _
    · rcases hout with hout | hout | ⟨hout, -, hmixed⟩
      · exact absurd hbase hout.not_ge
      · exact absurd hsmall hout.not_ge
      · have hbits : ((2 ^ (fractionBits + 1) : Nat) : Int) < greatest := by decide +kernel
        have hle := hexponent.resolve_right hmixed
        omega
  · rcases hout with hout | hout | ⟨hout, hone, hmixed⟩
    · rw [div_eq_mul_one_div]
      exact mul_le_mul hout.le (h.base.resolve_left hout.not_ge) (by norm_num) (abs_nonneg _)
    · exact hout.le.trans (le_mul_of_one_le_left hpower (h.power.resolve_left hout.not_ge))
    · rcases h.exponent with hexponent | hbase | hwhole
      · exact absurd hexponent hout.not_ge
      · exact absurd hone hbase.not_ge
      · exact absurd hwhole hmixed

theorem Settles.truthful (h : Settles a b n exp) (ha : a.IsFinite)
    (hparts : a.toRat = 0 ∨ a.IsWhole ∧ b.IsWhole ∨ Balanced a b n) :
    Truthful exp (a.toRat * b.toRat ^ n) := by
  cases h with
  | whole hi hj h =>
    rw [Number.toRat_of_plain hi, Number.toRat_of_plain hj, ← Int.cast_pow, ← Int.cast_mul]
    exact truthful_whole h
  | rounded hx hp h =>
    apply truthful_rounded ha hx hp h
    rcases hparts with hzero | ⟨-, hwhole⟩ | hbalanced
    · exact Or.inl hzero
    · exact Or.inr (Or.inr (Or.inr (Or.inr hwhole)))
    · rcases hbalanced.sign with hbase | heven | ⟨-, -, hexponent⟩
      · exact Or.inr (Or.inl hbase)
      · exact Or.inr (Or.inr (Or.inl heven))
      · exact Or.inr (Or.inr (Or.inr hexponent))
  | beyond hmixed hout =>
    rcases hparts with hzero | hwhole | hbalanced
    · rw [hzero, zero_mul]
      exact truthful_beyond_zero ha hzero
    · exact absurd hwhole hmixed
    · obtain ⟨hsign, hsize⟩ := hbalanced.of_leavesRange hout
      exact truthful_beyond ha hsign (by rwa [abs_pow])

/-- Every growth of a finite base by a finite rate has a requirement at every level. Where it is an
end of the range, the exact product is at least half as far out on the same side, if the numbers are
whole, the base is zero, or the base decides rightly for products out of range. -/
theorem exponential_truthful (ha : a.IsFinite) (hb : b.IsFinite) (hone : 1 ≤ level) :
    ∃ exp, ofGrowth ⟨.exponential, .number a, .number b⟩ (.int level) = .ok exp ∧
      (a.toRat = 0 ∨ a.IsWhole ∧ b.IsWhole ∨ Balanced a b (level - 1).toNat →
        Truthful exp (a.toRat * b.toRat ^ (level - 1).toNat)) := by
  have hsteps : level - 1 = ((level - 1).toNat : Int) := by omega
  obtain ⟨exp, hexp, hsettles⟩ := exists_settles ha hb hsteps
  exact ⟨exp, hexp, hsettles.truthful ha⟩

/-- A whole base with a binary rate whose power is out of range. -/
theorem exponential_truthful_tenfold :
    let a : Number := .int 1
    let b : Number := .real (ofInt 10)
    a.IsFinite ∧ b.IsFinite ∧ Balanced a b 399 ∧
      ofGrowth ⟨.exponential, .number a, .number b⟩ (.int 400) = .ok greatest ∧
      (greatest : Rat) / 2 ≤ a.toRat * b.toRat ^ 399 := by
  intro a b
  have hb : (ofInt 10).isFinite = true := by decide +kernel
  have hbase : a.toRat = 1 := rfl
  have hrate : b.toRat = 10 := by decide +kernel
  have hgreatest : (1 : Rat) ≤ greatest := by exact_mod_cast greatest_pos
  have hbalanced : Balanced a b 399 := by
    refine ⟨Or.inl ?_, Or.inl ?_, Or.inr ?_, Or.inl (by decide +kernel)⟩
    · rw [hrate]
      norm_num
    · rwa [hbase, abs_one]
    · rw [hbase, abs_one]
  obtain ⟨exp, hexp, htruthful⟩ :=
    exponential_truthful (a := a) (b := b) trivial hb (by decide : (1 : Int) ≤ 400)
  have hend : ofGrowth ⟨.exponential, .number a, .number b⟩ (.int 400) = .ok greatest :=
    Outcome.eq_ok_of_toOption (by decide +kernel)
  have heq : exp = greatest := Except.ok.inj (hexp.symm.trans hend)
  exact ⟨trivial, hb, hbalanced, hend, (htruthful (Or.inr (Or.inr hbalanced))).high heq⟩

/-- A negative binary rate, whose odd power leaves the range: the base puts the requirement at the
wrong end. -/
theorem exponential_wrong_end :
    let a : Number := .int 1
    let b : Number := .real (ofInt (-10))
    a.IsFinite ∧ b.IsFinite ∧
      ofGrowth ⟨.exponential, .number a, .number b⟩ (.int 310) = .ok greatest ∧
      a.toRat * b.toRat ^ 309 ≤ -(greatest : Rat) / 2 := by
  intro a b
  have hb : (ofInt (-10)).isFinite = true := by decide +kernel
  exact ⟨trivial, hb, Outcome.eq_ok_of_toOption (by decide +kernel), by decide +kernel⟩

end Requirement

end ExperienceCurves
