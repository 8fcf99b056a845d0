import ExperienceCurves.Proofs.Amounts
import ExperienceCurves.Proofs.Requirements
import Mathlib.Algebra.Order.Field.Basic
import Mathlib.Algebra.Order.Field.Rat

/-!
No requirement leaves the range. A growth formula is held at the ends of the range, and where a
segment has a requirement it comes from a binary number, which is finite or held there as well. So
the same is true of whole curves.
-/
namespace ExperienceCurves

-- Powers of whole numbers are those of the core library, whatever else is imported.
attribute [local instance (high)] instPowNat

namespace Binary64

theorem scaled_le {mantissa : Nat} {exponent : Int} (h : Canonical mantissa exponent) :
    scaled mantissa exponent ≤ (greatest : Rat) := by
  obtain ⟨hmantissa, -, hexponent, -⟩ := h
  have hfull : mantissa ≤ 2 ^ (fractionBits + 1) - 1 := Nat.le_sub_one_of_lt hmantissa
  unfold scaled
  split
  · have hpower (last : Nat) (hlast : exponent.toNat ≤ last) : 2 ^ exponent.toNat ≤ 2 ^ last :=
      Nat.pow_le_pow_right (by decide) hlast
    have hproduct : mantissa * 2 ^ exponent.toNat ≤ greatest :=
      Nat.mul_le_mul hfull (hpower 971 (by omega))
    exact Nat.cast_le.2 hproduct
  · have hlarge : mantissa ≤ greatest :=
      Nat.le_trans hfull (Nat.le_mul_of_pos_right _ (Nat.two_pow_pos 971))
    have hone : (1 : Rat) ≤ ((2 ^ (-exponent).toNat : Nat) : Rat) :=
      Nat.one_le_cast.2 (Nat.two_pow_pos _)
    calc mkRat mantissa (2 ^ (-exponent).toNat)
        = (mantissa : Rat) / ((2 ^ (-exponent).toNat : Nat) : Rat) := Rat.mkRat_eq_div _ _
      _ ≤ mantissa := div_le_self Rat.natCast_nonneg hone
      _ ≤ greatest := Nat.cast_le.2 hlarge

theorem toRat_le {x : Binary64} (hx : x.isFinite = true) : x.toRat ≤ (greatest : Rat) := by
  cases x with
  | nan => cases hx
  | infinite negative => cases hx
  | finite negative mantissa exponent hcanonical =>
    cases negative with
    | false => exact scaled_le hcanonical
    | true =>
      have hsmall : -scaled mantissa exponent ≤ 0 := neg_nonpos.2 (scaled_nonneg mantissa exponent)
      exact le_trans hsmall Rat.natCast_nonneg

/-- A number that has a whole part has one in the range. -/
theorem le_of_floor? {x : Binary64} {n : Int} (h : x.floor? = .ok n) : n ≤ Requirement.greatest := by
  cases x with
  | nan => cases h
  | infinite negative => cases h
  | finite negative mantissa exponent hcanonical =>
    obtain rfl := Except.ok.inj h
    have hmonotone :=
      Rat.floor_monotone (toRat_le (x := finite negative mantissa exponent hcanonical) rfl)
    rwa [show ((greatest : Nat) : Rat) = ((Requirement.greatest : Int) : Rat) from rfl,
      Rat.floor_intCast] at hmonotone

end Binary64

namespace Number

theorem lt_real (x y : Binary64) : (real x).lt (real y) = x.lt y := rfl

variable {m n result : Number}

theorem isReal_powReal {x y : Binary64} (h : powReal x y = .ok result) : result.IsReal := by
  unfold powReal at h
  split at h
  · cases h
  · split at h
    · cases h
    · dsimp only at h
      split at h
      · cases h
      · exact ⟨_, (Except.ok.inj h).symm⟩

theorem isReal_pow {exponent : Int} (hm : m.IsReal) (h : m.pow exponent = .ok result) :
    result.IsReal := by
  obtain ⟨x, rfl⟩ := hm
  obtain ⟨base, -, h⟩ := Outcome.bind_eq_ok_iff.1 h
  obtain ⟨power, -, h⟩ := Outcome.bind_eq_ok_iff.1 h
  exact isReal_powReal h

theorem isReal_quotient {a b : Int} (h : quotient a b = .ok result) : result.IsReal := by
  unfold quotient at h
  split at h
  · cases h
  · dsimp only at h
    split at h
    · cases h
    · exact ⟨_, (Except.ok.inj h).symm⟩

/-- A quotient is always a binary number. -/
theorem isReal_div (h : m.div n = .ok result) : result.IsReal := by
  have hrounded (x y : Binary64) (z : Number)
      (hz : (if y.isZero then .error .divisionByZero else .ok (.real (x / y))) =
        (Except.ok z : Except Fault Number)) : z.IsReal := by
    split at hz
    · cases hz
    · exact ⟨_, (Except.ok.inj hz).symm⟩
  unfold div combine at h
  split at h
  · exact isReal_quotient h
  · obtain ⟨x, -, h⟩ := Outcome.bind_eq_ok_iff.1 h
    obtain ⟨y, -, h⟩ := Outcome.bind_eq_ok_iff.1 h
    exact hrounded x y result h

end Number

theorem CubicBezier.isReal_clamp {low high x : Number} (hlow : low.IsReal) (hhigh : high.IsReal)
    (hx : x.IsReal) : (CubicBezier.clamp low high x).IsReal :=
  Number.isReal_max hlow (Number.isReal_min hhigh hx)

/-- At a binary parameter the polynomial is binary. -/
theorem CubicBezier.isReal_valueAt {c : CubicBezier} {t value : Number} (ht : t.IsReal)
    (h : c.valueAt t = .ok value) : value.IsReal := by
  obtain ⟨u, hu, h⟩ := Outcome.bind_eq_ok_iff.1 h
  obtain ⟨b0, hb0, h⟩ := Outcome.bind_eq_ok_iff.1 h
  obtain ⟨square, -, h⟩ := Outcome.bind_eq_ok_iff.1 h
  obtain ⟨triple, -, h⟩ := Outcome.bind_eq_ok_iff.1 h
  obtain ⟨b1, -, h⟩ := Outcome.bind_eq_ok_iff.1 h
  obtain ⟨double, -, h⟩ := Outcome.bind_eq_ok_iff.1 h
  obtain ⟨square', -, h⟩ := Outcome.bind_eq_ok_iff.1 h
  obtain ⟨b2, -, h⟩ := Outcome.bind_eq_ok_iff.1 h
  obtain ⟨b3, -, h⟩ := Outcome.bind_eq_ok_iff.1 h
  obtain ⟨term0, hterm0, h⟩ := Outcome.bind_eq_ok_iff.1 h
  obtain ⟨term1, -, h⟩ := Outcome.bind_eq_ok_iff.1 h
  obtain ⟨first, hfirst, h⟩ := Outcome.bind_eq_ok_iff.1 h
  obtain ⟨term2, -, h⟩ := Outcome.bind_eq_ok_iff.1 h
  obtain ⟨second, hsecond, h⟩ := Outcome.bind_eq_ok_iff.1 h
  obtain ⟨term3, -, hvalue⟩ := Outcome.bind_eq_ok_iff.1 h
  have hu' := Number.isReal_sub_right ht hu
  have hb0' := Number.isReal_pow hu' hb0
  have hfirst' := Number.isReal_add_left (Number.isReal_mul_left hb0' hterm0) hfirst
  exact Number.isReal_add_left (Number.isReal_add_left hfirst' hsecond) hvalue

namespace BezierSegment

theorem isReal_parameter {s : BezierSegment} {level t : Number} (h : s.parameter level = .ok t) :
    t.IsReal := by
  obtain ⟨span, -, h⟩ := Outcome.bind_eq_ok_iff.1 h
  split at h
  · exact ⟨_, (Except.ok.inj h).symm⟩
  · obtain ⟨offset, -, h⟩ := Outcome.bind_eq_ok_iff.1 h
    obtain ⟨ratio, hratio, h⟩ := Outcome.bind_eq_ok_iff.1 h
    obtain rfl := Except.ok.inj h
    exact CubicBezier.isReal_clamp ⟨_, rfl⟩ ⟨_, rfl⟩ (Number.isReal_div hratio)

open Binary64 in
/-- What is rounded down from a value: nothing from a positive infinity, and a requirement within
the range from everything else. -/
theorem floor_value (v : Binary64) :
    (v = .infinite false → ((Number.real 0).max (.real v)).floor = .error .infinityAsInteger) ∧
      (v ≠ .infinite false → ∃ exp, ((Number.real 0).max (.real v)).floor = .ok exp ∧ 0 ≤ exp ∧
        exp ≤ Requirement.greatest) := by
  have hzero : ∃ exp, (Number.real 0).floor = .ok exp ∧ 0 ≤ exp ∧ exp ≤ Requirement.greatest := by
    refine ⟨0, ?_, le_rfl, Requirement.greatest_pos.le⟩
    rw [Number.floor_real isFinite_zero, toRat_zero]
    rfl
  unfold Number.max
  cases v with
  | nan => exact ⟨nofun, fun _ => hzero⟩
  | infinite negative => cases negative with
    | true => exact ⟨nofun, fun _ => hzero⟩
    | false => exact ⟨fun _ => rfl, fun h => absurd rfl h⟩
  | finite negative mantissa exponent hcanonical =>
    refine ⟨nofun, fun _ => ?_⟩
    by_cases hlt : (Number.real 0).lt (.real (finite negative mantissa exponent hcanonical)) = true
    · rw [if_pos hlt]
      rw [Number.lt_real, zero_lt_of_isFinite rfl, decide_eq_true_eq] at hlt
      exact ⟨_, rfl, Rat.le_floor_iff.2 hlt.le,
        le_of_floor? (x := finite negative mantissa exponent hcanonical) rfl⟩
    · rw [if_neg hlt]
      exact hzero

theorem requiredExp_inRange {s : BezierSegment} {level : Number} {exp : Int}
    (h : s.requiredExp level = .ok exp) : Requirement.InRange exp := by
  obtain ⟨t, ht, h⟩ := Outcome.bind_eq_ok_iff.1 h
  obtain ⟨curve, -, h⟩ := Outcome.bind_eq_ok_iff.1 h
  obtain ⟨value, hvalue, h⟩ := Outcome.bind_eq_ok_iff.1 h
  have hclamped := CubicBezier.isReal_clamp ⟨0, rfl⟩ ⟨1, rfl⟩ (isReal_parameter ht)
  obtain ⟨v, rfl⟩ := CubicBezier.isReal_valueAt hclamped hvalue
  obtain ⟨herror, hok⟩ := floor_value v
  have hfits : v ≠ .infinite false := by
    intro hinfinite
    cases h.symm.trans (herror hinfinite)
  obtain ⟨exp', hexp', hnonneg, hle⟩ := hok hfits
  obtain rfl := Except.ok.inj (h.symm.trans hexp')
  have hpositive := Requirement.greatest_pos
  exact ⟨by omega, hle⟩

end BezierSegment

namespace Requirement

variable {level : Number} {exp : Int}

theorem saturate_inRange {x : Number} (h : saturate x = .ok exp) : InRange exp := by
  have hpositive := greatest_pos
  have hwhole (n : Int) (hn : saturate (.int n) = .ok exp) : InRange exp := by
    rw [saturate_int] at hn
    obtain rfl := Except.ok.inj hn
    exact ⟨by omega, by omega⟩
  cases x with
  | truth b => exact hwhole _ h
  | int n => exact hwhole n h
  | real x => exact inRange_of_saturate h

theorem inRange_of_exponential {base rate : Datum} (h : exponential base rate level = .ok exp) :
    InRange exp := by
  obtain ⟨rate', -, h⟩ := Outcome.bind_eq_ok_iff.1 h
  obtain ⟨steps, -, h⟩ := Outcome.bind_eq_ok_iff.1 h
  split at h
  · split at h
    · obtain ⟨base', -, h⟩ := Outcome.bind_eq_ok_iff.1 h
      obtain rfl := Except.ok.inj h
      exact beyond_inRange base'
    · cases h
  · obtain ⟨base', -, h⟩ := Outcome.bind_eq_ok_iff.1 h
    split at h
    · next hproduct =>
      obtain rfl := Except.ok.inj h
      obtain ⟨product, -, hsaturate⟩ := Outcome.bind_eq_ok_iff.1 hproduct
      exact saturate_inRange hsaturate
    · split at h
      · obtain rfl := Except.ok.inj h
        exact beyond_inRange base'
      · cases h

theorem inRange_of_ofGrowth {g : Growth} (h : ofGrowth g level = .ok exp) : InRange exp := by
  unfold ofGrowth at h
  split at h
  · exact inRange_of_exponential h
  · obtain ⟨factor, -, h⟩ := Outcome.bind_eq_ok_iff.1 h
    obtain ⟨product, -, h⟩ := Outcome.bind_eq_ok_iff.1 h
    obtain ⟨rest, -, h⟩ := Outcome.bind_eq_ok_iff.1 h
    obtain ⟨sum, -, h⟩ := Outcome.bind_eq_ok_iff.1 h
    exact saturate_inRange (Outcome.liftM_eq_ok_iff.1 h)

theorem inRange_of_ofDefault (h : ofDefault level = .ok exp) : InRange exp := inRange_of_ofGrowth h

theorem inRange_of_ofSegment {segment : Segment} (h : ofSegment segment level = .ok exp) :
    InRange exp := by
  cases segment with
  | bezier segment => exact BezierSegment.requiredExp_inRange (Outcome.ofFault_eq_ok_iff.1 h)
  | formula segment =>
    obtain ⟨x, -, h⟩ := Outcome.bind_eq_ok_iff.1 h
    exact saturate_inRange (Outcome.liftM_eq_ok_iff.1 h)

theorem inRange_of_atLevel {c : Option Curve} (h : atLevel c level = .ok (some exp)) :
    InRange exp := by
  have husual (h : some <$> ofDefault level = .ok (some exp)) : InRange exp := by
    obtain ⟨usual, husual, h⟩ := Outcome.map_eq_ok_iff.1 h
    obtain rfl := Option.some.inj h
    exact inRange_of_ofDefault husual
  cases c with
  | none => exact husual h
  | some c =>
    unfold atLevel at h
    dsimp only at h
    split at h
    · next chosen hstrict =>
      obtain rfl := Option.some.inj (Except.ok.inj h)
      unfold strict at hstrict
      split at hstrict
      · exact inRange_of_ofSegment hstrict
      · cases hstrict
    · exact husual h
    · cases h
    · cases h

theorem inRange_of_effective {c : Option Curve} {growth : Option Growth}
    (h : effective c growth level = .ok exp) : InRange exp := by
  have hgrowth (h : ofGrowth? growth level = .ok exp) : InRange exp := by
    cases growth with
    | none => exact inRange_of_ofDefault h
    | some g => exact inRange_of_ofGrowth h
  cases c with
  | none => exact hgrowth h
  | some c =>
    unfold effective at h
    dsimp only at h
    split at h
    · obtain ⟨chosen, hchosen, h⟩ := Outcome.bind_eq_ok_iff.1 h
      cases chosen with
      | none => exact inRange_of_ofDefault h
      | some chosen =>
        obtain rfl := Except.ok.inj h
        exact inRange_of_atLevel hchosen
    · exact hgrowth h

/-- The requirement that progression uses, on any curve and with any growth beside it. -/
theorem next_le {c : Option Curve} {growth : Option Growth} {need : Int}
    (h : next c growth level = .ok need) : need ≤ greatest := by
  have hpositive := greatest_pos
  obtain ⟨exp, hexp, h⟩ := Outcome.bind_eq_ok_iff.1 h
  obtain rfl := Except.ok.inj h
  have hle := (inRange_of_effective hexp).2
  omega

end Requirement

end ExperienceCurves
