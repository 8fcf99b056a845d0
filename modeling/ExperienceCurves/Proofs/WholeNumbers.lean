import ExperienceCurves.Number
import Mathlib.Tactic.Common

/-!
Whole numbers in the binary format. A whole number no larger than the greatest finite one is
rounded to a finite one, which is again whole: below the last bit of the format the rounding is
exact, and above it every number of the format is whole.
-/
namespace ExperienceCurves

-- Powers of whole numbers are those of the core library, whatever else is imported.
attribute [local instance (high)] instPowNat

namespace Rounding

theorem halfEven_one (n : Nat) : halfEven n 1 = n := by
  have h := halfEven_mul_right n 1 Nat.one_pos
  rwa [Nat.mul_one] at h

/-- Rounding does not pass a whole number. -/
theorem halfEven_le_of_le_mul {num den bound : Nat} (hden : 0 < den) (h : num ≤ bound * den) :
    halfEven num den ≤ bound := by
  have hquotient : num / den ≤ bound := Nat.div_le_of_le_mul (Nat.mul_comm bound den ▸ h)
  rcases Nat.lt_or_eq_of_le hquotient with hlt | heq
  · have hbounds := (halfEven_bounds num den).2
    omega
  · have hdivision := Nat.div_add_mod num den
    have hrest : num % den = 0 := by
      rw [heq, Nat.mul_comm] at hdivision
      omega
    have hnum : num = bound * den := by
      rw [heq, hrest, Nat.mul_comm] at hdivision
      omega
    exact Nat.le_of_eq (hnum ▸ halfEven_mul_right bound den hden)

end Rounding

/-- All halvings of a multiple of a power of two cancel. -/
theorem Enclosure.Exponent.reduce_eq (negative : Bool) (factor halvings : Nat) :
    reduce negative (2 ^ halvings * factor) halvings = ⟨negative, factor, 0⟩ := by
  induction halvings with
  | zero => rw [reduce, Nat.pow_zero, Nat.one_mul]
  | succ halvings ih =>
    have hdouble : 2 ^ (halvings + 1) * factor = 2 * (2 ^ halvings * factor) := by
      rw [Nat.pow_succ', Nat.mul_assoc]
    have hhalf : 2 * (2 ^ halvings * factor) / 2 = 2 ^ halvings * factor := by omega
    rw [reduce, hdouble, if_pos (by omega), hhalf]
    exact ih

namespace Binary64

open Rounding Enclosure

/-- A finite number without a part below one. -/
def IsInteger (x : Binary64) : Prop :=
  ∃ (negative : Bool) (mantissa : Nat) (exponent : Int) (h : Canonical mantissa exponent),
    x = finite negative mantissa exponent h ∧ (0 ≤ exponent ∨ 2 ^ (-exponent).toNat ∣ mantissa)

namespace IsInteger

variable {x : Binary64}

theorem isFinite (h : x.IsInteger) : x.isFinite = true := by
  obtain ⟨negative, mantissa, exponent, hcanonical, rfl, -⟩ := h
  rfl

theorem isWhole (h : x.IsInteger) : x.isWhole = true := by
  obtain ⟨negative, mantissa, exponent, hcanonical, rfl, hwhole⟩ := h
  rw [Binary64.isWhole, beq_iff_eq, Exponent.ofFinite]
  by_cases hexponent : 0 ≤ exponent
  · rw [if_pos hexponent]
  · obtain ⟨factor, rfl⟩ := hwhole.resolve_left hexponent
    rw [if_neg hexponent, Exponent.reduce_eq]

theorem den_scaled {mantissa : Nat} {exponent : Int}
    (h : 0 ≤ exponent ∨ 2 ^ (-exponent).toNat ∣ mantissa) : (scaled mantissa exponent).den = 1 := by
  unfold scaled
  by_cases hexponent : 0 ≤ exponent
  · rw [if_pos hexponent]
    rfl
  · obtain ⟨factor, rfl⟩ := h.resolve_left hexponent
    rw [if_neg hexponent]
    have hpositive : 2 ^ (-exponent).toNat ≠ 0 := Nat.ne_of_gt (Nat.two_pow_pos _)
    have hcancel := Rat.mkRat_mul_left (n := factor) (d := 1) hpositive
    rw [Nat.mul_one] at hcancel
    rw [Int.natCast_mul, hcancel, Rat.mkRat_one]
    rfl

theorem den_toRat (h : x.IsInteger) : x.toRat.den = 1 := by
  obtain ⟨negative, mantissa, exponent, hcanonical, rfl, hwhole⟩ := h
  cases negative with
  | false => exact den_scaled hwhole
  | true => exact den_scaled hwhole

end IsInteger

theorem zero_isInteger (negative : Bool) : (zero negative).IsInteger :=
  ⟨negative, 0, -1074, _, rfl, Or.inr (Nat.dvd_zero _)⟩

theorem binaryOrder_one {n : Nat} (h : n ≠ 0) : binaryOrder n 1 = n.log2 := by
  have hlog : Nat.log2 1 = 0 := by decide
  have hreached : 1 * 2 ^ ((n.log2 : Int) - (0 : Nat)).toNat ≤ n := by
    rw [Nat.one_mul, Int.natCast_zero, Int.sub_zero, Int.toNat_natCast]
    exact Nat.log2_self_le h
  unfold binaryOrder
  rw [hlog]
  simp only [show (0 : Int) ≤ (n.log2 : Int) - (0 : Nat) by omega, if_true, hreached]
  omega

/-- Below the last bit of the format a whole number is a mantissa as it is. -/
theorem nearest_small (negative : Bool) {n : Nat} (h : n ≠ 0) (hsmall : n.log2 < 52) :
    ∃ hcanonical, nearest negative n 1 =
      finite negative (n * 2 ^ (52 - n.log2)) (n.log2 - 52) hcanonical := by
  have hlow := Nat.log2_self_le h
  have hhigh := Nat.lt_log2_self (n := n)
  have hcanonical : Canonical (n * 2 ^ (52 - n.log2)) (n.log2 - 52) := by
    have hlow' := Nat.mul_le_mul_right (2 ^ (52 - n.log2)) hlow
    have hhigh' := (Nat.mul_lt_mul_right (Nat.two_pow_pos (52 - n.log2))).2 hhigh
    rw [← Nat.pow_add] at hlow' hhigh'
    rw [show n.log2 + (52 - n.log2) = 52 by omega] at hlow'
    rw [show n.log2 + 1 + (52 - n.log2) = 53 by omega] at hhigh'
    exact ⟨hhigh', by omega, by omega, Or.inl hlow'⟩
  refine ⟨hcanonical, ?_⟩
  have hexponent : max (-1074) ((n.log2 : Int) - 52) = n.log2 - 52 := by omega
  have hshift : (-((n.log2 : Int) - 52)).toNat = 52 - n.log2 := by omega
  simp only [nearest, ofQuotient, if_neg h, binaryOrder_one h, hexponent, hshift, halfEven_one,
    if_neg (show ¬ (0 : Int) ≤ (n.log2 : Int) - 52 by omega), pack, dif_pos hcanonical]

/-- A mantissa of at least 52 bits at a whole exponent is packed into a whole number. -/
theorem pack_isInteger (negative : Bool) {mantissa : Nat} {exponent : Int} (hexponent : 0 ≤ exponent)
    (hlow : 2 ^ fractionBits ≤ mantissa) (hhigh : mantissa ≤ 2 ^ (fractionBits + 1))
    (hrange : exponent < 971 ∨ exponent = 971 ∧ mantissa < 2 ^ (fractionBits + 1)) :
    (pack negative mantissa exponent).IsInteger ∧
      (pack negative mantissa exponent).isNegative = negative ∧
      (pack negative mantissa exponent).isZero = false := by
  have hzero : mantissa ≠ 0 := Nat.ne_of_gt (Nat.lt_of_lt_of_le (Nat.two_pow_pos _) hlow)
  unfold pack
  by_cases hfull : mantissa < 2 ^ (fractionBits + 1)
  · have hcanonical : Canonical mantissa exponent := ⟨hfull, by omega, by omega, Or.inl hlow⟩
    rw [dif_pos hcanonical]
    exact ⟨⟨negative, mantissa, exponent, hcanonical, rfl, Or.inl hexponent⟩, rfl,
      beq_eq_false_iff_ne.2 hzero⟩
  · have hnot : ¬ Canonical mantissa exponent := fun h => hfull h.1
    have hcarry : mantissa = 2 ^ (fractionBits + 1) ∧
        Canonical (2 ^ fractionBits) (exponent + 1) := by
      have hexponent' : exponent < 971 := hrange.resolve_right fun h => hfull h.2
      exact ⟨by omega, by decide, by omega, by omega, Or.inl (Nat.le_refl _)⟩
    rw [dif_neg hnot, dif_pos hcarry]
    exact ⟨⟨negative, 2 ^ fractionBits, exponent + 1, hcarry.2, rfl, Or.inl (by omega)⟩, rfl, rfl⟩

theorem full_mul_lt (exponent : Nat) :
    (2 ^ (fractionBits + 1) - 1) * 2 ^ exponent < 2 ^ (fractionBits + 1 + exponent) := by
  have hfull : 2 ^ (fractionBits + 1) - 1 < 2 ^ (fractionBits + 1) := by decide
  calc (2 ^ (fractionBits + 1) - 1) * 2 ^ exponent
      < 2 ^ (fractionBits + 1) * 2 ^ exponent :=
        (Nat.mul_lt_mul_right (Nat.two_pow_pos exponent)).2 hfull
    _ = 2 ^ (fractionBits + 1 + exponent) := (Nat.pow_add 2 (fractionBits + 1) exponent).symm

theorem log2_lt_of_le_greatest {n : Nat} (hzero : n ≠ 0) (h : n ≤ greatest) :
    n.log2 < fractionBits + 1 + 971 :=
  (Nat.log2_lt hzero).2 (Nat.lt_of_le_of_lt h (full_mul_lt 971))

/-- A whole number within the range is rounded to a whole one with its sign, and only zero to
zero. -/
theorem nearest_isInteger (negative : Bool) {n : Nat} (h : n ≤ greatest) :
    (nearest negative n 1).IsInteger ∧ (nearest negative n 1).isNegative = negative ∧
      (nearest negative n 1).isZero = decide (n = 0) := by
  by_cases hzero : n = 0
  · subst hzero
    exact ⟨zero_isInteger negative, rfl, rfl⟩
  rw [decide_eq_false hzero]
  by_cases hsmall : n.log2 < 52
  · obtain ⟨hcanonical, hnearest⟩ := nearest_small negative hzero hsmall
    rw [hnearest]
    have hmantissa : n * 2 ^ (52 - n.log2) ≠ 0 :=
      Nat.mul_ne_zero hzero (Nat.ne_of_gt (Nat.two_pow_pos _))
    refine ⟨⟨negative, _, _, hcanonical, rfl, Or.inr ?_⟩, rfl, beq_eq_false_iff_ne.2 hmantissa⟩
    rw [show (-((n.log2 : Int) - 52)).toNat = 52 - n.log2 by omega]
    exact Nat.dvd_mul_left _ _
  · have hrange := log2_lt_of_le_greatest hzero h
    obtain ⟨j, hj⟩ : ∃ j, n.log2 = j + 52 := ⟨n.log2 - 52, by omega⟩
    have hwidth : fractionBits = 52 := rfl
    have hlow := Nat.log2_self_le hzero
    have hhigh := Nat.lt_log2_self (n := n)
    have hexponent : max (-1074) ((n.log2 : Int) - 52) = (j : Int) := by omega
    have hmantissa : 2 ^ fractionBits ≤ halfEven n (2 ^ j) := by
      refine Nat.le_trans ?_ (halfEven_bounds n (2 ^ j)).1
      rw [Nat.le_div_iff_mul_le (Nat.two_pow_pos j), ← Nat.pow_add, Nat.add_comm, ← hj]
      exact hlow
    have hmantissa' : halfEven n (2 ^ j) ≤ 2 ^ (fractionBits + 1) := by
      apply halfEven_le_of_le_mul (Nat.two_pow_pos j)
      rw [← Nat.pow_add, show fractionBits + 1 + j = n.log2 + 1 by omega]
      exact Nat.le_of_lt hhigh
    have hlast : j < 971 ∨ j = 971 ∧ halfEven n (2 ^ j) < 2 ^ (fractionBits + 1) := by
      by_cases hj' : j < 971
      · exact Or.inl hj'
      · obtain rfl : j = 971 := by omega
        have hle := halfEven_le_of_le_mul (Nat.two_pow_pos 971) h
        have hpositive := Nat.two_pow_pos (fractionBits + 1)
        exact Or.inr ⟨rfl, by omega⟩
    simp only [nearest, ofQuotient, if_neg hzero, binaryOrder_one hzero, hexponent,
      if_pos (Int.natCast_nonneg j), Int.toNat_natCast, Nat.one_mul]
    exact pack_isInteger negative (Int.natCast_nonneg j) hmantissa hmantissa' (by omega)

/-- The greatest number of the format bounds its whole numbers. -/
theorem ofInt_isInteger {n : Int} (h : n.natAbs ≤ greatest) :
    (ofInt n).IsInteger ∧ (ofInt n).isNegative = decide (n < 0) := by
  obtain ⟨hinteger, hsign, -⟩ := nearest_isInteger (decide (n < 0)) h
  exact ⟨hinteger, hsign⟩

theorem ofInt_isZero {n : Int} (h : n.natAbs ≤ greatest) (hn : n ≠ 0) :
    (ofInt n).isZero = false := by
  obtain ⟨-, -, hzero⟩ := nearest_isInteger (decide (n < 0)) h
  rwa [decide_eq_false (Int.natAbs_ne_zero.2 hn)] at hzero

/-- Whole numbers within the range have a binary number. -/
theorem ofInt?_eq_ok {n : Int} (h : n.natAbs ≤ greatest) : ofInt? n = .ok (ofInt n) := by
  obtain ⟨negative, mantissa, exponent, hcanonical, heq, -⟩ := (ofInt_isInteger h).1
  unfold ofInt?
  rw [heq]
  rfl

theorem ofInt?_error {n : Int} {fault : Fault} (h : ofInt? n = .error fault) :
    fault = .integerTooLarge := by
  unfold ofInt? at h
  dsimp only at h
  split at h
  · exact (Except.error.inj h).symm
  · cases h

theorem isNegative_pack (negative : Bool) (mantissa : Nat) (exponent : Int) :
    (pack negative mantissa exponent).isNegative = negative := by
  unfold pack
  split
  · rfl
  · split <;> rfl

theorem isNegative_ofQuotient (divide : Nat → Nat → Nat) (negative : Bool) (num den : Nat) :
    (ofQuotient divide negative num den).isNegative = negative := by
  unfold ofQuotient
  split
  · rfl
  · exact isNegative_pack _ _ _

/-- What is packed at a whole exponent is whole or too large. -/
theorem isInteger_pack {negative : Bool} {mantissa : Nat} {exponent : Int}
    (hexponent : 0 ≤ exponent) (h : (pack negative mantissa exponent).isInfinite = false) :
    (pack negative mantissa exponent).IsInteger := by
  unfold pack at h ⊢
  split
  · next hcanonical => exact ⟨negative, _, _, hcanonical, rfl, Or.inl hexponent⟩
  · split
    · next hcarry => exact ⟨negative, _, _, hcarry.2, rfl, Or.inl (by omega)⟩
    · next hcanonical hcarry =>
      rw [dif_neg hcanonical, dif_neg hcarry] at h
      cases h

/-- The binary number of a whole number is the nearest one, which is not infinite. -/
theorem ofInt?_eq_ok_iff {n : Int} {x : Binary64} :
    ofInt? n = .ok x ↔ ofInt n = x ∧ x.isInfinite = false := by
  unfold ofInt?
  dsimp only
  constructor
  · intro h
    split at h
    · cases h
    · next hfinite =>
      obtain rfl := Except.ok.inj h
      exact ⟨rfl, Bool.not_eq_true _ ▸ hfinite⟩
  · rintro ⟨rfl, hfinite⟩
    rw [hfinite, if_neg Bool.false_ne_true]

/-- The binary number of a whole number is whole, also beyond the range. -/
theorem isInteger_of_ofInt? {n : Int} {x : Binary64} (h : ofInt? n = .ok x) :
    x.IsInteger ∧ x.isNegative = decide (n < 0) := by
  obtain ⟨rfl, hfinite⟩ := ofInt?_eq_ok_iff.1 h
  refine ⟨?_, isNegative_ofQuotient _ _ _ _⟩
  by_cases hrange : n.natAbs ≤ greatest
  · exact (ofInt_isInteger hrange).1
  · have hzero : n.natAbs ≠ 0 := by omega
    have hwide : 52 ≤ n.natAbs.log2 := by
      refine (Nat.le_log2 hzero).2 (Nat.le_trans ?_ (Nat.le_of_not_le hrange))
      exact Nat.le_trans (by decide) (Nat.le_mul_of_pos_right _ (Nat.two_pow_pos 971))
    have hexponent : 0 ≤ max (-1074) (binaryOrder n.natAbs 1 - 52) := by
      rw [binaryOrder_one hzero]
      omega
    unfold ofInt nearest ofQuotient at hfinite ⊢
    rw [if_neg hzero] at hfinite ⊢
    exact isInteger_pack hexponent hfinite

end Binary64

end ExperienceCurves
