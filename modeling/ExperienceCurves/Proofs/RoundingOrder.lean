import ExperienceCurves.Proofs.RequirementBounds
import Mathlib.Algebra.Order.Field.Power
import Mathlib.Tactic.FieldSimp
import Mathlib.Tactic.Linarith
import Mathlib.Tactic.NormNum
import Mathlib.Tactic.Positivity
import Mathlib.Tactic.Ring

/-!
Rounding and order. A rounded quotient never passes a number of the format: what lies between two
finite numbers is rounded to a finite number between them. So sums and products keep any bounds
that the format can hold.
-/
namespace ExperienceCurves

-- Powers of whole numbers are those of the core library, whatever else is imported.
attribute [local instance (high)] instPowNat

namespace Binary64

open Rounding

theorem scaled_eq (mantissa : Nat) (exponent : Int) :
    scaled mantissa exponent = (mantissa : Rat) * (2 : Rat) ^ exponent := by
  unfold scaled
  split
  · next h =>
    obtain ⟨k, rfl⟩ := Int.eq_ofNat_of_zero_le h
    simp
  · next h =>
    obtain ⟨k, rfl⟩ : ∃ k : Nat, exponent = -(k : Int) := ⟨(-exponent).toNat, by omega⟩
    rw [Rat.mkRat_eq_div]
    simp [div_eq_mul_inv]

theorem scaled_greatest : scaled (2 ^ (fractionBits + 1) - 1) 971 = (greatest : Rat) := by
  have hexponent : ((971 : Nat) : Int).toNat = 971 := Int.toNat_natCast 971
  rw [scaled, if_pos (by decide), greatest]
  rw [show (971 : Int) = ((971 : Nat) : Int) by rfl, hexponent]

theorem greatest_lt : (greatest : Rat) < (2 : Rat) ^ (1024 : Int) := by
  have hwidth : ((fractionBits + 1 + 971 : Nat) : Int) = 1024 := by decide
  calc (greatest : Rat) < ((2 ^ (fractionBits + 1 + 971) : Nat) : Rat) :=
        Nat.cast_lt.2 (full_mul_lt 971)
    _ = (2 : Rat) ^ (1024 : Int) := by
      rw [← hwidth, zpow_natCast, Nat.cast_pow, Nat.cast_ofNat]

theorem two_zpow_log2_le {n : Nat} (h : n ≠ 0) : (2 : Rat) ^ (n.log2 : Int) ≤ n := by
  rw [zpow_natCast]
  exact_mod_cast Nat.log2_self_le h

theorem lt_two_zpow_log2 (n : Nat) : (n : Rat) < (2 : Rat) ^ ((n.log2 : Int) + 1) := by
  exact_mod_cast Nat.lt_log2_self (n := n)

/-- A power of two against a quotient, without fractions. -/
theorem reached_iff (num den : Nat) (order : Int) :
    (if 0 ≤ order then den * 2 ^ order.toNat ≤ num else den ≤ num * 2 ^ (-order).toNat) ↔
      (2 : Rat) ^ order * den ≤ num := by
  by_cases h : 0 ≤ order
  · obtain ⟨k, rfl⟩ := Int.eq_ofNat_of_zero_le h
    rw [if_pos h, Int.toNat_natCast, zpow_natCast, mul_comm (_ ^ k)]
    norm_cast
  · obtain ⟨k, rfl⟩ : ∃ k : Nat, order = -(k : Int) := ⟨(-order).toNat, by omega⟩
    have hpos : (0 : Rat) < 2 ^ k := by positivity
    rw [if_neg h, neg_neg, Int.toNat_natCast, zpow_neg, zpow_natCast, inv_mul_le_iff₀ hpos,
      mul_comm]
    norm_cast

theorem binaryOrder_spec {num den : Nat} (hnum : num ≠ 0) (hden : den ≠ 0) :
    (2 : Rat) ^ binaryOrder num den * den ≤ num ∧
      (num : Rat) < (2 : Rat) ^ (binaryOrder num den + 1) * den := by
  have htwo : (2 : Rat) ≠ 0 := by norm_num
  have hnumLow := two_zpow_log2_le hnum
  have hnumHigh := lt_two_zpow_log2 num
  have hdenLow := two_zpow_log2_le hden
  have hdenHigh := lt_two_zpow_log2 den
  have hreached := reached_iff num den ((num.log2 : Int) - den.log2)
  unfold binaryOrder
  dsimp only
  by_cases h : (2 : Rat) ^ ((num.log2 : Int) - den.log2) * den ≤ num
  · rw [if_pos (hreached.2 h)]
    refine ⟨h, ?_⟩
    calc (num : Rat) < (2 : Rat) ^ ((num.log2 : Int) + 1) := hnumHigh
      _ = (2 : Rat) ^ ((num.log2 : Int) - den.log2 + 1) * (2 : Rat) ^ (den.log2 : Int) := by
        rw [← zpow_add₀ htwo]
        congr 1
        omega
      _ ≤ _ := by gcongr
  · rw [if_neg (mt hreached.1 h), sub_add_cancel]
    refine ⟨?_, not_le.1 h⟩
    calc (2 : Rat) ^ ((num.log2 : Int) - den.log2 - 1) * den
        ≤ (2 : Rat) ^ ((num.log2 : Int) - den.log2 - 1) * (2 : Rat) ^ ((den.log2 : Int) + 1) := by
          gcongr
      _ = (2 : Rat) ^ (num.log2 : Int) := by
        rw [← zpow_add₀ htwo]
        congr 1
        omega
      _ ≤ num := hnumLow

/-- A division to whole numbers that does not pass a whole number. -/
def IsRounding (divide : Nat → Nat → Nat) : Prop :=
  ∀ num den bound, 0 < den →
    (num ≤ bound * den → divide num den ≤ bound) ∧ (bound * den ≤ num → bound ≤ divide num den)

theorem isRounding_halfEven : IsRounding halfEven := by
  intro num den bound hden
  refine ⟨halfEven_le_of_le_mul hden, ?_⟩
  intro h
  exact le_trans ((Nat.le_div_iff_mul_le hden).2 h) (halfEven_bounds num den).1

theorem isRounding_div : IsRounding fun num den => num / den := by
  intro num den bound hden
  exact ⟨fun h => Nat.div_le_of_le_mul (Nat.mul_comm bound den ▸ h),
    (Nat.le_div_iff_mul_le hden).2⟩

/-- The mantissa of a quotient at an exponent. -/
def mantissaAt (divide : Nat → Nat → Nat) (num den : Nat) (exponent : Int) : Nat :=
  if 0 ≤ exponent then divide num (den * 2 ^ exponent.toNat)
  else divide (num * 2 ^ (-exponent).toNat) den

/-- The exponent of a quotient: its order less the bits of a mantissa, as far as exponents go. -/
def exponentOf (num den : Nat) : Int := max (-1074) (binaryOrder num den - 52)

section Quotient

variable {divide : Nat → Nat → Nat} {num den bound : Nat} {exponent : Int}

theorem ofQuotient_eq (negative : Bool) (hnum : num ≠ 0) :
    ofQuotient divide negative num den =
      pack negative (mantissaAt divide num den (exponentOf num den)) (exponentOf num den) :=
  if_neg hnum

/-- A mantissa is the rounded quotient of two whole numbers, which counts the units. -/
theorem exists_mantissaAt (divide : Nat → Nat → Nat) (num : Nat) (hden : den ≠ 0) (exponent : Int) :
    ∃ top bottom : Nat, 0 < bottom ∧ mantissaAt divide num den exponent = divide top bottom ∧
      (num : Rat) / den = top / bottom * (2 : Rat) ^ exponent := by
  have hdenPos : 0 < den := Nat.pos_of_ne_zero hden
  have hdenRat : (den : Rat) ≠ 0 := by exact_mod_cast hden
  unfold mantissaAt
  by_cases hexponent : 0 ≤ exponent
  · obtain ⟨k, rfl⟩ := Int.eq_ofNat_of_zero_le hexponent
    have hpower : (2 : Rat) ^ k ≠ 0 := by positivity
    refine ⟨num, den * 2 ^ k, by positivity, ?_, ?_⟩
    · rw [if_pos hexponent, Int.toNat_natCast]
    · rw [zpow_natCast]
      push_cast
      field_simp
  · obtain ⟨k, rfl⟩ : ∃ k : Nat, exponent = -(k : Int) := ⟨(-exponent).toNat, by omega⟩
    have hpower : (2 : Rat) ^ k ≠ 0 := by positivity
    refine ⟨num * 2 ^ k, den, hdenPos, ?_, ?_⟩
    · rw [if_neg hexponent, neg_neg, Int.toNat_natCast]
    · rw [zpow_neg, zpow_natCast]
      push_cast
      field_simp

/-- A mantissa is on the same side of a whole number as the quotient is. -/
theorem mantissaAt_bounds (hdivide : IsRounding divide) (hden : den ≠ 0) (bound : Nat)
    (exponent : Int) :
    ((num : Rat) ≤ bound * (2 : Rat) ^ exponent * den →
        mantissaAt divide num den exponent ≤ bound) ∧
      (bound * (2 : Rat) ^ exponent * den ≤ num → bound ≤ mantissaAt divide num den exponent) := by
  have hdenPos : (0 : Rat) < den := by exact_mod_cast Nat.pos_of_ne_zero hden
  have hunit : (0 : Rat) < (2 : Rat) ^ exponent := by positivity
  obtain ⟨top, bottom, hbottom, hmantissa, hquotient⟩ := exists_mantissaAt divide num hden exponent
  obtain ⟨hle, hge⟩ := hdivide top bottom bound hbottom
  have hbottomRat : (0 : Rat) < bottom := by exact_mod_cast hbottom
  rw [hmantissa, ← div_le_iff₀ hdenPos, ← le_div_iff₀ hdenPos, hquotient,
    mul_le_mul_iff_left₀ hunit, mul_le_mul_iff_left₀ hunit, div_le_iff₀ hbottomRat,
    le_div_iff₀ hbottomRat]
  exact ⟨fun h => hle (by exact_mod_cast h), fun h => hge (by exact_mod_cast h)⟩

/-- Where exponents can still fall, the mantissa is a full one. -/
theorem exponentOf_cases (hnum : num ≠ 0) (hden : den ≠ 0) :
    exponentOf num den = -1074 ∨
      (2 ^ fractionBits : Nat) * (2 : Rat) ^ exponentOf num den * den ≤ num := by
  unfold exponentOf
  rcases le_or_gt (binaryOrder num den - 52) (-1074) with hsmall | hlarge
  · exact Or.inl (max_eq_left hsmall)
  · right
    rw [max_eq_right hlarge.le]
    have hpower : ((2 ^ fractionBits : Nat) : Rat) * (2 : Rat) ^ (binaryOrder num den - 52) =
        (2 : Rat) ^ binaryOrder num den := by
      rw [show ((2 ^ fractionBits : Nat) : Rat) = (2 : Rat) ^ (52 : Int) by norm_num,
        ← zpow_add₀ (by norm_num)]
      congr 1
      omega
    rw [hpower]
    exact (binaryOrder_spec hnum hden).1

theorem lt_full_exponentOf (hnum : num ≠ 0) (hden : den ≠ 0) :
    (num : Rat) < (2 ^ (fractionBits + 1) : Nat) * (2 : Rat) ^ exponentOf num den * den := by
  have horder : binaryOrder num den + 1 ≤ 53 + exponentOf num den := by
    unfold exponentOf
    omega
  calc (num : Rat) < (2 : Rat) ^ (binaryOrder num den + 1) * den := (binaryOrder_spec hnum hden).2
    _ ≤ (2 : Rat) ^ (53 + exponentOf num den) * den := by
      gcongr
      norm_num
    _ = (2 ^ (fractionBits + 1) : Nat) * (2 : Rat) ^ exponentOf num den * den := by
      rw [zpow_add₀ (by norm_num)]
      norm_num

/-- The same number at a lower exponent. -/
theorem scaled_shift (mantissa : Nat) (exponent : Int) (shift : Nat) :
    scaled mantissa (exponent + shift) = ((mantissa * 2 ^ shift : Nat) : Rat) * 2 ^ exponent := by
  rw [scaled_eq, zpow_add₀ (by norm_num), zpow_natCast]
  push_cast
  ring

/-- At a lower exponent no mantissa reaches a full one. -/
theorem scaled_lt_full {mantissa : Nat} {lower exponent : Int} (hlt : lower < exponent)
    (hmantissa : mantissa < 2 ^ (fractionBits + 1)) :
    scaled mantissa lower < (2 ^ fractionBits : Nat) * (2 : Rat) ^ exponent := by
  have hpos : (0 : Rat) < 2 ^ lower := by positivity
  calc scaled mantissa lower = mantissa * (2 : Rat) ^ lower := scaled_eq _ _
    _ < (2 ^ (fractionBits + 1) : Nat) * (2 : Rat) ^ lower := by gcongr
    _ = (2 ^ fractionBits : Nat) * (2 : Rat) ^ (lower + 1) := by
      rw [zpow_add₀ (by norm_num)]
      norm_num
      ring
    _ ≤ (2 ^ fractionBits : Nat) * (2 : Rat) ^ exponent := by
      gcongr
      · norm_num
      · omega

variable {mantissa : Nat} {k : Int}

/-- Rounding does not pass a number of the format: either it is a whole number of units, or the
mantissa is full and the number lies below it. -/
theorem rounded_le (hdivide : IsRounding divide) (hnum : num ≠ 0) (hden : den ≠ 0)
    (hcanonical : Canonical mantissa k) (h : (num : Rat) ≤ scaled mantissa k * den) :
    scaled (mantissaAt divide num den (exponentOf num den)) (exponentOf num den) ≤
      scaled mantissa k := by
  rcases le_or_gt (exponentOf num den) k with hle | hlt
  · obtain ⟨shift, hshift⟩ := Int.le.dest hle
    rw [← hshift, scaled_shift] at h ⊢
    rw [scaled_eq]
    gcongr
    exact (mantissaAt_bounds hdivide hden _ _).1 h
  · have hfull := (exponentOf_cases hnum hden).resolve_left (by have := hcanonical.2.1; omega)
    have hden' : (0 : Rat) < den := by exact_mod_cast Nat.pos_of_ne_zero hden
    have hbelow := mul_lt_mul_of_pos_right (scaled_lt_full hlt hcanonical.1) hden'
    linarith

theorem le_rounded (hdivide : IsRounding divide) (hnum : num ≠ 0) (hden : den ≠ 0)
    (hcanonical : Canonical mantissa k) (h : scaled mantissa k * den ≤ (num : Rat)) :
    scaled mantissa k ≤
      scaled (mantissaAt divide num den (exponentOf num den)) (exponentOf num den) := by
  rcases le_or_gt (exponentOf num den) k with hle | hlt
  · obtain ⟨shift, hshift⟩ := Int.le.dest hle
    rw [← hshift, scaled_shift] at h ⊢
    rw [scaled_eq]
    gcongr
    exact (mantissaAt_bounds hdivide hden _ _).2 h
  · have hfull := (exponentOf_cases hnum hden).resolve_left (by have := hcanonical.2.1; omega)
    have hmantissa := (mantissaAt_bounds hdivide hden _ _).2 hfull
    calc scaled mantissa k
        ≤ (2 ^ fractionBits : Nat) * (2 : Rat) ^ exponentOf num den :=
          (scaled_lt_full hlt hcanonical.1).le
      _ ≤ scaled (mantissaAt divide num den (exponentOf num den)) (exponentOf num den) := by
        rw [scaled_eq]
        gcongr

/-- Packing keeps the value of a mantissa that is full, unless it is too large for the format. -/
theorem pack_cases (negative : Bool) (hlow : -1074 ≤ k)
    (hmantissa : mantissa ≤ 2 ^ (fractionBits + 1))
    (hfull : 2 ^ fractionBits ≤ mantissa ∨ k = -1074) :
    (∃ m e h, pack negative mantissa k = finite negative m e h ∧ scaled m e = scaled mantissa k) ∨
      pack negative mantissa k = infinite negative ∧ (greatest : Rat) < scaled mantissa k := by
  unfold pack
  split
  · next hcanonical => exact Or.inl ⟨mantissa, k, hcanonical, rfl, rfl⟩
  · next hcanonical =>
    split
    · next hcarry =>
      refine Or.inl ⟨2 ^ fractionBits, k + 1, hcarry.2, rfl, ?_⟩
      rw [hcarry.1, show k + 1 = k + (1 : Nat) by rfl, scaled_shift, ← pow_succ, scaled_eq]
    · next hcarry =>
      refine Or.inr ⟨rfl, ?_⟩
      have hlargest : 2 ^ (fractionBits + 1) - 1 < 2 ^ (fractionBits + 1) := by decide
      rcases Nat.lt_or_eq_of_le hmantissa with hlt | rfl
      · have hexponent : 971 < k := by
          by_contra hle
          exact hcanonical ⟨hlt, hlow, not_lt.1 hle, hfull⟩
        have hmantissa' := hfull.resolve_right (by omega)
        calc (greatest : Rat) = scaled (2 ^ (fractionBits + 1) - 1) 971 := scaled_greatest.symm
          _ < (2 ^ fractionBits : Nat) * (2 : Rat) ^ k := scaled_lt_full hexponent hlargest
          _ ≤ mantissa * (2 : Rat) ^ k := by gcongr
          _ = scaled mantissa k := (scaled_eq _ _).symm
      · have hexponent : 971 < k + 1 := by
          by_contra hle
          exact hcarry ⟨rfl, by decide, by omega, not_lt.1 hle, Or.inl le_rfl⟩
        calc (greatest : Rat) = scaled (2 ^ (fractionBits + 1) - 1) 971 := scaled_greatest.symm
          _ < (2 ^ fractionBits : Nat) * (2 : Rat) ^ (k + (1 : Nat)) :=
            scaled_lt_full hexponent hlargest
          _ = scaled (2 ^ fractionBits) (k + (1 : Nat)) := (scaled_eq _ _).symm
          _ = scaled (2 ^ (fractionBits + 1)) k := by
            rw [scaled_shift, ← pow_succ, scaled_eq]

/-- What a rounded quotient is: a finite number that keeps every bound of the format, or infinite
and beyond all of them. -/
theorem ofQuotient_cases (negative : Bool) (num : Nat) (hdivide : IsRounding divide)
    (hden : den ≠ 0) :
    (∃ m e hc, ofQuotient divide negative num den = finite negative m e hc ∧
      (∀ upper j, Canonical upper j → (num : Rat) ≤ scaled upper j * den →
        scaled m e ≤ scaled upper j) ∧
      ∀ lower j, Canonical lower j → scaled lower j * den ≤ (num : Rat) →
        scaled lower j ≤ scaled m e) ∨
    ofQuotient divide negative num den = infinite negative ∧
      ∀ upper j, Canonical upper j → scaled upper j * den < (num : Rat) := by
  have hdenPos : (0 : Rat) < den := by exact_mod_cast Nat.pos_of_ne_zero hden
  by_cases hnum : num = 0
  · subst hnum
    have hzero : scaled 0 (-1074) = 0 := by rw [scaled_eq, Nat.cast_zero, zero_mul]
    refine Or.inl ⟨0, -1074, by decide, rfl, ?_, ?_⟩
    · intro upper j _ _
      rw [hzero]
      exact scaled_nonneg upper j
    · intro lower j _ hlower
      rw [Nat.cast_zero] at hlower
      rw [hzero]
      exact nonpos_of_mul_nonpos_left hlower hdenPos
  have hfull : 2 ^ fractionBits ≤ mantissaAt divide num den (exponentOf num den) ∨
      exponentOf num den = -1074 :=
    (exponentOf_cases hnum hden).symm.imp_left (mantissaAt_bounds hdivide hden _ _).2
  have hsmall : mantissaAt divide num den (exponentOf num den) ≤ 2 ^ (fractionBits + 1) :=
    (mantissaAt_bounds hdivide hden _ _).1 (lt_full_exponentOf hnum hden).le
  have hexponent : -1074 ≤ exponentOf num den := le_max_left _ _
  rw [ofQuotient_eq negative hnum]
  rcases pack_cases negative hexponent hsmall hfull with
    ⟨m, e, hc, hpack, hvalue⟩ | ⟨hpack, hlarge⟩
  · refine Or.inl ⟨m, e, hc, hpack, ?_, ?_⟩
    · intro upper j hupper hle
      exact hvalue.le.trans (rounded_le hdivide hnum hden hupper hle)
    · intro lower j hlower hle
      exact (le_rounded hdivide hnum hden hlower hle).trans hvalue.ge
  · refine Or.inr ⟨hpack, ?_⟩
    intro upper j hupper
    by_contra hle
    have hround := rounded_le hdivide hnum hden hupper (not_lt.1 hle)
    have hrange := scaled_le hupper
    linarith

/-- A quotient that a number of the format bounds is rounded to a finite number, which keeps that
bound and every lower bound of the format. -/
theorem ofQuotient_spec (negative : Bool) (hdivide : IsRounding divide) (hden : den ≠ 0)
    (hcanonical : Canonical mantissa k) (h : (num : Rat) ≤ scaled mantissa k * den) :
    ∃ m e hc, ofQuotient divide negative num den = finite negative m e hc ∧
      scaled m e ≤ scaled mantissa k ∧
      ∀ lower j, Canonical lower j → scaled lower j * den ≤ (num : Rat) →
        scaled lower j ≤ scaled m e := by
  rcases ofQuotient_cases negative num hdivide hden with
    ⟨m, e, hc, heq, hupper, hlower⟩ | ⟨-, hlarge⟩
  · exact ⟨m, e, hc, heq, hupper mantissa k hcanonical h, hlower⟩
  · exact absurd h (not_le.2 (hlarge mantissa k hcanonical))

end Quotient

/-- A rational number of the format. -/
def Exact (r : Rat) : Prop := ∃ x : Binary64, x.isFinite = true ∧ x.toRat = r

/-- A finite number between two bounds. -/
structure Between (low high : Rat) (x : Binary64) : Prop where
  isFinite : x.isFinite = true
  low_le : low ≤ x.toRat
  le_high : x.toRat ≤ high

theorem toRat_signedZero (negative : Bool) : (zero negative).toRat = 0 := by
  cases negative <;> simp [zero, toRat, scaled_eq]

theorem between_zero {low high : Rat} (negative : Bool) (hlow : low ≤ 0) (hhigh : 0 ≤ high) :
    (zero negative).Between low high := by
  refine ⟨rfl, ?_, ?_⟩
  · rwa [toRat_signedZero]
  · rwa [toRat_signedZero]

theorem Exact.exists_scaled {r : Rat} (h : Exact r) :
    ∃ mantissa exponent, Canonical mantissa exponent ∧ scaled mantissa exponent = |r| := by
  obtain ⟨x, hx, rfl⟩ := h
  cases x with
  | nan => cases hx
  | infinite negative => cases hx
  | finite negative mantissa exponent hcanonical =>
    refine ⟨mantissa, exponent, hcanonical, ?_⟩
    have hsize := abs_of_nonneg (scaled_nonneg mantissa exponent)
    cases negative with
    | false => exact hsize.symm
    | true => exact (hsize.symm.trans (abs_neg _).symm)

theorem Exact.neg {r : Rat} (h : Exact r) : Exact (-r) := by
  obtain ⟨x, hx, rfl⟩ := h
  cases x with
  | nan => cases hx
  | infinite negative => cases hx
  | finite negative mantissa exponent hcanonical =>
    refine ⟨finite (!negative) mantissa exponent hcanonical, rfl, ?_⟩
    cases negative <;> simp [toRat]

variable {r low high : Rat}

section Nearest

variable {num den : Nat}

/-- The magnitude of a quotient is rounded on its own. -/
theorem nearest_spec (hden : den ≠ 0) (hnum : (num : Rat) = |r| * den) {mantissa : Nat} {k : Int}
    (hcanonical : Canonical mantissa k) (h : |r| ≤ scaled mantissa k) :
    ∃ m e hc, nearest (decide (r < 0)) num den = finite (decide (r < 0)) m e hc ∧
      scaled m e ≤ scaled mantissa k ∧
      ∀ lower j, Canonical lower j → scaled lower j ≤ |r| → scaled lower j ≤ scaled m e := by
  have hbound : (num : Rat) ≤ scaled mantissa k * den := by
    rw [hnum]
    gcongr
  obtain ⟨m, e, hc, heq, hle, hlower⟩ :=
    ofQuotient_spec (decide (r < 0)) isRounding_halfEven hden hcanonical hbound
  refine ⟨m, e, hc, heq, hle, ?_⟩
  intro lower j hj hlow
  apply hlower lower j hj
  rw [hnum]
  gcongr

/-- A quotient between two numbers of the format is rounded to a number between them. -/
theorem between_nearest (hden : den ≠ 0) (hnum : (num : Rat) = |r| * den) (hlow : Exact low)
    (hhigh : Exact high) (hlowLe : low ≤ r) (hleHigh : r ≤ high) :
    (nearest (decide (r < 0)) num den).Between low high := by
  obtain ⟨lowest, j, hlowest, hlowAbs⟩ := hlow.exists_scaled
  obtain ⟨highest, k, hhighest, hhighAbs⟩ := hhigh.exists_scaled
  rcases lt_or_ge r 0 with hneg | hpos
  · have habs : |r| = -r := abs_of_neg hneg
    have hlowNeg : |low| = -low := abs_of_neg (by linarith)
    obtain ⟨m, e, hc, heq, hle, hlower⟩ :=
      nearest_spec hden hnum hlowest (by rw [hlowAbs, habs, hlowNeg]; linarith)
    rw [heq, decide_eq_true hneg]
    rw [hlowAbs, hlowNeg] at hle
    refine ⟨rfl, by rw [toRat, if_pos rfl]; linarith, ?_⟩
    rw [toRat, if_pos rfl]
    rcases le_or_gt 0 high with hhighPos | hhighNeg
    · have hscaled := scaled_nonneg m e
      linarith
    · rw [abs_of_neg hhighNeg] at hhighAbs
      have hreached := hlower highest k hhighest (by rw [hhighAbs, habs]; linarith)
      linarith
  · have habs : |r| = r := abs_of_nonneg hpos
    have hhighPos : |high| = high := abs_of_nonneg (by linarith)
    obtain ⟨m, e, hc, heq, hle, hlower⟩ :=
      nearest_spec hden hnum hhighest (by rw [hhighAbs, habs, hhighPos]; exact hleHigh)
    rw [heq, decide_eq_false hpos.not_gt]
    rw [hhighAbs, hhighPos] at hle
    refine ⟨rfl, ?_, hle⟩
    change low ≤ scaled m e
    rcases le_or_gt low 0 with hlowNeg | hlowPos
    · exact hlowNeg.trans (scaled_nonneg m e)
    · rw [abs_of_pos hlowPos] at hlowAbs
      have hreached := hlower lowest j hlowest (by rw [hlowAbs, habs]; exact hlowLe)
      linarith

end Nearest

/-- What lies between two numbers of the format is rounded to a number between them. -/
theorem between_ofRat (negativeZero : Bool) (hlow : Exact low) (hhigh : Exact high)
    (hlowLe : low ≤ r) (hleHigh : r ≤ high) : (ofRat negativeZero r).Between low high := by
  unfold ofRat
  split
  · next hzero =>
    subst hzero
    exact between_zero negativeZero hlowLe hleHigh
  · have hnum : ((r.num.natAbs : Nat) : Rat) = |r| * r.den := by
      rw [Nat.cast_natAbs, Int.cast_abs, ← Rat.mul_den_eq_num, abs_mul, Nat.abs_cast]
    exact between_nearest r.den_nz hnum hlow hhigh hlowLe hleHigh

/-- A mantissa that is not full can be doubled as often as the exponent can fall, so a small
enough whole number of units is a number of the format. By induction on the exponent. -/
theorem exact_scaled {mantissa : Nat} {k : Int} (hmantissa : mantissa < 2 ^ (fractionBits + 1))
    (hlow : -1074 ≤ k) (hhigh : k ≤ 971) : Exact (scaled mantissa k) := by
  obtain ⟨j, rfl⟩ : ∃ j : Nat, k = -1074 + j := ⟨(k + 1074).toNat, by omega⟩
  have hexact (m : Nat) (e : Int) (h : Canonical m e) : Exact (scaled m e) :=
    ⟨finite false m e h, rfl, rfl⟩
  induction j generalizing mantissa with
  | zero => exact hexact _ _ ⟨hmantissa, hlow, hhigh, Or.inr rfl⟩
  | succ j ih =>
    rcases Nat.lt_or_ge mantissa (2 ^ fractionBits) with hshort | hfull
    · have hdouble :
          scaled mantissa (-1074 + (j + 1 : Nat)) = scaled (mantissa * 2) (-1074 + j) := by
        rw [show (-1074 + (j + 1 : Nat) : Int) = -1074 + j + (1 : Nat) by omega, scaled_shift,
          scaled_eq, pow_one]
      rw [hdouble]
      exact ih (by rw [pow_succ]; omega) (by omega) (by omega)
    · exact hexact _ _ ⟨hmantissa, hlow, hhigh, Or.inl hfull⟩

/-- A whole number of units, if it has no more bits than a mantissa, is a number of the format. -/
theorem exact_units {n k : Int} (hn : n.natAbs < 2 ^ (fractionBits + 1)) (hlow : -1074 ≤ k)
    (hhigh : k ≤ 971) : Exact (n * (2 : Rat) ^ k) := by
  have hexact := exact_scaled hn hlow hhigh
  rw [scaled_eq] at hexact
  obtain ⟨m, rfl | rfl⟩ := Int.eq_nat_or_neg n
  · rwa [Int.natAbs_natCast, ← Int.cast_natCast] at hexact
  · rw [Int.natAbs_neg, Int.natAbs_natCast, ← Int.cast_natCast] at hexact
    rw [Int.cast_neg, neg_mul]
    exact hexact.neg

/-- A whole number of up to 53 bits, or the next one. -/
theorem exact_intCast {n : Int} (h : n.natAbs ≤ 2 ^ (fractionBits + 1)) : Exact n := by
  rcases Nat.lt_or_eq_of_le h with hlt | heq
  · simpa using exact_units (k := 0) hlt (by decide) (by decide)
  · have hhalf : 2 ^ (fractionBits + 1) = 2 * 2 ^ fractionBits := by decide
    obtain ⟨half, rfl⟩ : ∃ half : Int, n = half * 2 := ⟨n / 2, by omega⟩
    have hpositive := Nat.two_pow_pos fractionBits
    have hexact := exact_units (n := half) (k := 1) (by omega) (by decide) (by decide)
    simpa using hexact

theorem exact_zero : Exact 0 := ⟨0, isFinite_zero, toRat_zero⟩

theorem isFinite_one : (1 : Binary64).isFinite = true := by decide +kernel

theorem toRat_one : (1 : Binary64).toRat = 1 := by decide +kernel

theorem exact_one : Exact 1 := ⟨1, isFinite_one, toRat_one⟩

theorem between_one : (1 : Binary64).Between 0 1 :=
  ⟨isFinite_one, toRat_one.ge.trans' zero_le_one, toRat_one.le⟩

variable {x y : Binary64}

theorem exact_toRat (h : x.isFinite = true) : Exact x.toRat := ⟨x, h, rfl⟩

theorem Between.mono {low' high' : Rat} (h : x.Between low high) (hlow : low' ≤ low)
    (hhigh : high ≤ high') : x.Between low' high' :=
  ⟨h.isFinite, hlow.trans h.low_le, h.le_high.trans hhigh⟩

theorem toRat_neg (x : Binary64) : x.neg.toRat = -x.toRat := by
  cases x with
  | nan => rfl
  | infinite negative => rfl
  | finite negative mantissa exponent hcanonical => cases negative <;> simp [neg, toRat]

/-- The sum of finite numbers is the exact one, rounded. -/
theorem exists_add_eq (hx : x.isFinite = true) (hy : y.isFinite = true) :
    ∃ negativeZero, x + y = ofRat negativeZero (x.toRat + y.toRat) := by
  cases x with
  | nan => cases hx
  | infinite negative => cases hx
  | finite negative mantissa exponent hcanonical =>
    cases y with
    | nan => cases hy
    | infinite negative' => cases hy
    | finite negative' mantissa' exponent' hcanonical' => exact ⟨_, rfl⟩

theorem exists_sub_eq (hx : x.isFinite = true) (hy : y.isFinite = true) :
    ∃ negativeZero, x - y = ofRat negativeZero (x.toRat - y.toRat) := by
  rw [sub_eq_add_neg, ← toRat_neg]
  exact exists_add_eq hx (isFinite_neg hy)

theorem exists_mul_eq (hx : x.isFinite = true) (hy : y.isFinite = true) :
    ∃ negativeZero, x * y = ofRat negativeZero (x.toRat * y.toRat) := by
  cases x with
  | nan => cases hx
  | infinite negative => cases hx
  | finite negative mantissa exponent hcanonical =>
    cases y with
    | nan => cases hy
    | infinite negative' => cases hy
    | finite negative' mantissa' exponent' hcanonical' => exact ⟨_, rfl⟩

theorem exists_div_eq (hx : x.isFinite = true) (hy : y.isFinite = true)
    (hzero : y.isZero = false) :
    ∃ negativeZero, x / y = ofRat negativeZero (x.toRat / y.toRat) := by
  cases x with
  | nan => cases hx
  | infinite negative => cases hx
  | finite negative mantissa exponent hcanonical =>
    cases y with
    | nan => cases hy
    | infinite negative' => cases hy
    | finite negative' mantissa' exponent' hcanonical' =>
      refine ⟨negative != negative', ?_⟩
      change div _ _ = _
      unfold div
      rw [hzero]
      simp [isNan, isInfinite, isNegative]

theorem between_add (hx : x.isFinite = true) (hy : y.isFinite = true) (hlow : Exact low)
    (hhigh : Exact high) (hlowLe : low ≤ x.toRat + y.toRat) (hleHigh : x.toRat + y.toRat ≤ high) :
    (x + y).Between low high := by
  obtain ⟨negativeZero, heq⟩ := exists_add_eq hx hy
  rw [heq]
  exact between_ofRat negativeZero hlow hhigh hlowLe hleHigh

theorem between_sub (hx : x.isFinite = true) (hy : y.isFinite = true) (hlow : Exact low)
    (hhigh : Exact high) (hlowLe : low ≤ x.toRat - y.toRat) (hleHigh : x.toRat - y.toRat ≤ high) :
    (x - y).Between low high := by
  obtain ⟨negativeZero, heq⟩ := exists_sub_eq hx hy
  rw [heq]
  exact between_ofRat negativeZero hlow hhigh hlowLe hleHigh

theorem between_mul (hx : x.isFinite = true) (hy : y.isFinite = true) (hlow : Exact low)
    (hhigh : Exact high) (hlowLe : low ≤ x.toRat * y.toRat) (hleHigh : x.toRat * y.toRat ≤ high) :
    (x * y).Between low high := by
  obtain ⟨negativeZero, heq⟩ := exists_mul_eq hx hy
  rw [heq]
  exact between_ofRat negativeZero hlow hhigh hlowLe hleHigh

theorem between_div (hx : x.isFinite = true) (hy : y.isFinite = true) (hzero : y.isZero = false)
    (hlow : Exact low) (hhigh : Exact high) (hlowLe : low ≤ x.toRat / y.toRat)
    (hleHigh : x.toRat / y.toRat ≤ high) : (x / y).Between low high := by
  obtain ⟨negativeZero, heq⟩ := exists_div_eq hx hy hzero
  rw [heq]
  exact between_ofRat negativeZero hlow hhigh hlowLe hleHigh

/-- The nearest number to a whole one that is not zero is not zero. -/
theorem isZero_of_ofInt? {n : Int} {x : Binary64} (h : ofInt? n = .ok x) (hn : n ≠ 0) :
    x.isZero = false := by
  have hx := (ofInt?_eq_ok_iff.1 h).1
  have hfinite := (isInteger_of_ofInt? h).1.isFinite
  rcases ofQuotient_cases (decide (n < 0)) n.natAbs isRounding_halfEven one_ne_zero with
    ⟨m, e, hc, heq, -, hlower⟩ | ⟨heq, -⟩
  · obtain rfl : x = finite (decide (n < 0)) m e hc := hx.symm.trans heq
    obtain ⟨mantissa, k, hcanonical, hone⟩ := exact_one.exists_scaled
    have hreached := hlower mantissa k hcanonical (by
      rw [hone, abs_one, one_mul, Nat.cast_one]
      exact_mod_cast Int.natAbs_pos.2 hn)
    rw [hone, abs_one] at hreached
    refine beq_eq_false_iff_ne.2 ?_
    rintro rfl
    rw [scaled_eq, Nat.cast_zero, zero_mul] at hreached
    linarith
  · obtain rfl : x = infinite (decide (n < 0)) := hx.symm.trans heq
    cases hfinite

end Binary64
end ExperienceCurves
