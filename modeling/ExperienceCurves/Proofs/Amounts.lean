import ExperienceCurves.Proofs.RealNumbers
import ExperienceCurves.Datum.Arithmetic
import Mathlib.Algebra.Order.Ring.Unbundled.Rat

/-!
Amounts: numbers from zero on that have a binary number. Infinity counts among them. What edits do
to amounts gives amounts.
-/
namespace ExperienceCurves

namespace Binary64

theorem scaled_nonneg (mantissa : Nat) (exponent : Int) : 0 ≤ scaled mantissa exponent := by
  unfold scaled
  split
  · exact Rat.natCast_nonneg
  · exact Rat.mkRat_nonneg (Int.natCast_nonneg mantissa) _

theorem toRat_zero : (0 : Binary64).toRat = 0 := by decide +kernel

theorem isFinite_zero : (0 : Binary64).isFinite = true := rfl

theorem lt_of_isFinite {x y : Binary64} (hx : x.isFinite = true) (hy : y.isFinite = true) :
    x.lt y = decide (x.toRat < y.toRat) := by
  cases x with
  | nan => cases hx
  | infinite negative => cases hx
  | finite negative mantissa exponent hcanonical =>
    cases y with
    | nan => cases hy
    | infinite negative => cases hy
    | finite negative' mantissa' exponent' hcanonical' => rfl

theorem lt_zero_of_isFinite {x : Binary64} (hx : x.isFinite = true) :
    x.lt 0 = decide (x.toRat < 0) := by
  rw [lt_of_isFinite hx isFinite_zero, toRat_zero]

theorem zero_lt_of_isFinite {x : Binary64} (hx : x.isFinite = true) :
    (0 : Binary64).lt x = decide (0 < x.toRat) := by
  rw [lt_of_isFinite isFinite_zero hx, toRat_zero]

theorem lt_zero_infinite (negative : Bool) : (infinite negative).lt 0 = negative := by
  cases negative <;> rfl

theorem zero_lt_infinite (negative : Bool) : (0 : Binary64).lt (infinite negative) = !negative := by
  cases negative <;> rfl

/-- Without a sign nothing is below zero. -/
theorem not_lt_zero_of_isNegative {x : Binary64} (h : x.isNegative = false) :
    x.lt 0 = false := by
  cases x with
  | nan => rfl
  | infinite negative => exact (lt_zero_infinite negative).trans h
  | finite negative mantissa exponent hcanonical =>
    obtain rfl : negative = false := h
    rw [lt_zero_of_isFinite rfl, decide_eq_false_iff_not, Rat.not_lt]
    exact scaled_nonneg mantissa exponent

/-- A zero is not below zero, whatever its sign. -/
theorem not_lt_zero_zero (negative : Bool) : (zero negative).lt 0 = false := by
  cases negative <;> decide +kernel

theorem not_lt_zero_ofRat {negativeZero : Bool} {r : Rat} (h : 0 ≤ r) :
    (ofRat negativeZero r).lt 0 = false := by
  unfold ofRat
  split
  · exact not_lt_zero_zero negativeZero
  · apply not_lt_zero_of_isNegative
    have hsign : decide (r < 0) = false := decide_eq_false (Rat.not_lt.2 h)
    rw [nearest, isNegative_ofQuotient, hsign]

/-- The numbers from zero on are those that are not below it, except for NaN. -/
theorem zero_le_iff {x : Binary64} :
    (0 : Binary64).le x = true ↔ x.isNan = false ∧ x.lt 0 = false := by
  cases x with
  | nan => exact iff_of_false Bool.false_ne_true fun h => Bool.false_ne_true h.1.symm
  | infinite negative => cases negative <;> decide
  | finite negative mantissa exponent hcanonical =>
    have heq : (0 : Binary64).eq (finite negative mantissa exponent hcanonical) =
        decide (0 = (finite negative mantissa exponent hcanonical).toRat) := by
      rw [← toRat_zero]
      exact beq_eq_decide _ _
    rw [le, zero_lt_of_isFinite rfl, heq, lt_zero_of_isFinite rfl, Bool.or_eq_true,
      decide_eq_true_eq, decide_eq_true_eq, decide_eq_false_iff_not, Rat.not_lt, ← le_iff_lt_or_eq]
    exact (and_iff_right rfl).symm

theorem zero_le_of_isNegative {x : Binary64} (hnan : x.isNan = false) (h : x.isNegative = false) :
    (0 : Binary64).le x = true :=
  zero_le_iff.2 ⟨hnan, not_lt_zero_of_isNegative h⟩

theorem zero_le_zero (negative : Bool) : (0 : Binary64).le (zero negative) = true :=
  zero_le_iff.2 ⟨rfl, not_lt_zero_zero negative⟩

/-- The product with a positive finite factor is from zero on if the other factor is. -/
theorem zero_le_mul {x y : Binary64} (hx : (0 : Binary64).le x = true) (hy : y.isFinite = true)
    (hsign : y.isNegative = false) (hzero : y.isZero = false) :
    (0 : Binary64).le (x * y) = true := by
  cases y with
  | nan => cases hy
  | infinite negative => cases hy
  | finite negative mantissa exponent hcanonical =>
    obtain rfl : negative = false := hsign
    obtain ⟨hnan, hlow⟩ := zero_le_iff.1 hx
    cases x with
    | nan => cases hnan
    | infinite negative =>
      obtain rfl : negative = false := (lt_zero_infinite negative).symm.trans hlow
      -- infinity times zero would be NaN
      change (0 : Binary64).le (if (false || mantissa == 0) = true then nan
        else infinite (false != false)) = true
      rw [Bool.false_or, if_neg (Bool.not_eq_true _ ▸ hzero)]
      rfl
    | finite negative' mantissa' exponent' hcanonical' =>
      rw [lt_zero_of_isFinite rfl, decide_eq_false_iff_not, Rat.not_lt] at hlow
      exact zero_le_iff.2 ⟨isNan_mul rfl rfl,
        not_lt_zero_ofRat (Rat.mul_nonneg hlow (scaled_nonneg mantissa exponent))⟩

end Binary64

open Binary64

namespace Number

/-- A number with a binary number from zero on, to which it is equal if that is finite. -/
def IsAmount (n : Number) : Prop :=
  ∃ x, n.toBinary64 = .ok x ∧ (0 : Binary64).le x = true ∧
    (x.isFinite = true → n.eq (.real x) = true)

theorem eq_real_self {x : Binary64} (h : x.isFinite = true) :
    (Number.real x).eq (.real x) = true := by
  cases x with
  | nan => cases h
  | infinite negative => cases h
  | finite negative mantissa exponent hcanonical =>
    exact beq_self_eq_true (finite negative mantissa exponent hcanonical).toRat

theorem isAmount_real {x : Binary64} (h : (0 : Binary64).le x = true) :
    (Number.real x).IsAmount :=
  ⟨x, rfl, h, eq_real_self⟩

theorem isAmount_int {n : Int} (hlow : 0 ≤ n) (hhigh : n.natAbs ≤ greatest)
    (hexact : (Number.int n).eq (.real (ofInt n)) = true) : (Number.int n).IsAmount := by
  obtain ⟨hinteger, hsign⟩ := ofInt_isInteger hhigh
  have hlowest : (0 : Binary64).le (ofInt n) = true :=
    zero_le_of_isNegative (isNan_of_isFinite hinteger.isFinite)
      (hsign.trans (decide_eq_false (by omega)))
  exact ⟨ofInt n, ofInt?_eq_ok hhigh, hlowest, fun _ => hexact⟩

/-- Cut off below zero, every binary number is an amount, since NaN is cut off as well. -/
theorem isAmount_max (x : Binary64) : ((Number.real 0).max (.real x)).IsAmount := by
  unfold Number.max
  by_cases h : (Number.real 0).lt (.real x) = true
  · rw [if_pos h]
    exact isAmount_real (Bool.or_eq_true_iff.2 (Or.inl h))
  · rw [if_neg h]
    exact isAmount_real (zero_le_zero false)

theorem IsAmount.mul {n : Number} {y : Binary64} (h : n.IsAmount) (hy : y.isFinite = true)
    (hsign : y.isNegative = false) (hzero : y.isZero = false) :
    ∃ product, n.mul (.real y) = .ok product ∧ product.IsAmount := by
  obtain ⟨x, hx, hlow, -⟩ := h
  exact ⟨.real (x * y), mul_real hx y, isAmount_real (zero_le_mul hlow hy hsign hzero)⟩

/-- The number as a binary number, if it has one. -/
def inBinary (n : Number) : Number :=
  match n.toBinary64 with
  | .ok x => .real x
  | .error _ => n

theorem inBinary_eq {n : Number} {x : Binary64} (h : n.toBinary64 = .ok x) :
    n.inBinary = .real x := by
  rw [inBinary, h]

theorem IsAmount.inBinary {n : Number} (h : n.IsAmount) : n.inBinary.IsAmount := by
  obtain ⟨x, hx, hlow, -⟩ := h
  rw [inBinary_eq hx]
  exact isAmount_real hlow

theorem IsAmount.inBinary_inBinary {n : Number} (h : n.IsAmount) :
    n.inBinary.inBinary = n.inBinary := by
  obtain ⟨x, hx, -⟩ := h
  rw [inBinary_eq hx]
  rfl

/-- A number has a finite binary number just if it is shown as it is. -/
theorem isFinite_inBinary {n : Number} {x : Binary64} (h : n.toBinary64 = .ok x) :
    (Datum.number n).isFinite = x.isFinite := by
  cases n with
  | truth b => exact (isInteger_of_ofInt? (n := if b then 1 else 0) h).1.isFinite.symm
  | int m => exact (isInteger_of_ofInt? h).1.isFinite.symm
  | real y =>
    obtain rfl := Except.ok.inj h
    rfl

theorem IsAmount.eq_inBinary {n : Number} (h : n.IsAmount)
    (hfinite : (Datum.number n).isFinite = true) : n.eq n.inBinary = true := by
  obtain ⟨x, hx, -, hexact⟩ := h
  rw [inBinary_eq hx]
  exact hexact ((isFinite_inBinary hx).symm.trans hfinite)

end Number

end ExperienceCurves
