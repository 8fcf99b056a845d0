import ExperienceCurves.Proofs.NearestRounding
import ExperienceCurves.Proofs.PowerErrors

/-!
Errors that add up over a computation without negative terms. An error is measured against a budget,
which is not below the exact number and never so small that the least unit matters. Then products
multiply the budgets, sums add them, and all that is left to count is how often a result is rounded.
-/
namespace ExperienceCurves

-- Powers of whole numbers are those of the core library, whatever else is imported.
attribute [local instance (high)] instPowNat

namespace Binary64

/-- The part of a budget that one rounding may take: half of a unit in the last place, and room for
the least unit and the cuts of a power. -/
def roundoff : Rat := (2 : Rat) ^ (-53 : Int) + 2 ^ (-70 : Int)

theorem roundoff_nonneg : 0 ≤ roundoff := by
  unfold roundoff
  positivity

/-- What so many roundings make of a budget at most. -/
def swell (count : Nat) : Rat := (1 + roundoff) ^ count

theorem one_le_swell (count : Nat) : 1 ≤ swell count :=
  one_le_pow₀ (le_add_of_nonneg_right roundoff_nonneg)

theorem swell_add (k l : Nat) : swell (k + l) = swell k * swell l := pow_add _ _ _

theorem swell_mono {k l : Nat} (h : k ≤ l) : swell k ≤ swell l :=
  pow_le_pow_right₀ (le_add_of_nonneg_right roundoff_nonneg) h

theorem swell_le_two_pow (count : Nat) : swell count ≤ 2 ^ count := by
  have hroundoff : 1 + roundoff ≤ 2 := by
    unfold roundoff
    norm_num
  exact pow_le_pow_left₀ (by linarith [roundoff_nonneg]) hroundoff count

/-- A number that estimates an exact one after so many roundings. The budget is within so many
powers of two of one. -/
structure Estimates (size count : Nat) (budget exact value : Rat) : Prop where
  value_nonneg : 0 ≤ value
  exact_nonneg : 0 ≤ exact
  exact_le : exact ≤ budget
  least_le : (2 : Rat) ^ (-size : Int) ≤ budget
  le_most : budget ≤ 2 ^ size
  error_le : |value - exact| ≤ (swell count - 1) * budget

namespace Estimates

variable {n m k l : Nat} {b c r s q v : Rat}

theorem budget_nonneg (h : Estimates n k b r q) : 0 ≤ b := h.exact_nonneg.trans h.exact_le

theorem value_le (h : Estimates n k b r q) : q ≤ swell k * b := by
  have herror := (abs_le.1 h.error_le).2
  have hexact := h.exact_le
  linarith

theorem refl (hr : 0 ≤ r) (hle : r ≤ b) (hleast : (2 : Rat) ^ (-n : Int) ≤ b) (hmost : b ≤ 2 ^ n) :
    Estimates n 0 b r r :=
  ⟨hr, hr, hle, hleast, hmost, by simp [swell]⟩

theorem mul (h : Estimates n k b r q) (h' : Estimates m l c s v) :
    Estimates (n + m) (k + l) (b * c) (r * s) (q * v) := by
  have hbudget := h.budget_nonneg
  have hbudget' := h'.budget_nonneg
  have hswell := one_le_swell k
  refine ⟨mul_nonneg h.value_nonneg h'.value_nonneg, mul_nonneg h.exact_nonneg h'.exact_nonneg,
    mul_le_mul h.exact_le h'.exact_le h'.exact_nonneg hbudget, ?_, ?_, ?_⟩
  · rw [Nat.cast_add, neg_add, zpow_add₀ two_ne_zero]
    exact mul_le_mul h.least_le h'.least_le (by positivity) hbudget
  · rw [pow_add]
    exact mul_le_mul h.le_most h'.le_most hbudget' (by positivity)
  · have hleft : |q * (v - s)| ≤ swell k * b * ((swell l - 1) * c) := by
      rw [abs_mul, abs_of_nonneg h.value_nonneg]
      exact mul_le_mul h.value_le h'.error_le (abs_nonneg _) (by positivity)
    have hright : |s * (q - r)| ≤ c * ((swell k - 1) * b) := by
      rw [abs_mul, abs_of_nonneg h'.exact_nonneg]
      exact mul_le_mul h'.exact_le h.error_le (abs_nonneg _) hbudget'
    calc |q * v - r * s| = |q * (v - s) + s * (q - r)| := by ring_nf
      _ ≤ swell k * b * ((swell l - 1) * c) + c * ((swell k - 1) * b) :=
        (abs_add_le _ _).trans (add_le_add hleft hright)
      _ = (swell (k + l) - 1) * (b * c) := by
        rw [swell_add]
        ring

theorem pow (h : Estimates n k b r q) (j : Nat) :
    Estimates (n * j) (k * j) (b ^ j) (r ^ j) (q ^ j) := by
  induction j with
  | zero => simpa using refl (n := 0) (b := 1) (r := 1) zero_le_one le_rfl (by simp) (by simp)
  | succ j ih =>
    rw [pow_succ, pow_succ, pow_succ]
    exact ih.mul h

theorem add (h : Estimates n k b r q) (h' : Estimates m l c s v) :
    Estimates (max n m + 1) (max k l) (b + c) (r + s) (q + v) := by
  have hbudget := h.budget_nonneg
  have hbudget' := h'.budget_nonneg
  refine ⟨add_nonneg h.value_nonneg h'.value_nonneg, add_nonneg h.exact_nonneg h'.exact_nonneg,
    add_le_add h.exact_le h'.exact_le, ?_, ?_, ?_⟩
  · have hleast : (2 : Rat) ^ (-((max n m + 1 : Nat) : Int)) ≤ (2 : Rat) ^ (-n : Int) :=
      zpow_le_zpow_right₀ one_le_two (by omega)
    linarith [h.least_le]
  · have hmost : (2 : Rat) ^ n ≤ 2 ^ max n m := pow_le_pow_right₀ one_le_two (le_max_left n m)
    have hmost' : (2 : Rat) ^ m ≤ 2 ^ max n m := pow_le_pow_right₀ one_le_two (le_max_right n m)
    rw [pow_succ]
    linarith [h.le_most, h'.le_most]
  · have hleft : (swell k - 1) * b ≤ (swell (max k l) - 1) * b := by
      gcongr
      exact swell_mono (le_max_left k l)
    have hright : (swell l - 1) * c ≤ (swell (max k l) - 1) * c := by
      gcongr
      exact swell_mono (le_max_right k l)
    calc |q + v - (r + s)| = |q - r + (v - s)| := by ring_nf
      _ ≤ |q - r| + |v - s| := abs_add_le _ _
      _ ≤ (swell (max k l) - 1) * (b + c) := by linarith [h.error_le, h'.error_le]

/-- An estimate that is moved by a part of itself, or by a few of the least units, which are no more
than a tiny part of the budget. -/
theorem moved (h : Estimates n k b r q) (hn : n ≤ 1000) (hv : 0 ≤ v) (part : Rat) {steps : Nat}
    (hpart : part + (2 : Rat) ^ (-73 : Int) ≤ steps * roundoff)
    (herror : |v - q| ≤ q * part + 2 ^ (-1073 : Int)) (hnonneg : 0 ≤ part) :
    Estimates n (k + steps) b r v := by
  refine ⟨hv, h.exact_nonneg, h.exact_le, h.least_le, h.le_most, ?_⟩
  have hbudget := h.budget_nonneg
  have hswell := one_le_swell k
  have hunits : (2 : Rat) ^ (-1073 : Int) ≤ swell k * b * (2 : Rat) ^ (-73 : Int) := by
    have hsplit : (2 : Rat) ^ (-1073 : Int) =
        (2 : Rat) ^ (-1000 : Int) * (2 : Rat) ^ (-73 : Int) := by
      rw [← zpow_add₀ two_ne_zero]
      rfl
    have hleast : (2 : Rat) ^ (-1000 : Int) ≤ (2 : Rat) ^ (-n : Int) :=
      zpow_le_zpow_right₀ one_le_two (by omega)
    rw [hsplit]
    gcongr
    exact (hleast.trans h.least_le).trans (le_mul_of_one_le_left hbudget hswell)
  -- What the steps add up to is less than what they make when each swells the result of the last.
  have hbernoulli : 1 + steps * roundoff ≤ swell steps :=
    one_add_mul_le_pow (by linarith [roundoff_nonneg]) steps
  calc |v - r| ≤ |v - q| + |q - r| := abs_sub_le v q r
    _ ≤ swell k * b * part + swell k * b * (2 : Rat) ^ (-73 : Int) + (swell k - 1) * b := by
      have hmoved : q * part ≤ swell k * b * part :=
        mul_le_mul_of_nonneg_right h.value_le hnonneg
      linarith [h.error_le]
    _ = swell k * b * (1 + (part + (2 : Rat) ^ (-73 : Int))) - b := by ring
    _ ≤ swell k * b * swell steps - b := by
      gcongr
      linarith
    _ = (swell (k + steps) - 1) * b := by
      rw [swell_add]
      ring

/-- Rounding an estimate. -/
theorem ofRat (h : Estimates n k b r q) (hroom : n + k ≤ 1000) (negativeZero : Bool) :
    (ofRat negativeZero q).isFinite = true ∧
      Estimates n (k + 1) b r (ofRat negativeZero q).toRat := by
  have hbudget := h.budget_nonneg
  have hgreatest : (2 : Rat) ^ 1000 ≤ greatest := by exact_mod_cast (by decide +kernel)
  have hhigh : q ≤ greatest := by
    calc q ≤ swell k * b := h.value_le
      _ ≤ 2 ^ k * 2 ^ n := mul_le_mul (swell_le_two_pow k) h.le_most hbudget (by positivity)
      _ = 2 ^ (k + n) := (pow_add _ _ _).symm
      _ ≤ 2 ^ 1000 := pow_le_pow_right₀ one_le_two (by omega)
      _ ≤ greatest := hgreatest
  have hbetween := between_ofRat negativeZero exact_zero exact_greatest h.value_nonneg hhigh
  refine ⟨hbetween.isFinite, ?_⟩
  apply h.moved (by omega) hbetween.low_le ((2 : Rat) ^ (-53 : Int))
  · unfold roundoff
    norm_num
  · have herror := ofRat_error h.value_nonneg hbetween.isFinite
    have hunits : (2 : Rat) ^ (-1075 : Int) ≤ 2 ^ (-1073 : Int) :=
      zpow_le_zpow_right₀ one_le_two (by decide)
    linarith
  · positivity

end Estimates

/-- A finite number that estimates an exact one. -/
structure Near (size count : Nat) (budget exact : Rat) (x : Binary64) : Prop where
  isFinite : x.isFinite = true
  estimates : Estimates size count budget exact x.toRat

namespace Near

variable {n m k l : Nat} {b c r s : Rat} {x y t : Binary64}

theorem refl (hx : x.isFinite = true) (hnonneg : 0 ≤ x.toRat) (hle : x.toRat ≤ b)
    (hleast : (2 : Rat) ^ (-n : Int) ≤ b) (hmost : b ≤ 2 ^ n) : Near n 0 b x.toRat x :=
  ⟨hx, .refl hnonneg hle hleast hmost⟩

/-- Each operation rounds once. -/
theorem add (hx : Near n k b r x) (hy : Near m l c s y)
    (hroom : max n m + 1 + max k l ≤ 1000) :
    Near (max n m + 1) (max k l + 1) (b + c) (r + s) (x + y) := by
  obtain ⟨negativeZero, heq⟩ := exists_add_eq hx.isFinite hy.isFinite
  obtain ⟨hfinite, hestimates⟩ := (hx.estimates.add hy.estimates).ofRat hroom negativeZero
  rw [heq]
  exact ⟨hfinite, hestimates⟩

theorem mul (hx : Near n k b r x) (hy : Near m l c s y) (hroom : n + m + (k + l) ≤ 1000) :
    Near (n + m) (k + l + 1) (b * c) (r * s) (x * y) := by
  obtain ⟨negativeZero, heq⟩ := exists_mul_eq hx.isFinite hy.isFinite
  obtain ⟨hfinite, hestimates⟩ := (hx.estimates.mul hy.estimates).ofRat hroom negativeZero
  rw [heq]
  exact ⟨hfinite, hestimates⟩

/-- A power counts as two roundings, whatever the exponent. -/
theorem pow (hx : Near n k b r x) (hunit : x.Between 0 1) {j : Nat} (hpos : 1 ≤ j)
    (hsmall : j ≤ 2 ^ (50 : Nat)) (hroom : n * j ≤ 1000) :
    Near (n * j) (k * j + 2) (b ^ j) (r ^ j) (x.pow (ofInt j)) := by
  have hrange : (j : Int).natAbs ≤ greatest := by
    have hgreatest : 2 ^ (50 : Nat) ≤ greatest := by decide +kernel
    omega
  obtain ⟨hinteger, hsign⟩ := ofInt_isInteger hrange
  rw [decide_eq_false (by omega)] at hsign
  have hzero := ofInt_isZero hrange (by omega)
  have hpower := between_pow hunit hinteger hsign hzero
  have hvalue : (j : Rat) = (ofInt j).toRat := by
    have hbits : (j : Int).natAbs ≤ 2 ^ (fractionBits + 1) :=
      hsmall.trans (Nat.pow_le_pow_right two_pos (by decide))
    rw [(ofInt_exact hbits).2.2, Int.cast_natCast]
  have herror := pow_error hunit hinteger hsign hzero hvalue
  have hunits : (2 : Rat) ^ (-1074 : Int) ≤ 2 ^ (-1073 : Int) :=
    zpow_le_zpow_right₀ one_le_two (by decide)
  refine ⟨hpower.isFinite, ?_⟩
  apply (hx.estimates.pow j).moved hroom hpower.low_le
    ((2 : Rat) ^ (-52 : Int) + 3 * j * (2 : Rat) ^ (-127 : Int))
  · have hcuts : 3 * (j : Rat) * (2 : Rat) ^ (-127 : Int) ≤
        3 * 2 ^ (50 : Nat) * 2 ^ (-127 : Int) := by
      gcongr
      exact_mod_cast hsmall
    have hroundoff : (2 : Rat) ^ (-52 : Int) + 3 * 2 ^ (50 : Nat) * 2 ^ (-127 : Int) +
        2 ^ (-73 : Int) ≤ (2 : Nat) * roundoff := by
      unfold roundoff
      norm_num
    linarith
  · linarith
  · positivity

/-- What a number from zero to one leaves of one. -/
theorem complement (ht : t.Between 0 1) :
    Near 200 1 (1 - t.toRat + 2 ^ (-200 : Int)) (1 - t.toRat) (ofInt 1 - t) := by
  have hlow := ht.low_le
  have hhigh := ht.le_high
  have hone : (ofInt 1).toRat = 1 := toRat_one
  have htiny : (2 : Rat) ^ (-200 : Int) ≤ 1 := zpow_le_one_of_nonpos₀ one_le_two (by decide)
  have htinyPos : (0 : Rat) < (2 : Rat) ^ (-200 : Int) := by positivity
  have hmost : (2 : Rat) ≤ 2 ^ 200 := by norm_num
  obtain ⟨negativeZero, heq⟩ := exists_sub_eq (x := ofInt 1) isFinite_one ht.isFinite
  rw [hone] at heq
  have hexact : Estimates 200 0 (1 - t.toRat + 2 ^ (-200 : Int)) (1 - t.toRat) (1 - t.toRat) :=
    .refl (by linarith) (by linarith) (by push_cast; linarith) (by linarith)
  obtain ⟨hfinite, hestimates⟩ := hexact.ofRat (by decide) negativeZero
  rw [heq]
  exact ⟨hfinite, hestimates⟩

end Near

end Binary64

end ExperienceCurves
