import ExperienceCurves.Proofs.NearestLevels
import ExperienceCurves.Proofs.RoundedPowers

/-!
Numbers plus a half. From `2 ^ 52` on all binary numbers are whole, so that a whole number plus a
half is rounded to an even neighbour: to the number itself if it is even, and to the next one if it
is odd. With the greatest number below a half these are the only ones for which adding a half and
cutting off does not give the nearest whole number.
-/
namespace ExperienceCurves

-- Powers of whole numbers are those of the core library, whatever else is imported.
attribute [local instance (high)] instPowNat

namespace Rounding

/-- Just above a multiple of an even number the nearest whole number is the quotient, unless the
rest is the half of two, which goes to an even number. -/
theorem halfEven_above (b : Nat) {d : Nat} (hd : 0 < d) :
    halfEven (b * (2 * d) + 1) (2 * d) = if d = 1 ∧ b % 2 = 1 then b + 1 else b := by
  obtain ⟨hquotient, hrest⟩ : (b * (2 * d) + 1) / (2 * d) = b ∧ (b * (2 * d) + 1) % (2 * d) = 1 :=
    (Nat.div_mod_unique (by omega)).2 ⟨by ring, by omega⟩
  unfold halfEven
  dsimp only
  rw [hquotient, hrest]
  split
  · rw [if_neg (by omega)]
  · rw [if_pos (by omega)]

theorem halfEven_below {b d : Nat} (hb : 0 < b) (hd : 0 < d) :
    halfEven (b * (2 * d) - 1) (2 * d) = if d = 1 ∧ b % 2 = 1 then b - 1 else b := by
  obtain ⟨c, rfl⟩ : ∃ c, b = c + 1 := ⟨b - 1, by omega⟩
  have hsplit : (c + 1) * (2 * d) = 2 * d * c + 2 * d := by ring
  obtain ⟨hquotient, hrest⟩ : ((c + 1) * (2 * d) - 1) / (2 * d) = c ∧
      ((c + 1) * (2 * d) - 1) % (2 * d) = 2 * d - 1 :=
    (Nat.div_mod_unique (by omega)).2 ⟨by omega, by omega⟩
  unfold halfEven
  dsimp only
  rw [hquotient, hrest]
  split
  · rw [if_pos (by omega)]
    omega
  · rw [if_neg (by omega)]

end Rounding

namespace Binary64

open Rounding

variable {r : Rat} {x : Binary64} {a num j : Nat} {n : Int}

/-- A number of the format is whole or small. -/
theorem Exact.whole_or_small (h : Exact r) : (∃ n : Int, r = n) ∨ |r| < 2 ^ 52 := by
  obtain ⟨x, hx, rfl⟩ := h
  obtain ⟨n, k, hn, -, -, hvalue, -⟩ := exists_units hx
  rw [hvalue]
  rcases le_or_gt 0 k with hwhole | hfraction
  · obtain ⟨i, rfl⟩ := Int.eq_ofNat_of_zero_le hwhole
    left
    exact ⟨n * 2 ^ i, by push_cast; rw [zpow_natCast]⟩
  · right
    have hbits : |(n : Rat)| < 2 ^ 53 := by
      have hcast : ((n.natAbs : Nat) : Rat) < ((2 ^ (fractionBits + 1) : Nat) : Rat) :=
        Nat.cast_lt.2 hn
      rwa [Nat.cast_natAbs, Int.cast_abs, Nat.cast_pow, Nat.cast_ofNat] at hcast
    have hunit : (2 : Rat) ^ k ≤ 2 ^ (-1 : Int) := zpow_le_zpow_right₀ one_le_two (by omega)
    rw [zpow_neg_one] at hunit
    rw [abs_mul, abs_of_pos (show (0 : Rat) < 2 ^ k by positivity)]
    calc |(n : Rat)| * 2 ^ k ≤ |(n : Rat)| * 2⁻¹ := by gcongr
      _ < 2 ^ 52 := by linarith

/-- Whole parts of numbers of the format are numbers of the format. -/
theorem Exact.floor (h : Exact r) : Exact (r.floor : Rat) := by
  rcases h.whole_or_small with ⟨n, rfl⟩ | hsmall
  · rwa [Rat.floor_intCast]
  · obtain ⟨hlow, hhigh⟩ := abs_lt.1 hsmall
    apply exact_intCast
    have hwidth : fractionBits = 52 := rfl
    have habove : -(2 ^ 52 : Int) ≤ r.floor := Rat.le_floor_iff.2 (by push_cast; linarith)
    have hbelow : r.floor < (2 ^ 52 : Int) := Rat.floor_lt_iff.2 (by push_cast; linarith)
    rw [hwidth]
    omega

theorem Exact.ceil (h : Exact r) : Exact (r.ceil : Rat) := by
  rw [Rat.ceil_eq_neg_floor_neg, Int.cast_neg]
  exact h.neg.floor.neg

theorem ofInt_toRat (h : Exact (n : Rat)) : (ofInt n).isFinite = true ∧ (ofInt n).toRat = n := by
  obtain ⟨-, hbetween⟩ := between_ofInt h h le_rfl le_rfl
  exact ⟨hbetween.isFinite, le_antisymm hbetween.le_high hbetween.low_le⟩

/-- At the exponent of a half beyond the fractions, the whole number beside it is a whole number of
units. -/
theorem exists_units_beside (h : Exact (a : Rat)) (hnum : num ≤ 2 * a + 1)
    (hlarge : 2 ^ 53 < num) : ∃ b j : Nat, a = b * 2 ^ j ∧ exponentOf num 2 = j := by
  have hwidth : fractionBits = 52 := rfl
  have hnumPos : num ≠ 0 := by omega
  obtain ⟨mantissa, k, hcanonical, hvalue⟩ := h.exists_scaled
  rw [scaled_eq, Nat.abs_cast] at hvalue
  have hlow : 0 ≤ exponentOf num 2 := by
    have hlt := lt_full_exponentOf hnumPos two_ne_zero
    have hcast : ((2 ^ 53 : Nat) : Rat) < num := Nat.cast_lt.2 hlarge
    rw [hwidth] at hlt
    by_contra hneg
    have hunit : (2 : Rat) ^ exponentOf num 2 ≤ 2 ^ (-1 : Int) :=
      zpow_le_zpow_right₀ one_le_two (by omega)
    rw [zpow_neg_one] at hunit
    push_cast at hlt hcast
    linarith
  have hle : exponentOf num 2 ≤ k := by
    have hfull := (exponentOf_cases hnumPos two_ne_zero).resolve_left (by omega)
    have hbits : (mantissa : Rat) + 1 ≤ 2 ^ 53 := by
      exact_mod_cast Nat.succ_le_of_lt (hwidth ▸ hcanonical.1)
    have hcast : (num : Rat) ≤ 2 * a + 1 := by exact_mod_cast hnum
    by_contra hgt
    have hunit : (2 : Rat) ^ (k + 1) ≤ 2 ^ exponentOf num 2 :=
      zpow_le_zpow_right₀ one_le_two (by omega)
    have hunits : (mantissa : Rat) * (2 ^ k * 2) ≤ mantissa * 2 ^ exponentOf num 2 := by
      rw [← zpow_add_one₀ two_ne_zero]
      gcongr
    have hroom : ((mantissa : Rat) + 1) * 2 ^ exponentOf num 2 ≤ 2 ^ 53 * 2 ^ exponentOf num 2 := by
      gcongr
    rw [hwidth] at hfull
    push_cast at hfull
    rcases hlow.eq_or_lt with hzero | hpos
    · have hcast' : ((2 ^ 53 : Nat) : Rat) < num := Nat.cast_lt.2 hlarge
      rw [← hzero, zpow_zero] at hunits hroom
      push_cast at hcast'
      linarith
    · have htwo : (2 : Rat) ^ (1 : Int) ≤ 2 ^ exponentOf num 2 :=
        zpow_le_zpow_right₀ one_le_two (by omega)
      rw [zpow_one] at htwo
      linarith
  obtain ⟨j, hj⟩ := Int.eq_ofNat_of_zero_le hlow
  obtain ⟨i, hi⟩ := Int.eq_ofNat_of_zero_le (sub_nonneg.2 hle)
  refine ⟨mantissa * 2 ^ i, j, ?_, hj⟩
  have hk : k = ((i + j : Nat) : Int) := by omega
  rw [hk, zpow_natCast, pow_add, ← mul_assoc] at hvalue
  exact_mod_cast hvalue.symm

theorem rounded_half (hexponent : exponentOf num 2 = j) :
    rounded num 2 = (halfEven num (2 * 2 ^ j) * 2 ^ j : Nat) := by
  have hnonneg : (0 : Int) ≤ j := Int.natCast_nonneg j
  rw [rounded, hexponent, mantissaAt, if_pos hnonneg, Int.toNat_natCast, scaled_eq, zpow_natCast]
  push_cast
  rfl

/-- Only at the least of these exponents there are odd numbers. -/
theorem odd_units_iff {b j : Nat} : 2 ^ j = 1 ∧ b % 2 = 1 ↔ b * 2 ^ j % 2 = 1 := by
  cases j with
  | zero => simp
  | succ j =>
    have heven : b * 2 ^ (j + 1) = 2 * (b * 2 ^ j) := by ring
    have hunit : 2 ^ (j + 1) = 2 * 2 ^ j := by ring
    omega

theorem nearestValue_add_half (h : Exact (a : Rat)) (hlarge : 2 ^ 52 ≤ a) :
    nearestValue (a + 1 / 2) = (a + a % 2 : Nat) := by
  obtain ⟨b, j, ha, hexponent⟩ := exists_units_beside h (le_refl _) (by omega)
  have hhalf : (a : Rat) + 1 / 2 = ((2 * a + 1 : Nat) : Rat) / (2 : Nat) := by
    push_cast
    ring
  have hnum : 2 * a + 1 = b * (2 * 2 ^ j) + 1 := by rw [ha]; ring
  rw [hhalf, ← rounded_eq _ two_ne_zero, rounded_half hexponent, hnum,
    halfEven_above b (Nat.two_pow_pos j), Nat.cast_inj]
  by_cases hodd : 2 ^ j = 1 ∧ b % 2 = 1
  · rw [if_pos hodd, ha, odd_units_iff.1 hodd, hodd.1, Nat.mul_one, Nat.mul_one]
  · rw [if_neg hodd, ha]
    have heven := mt odd_units_iff.2 hodd
    omega

theorem nearestValue_sub_half (h : Exact (a : Rat)) (hlarge : 2 ^ 52 < a) :
    nearestValue (a - 1 / 2) = (a - a % 2 : Nat) := by
  have hunits : ∃ b j : Nat, a = b * 2 ^ j ∧ exponentOf (2 * a - 1) 2 = j :=
    exists_units_beside h (by omega) (by omega)
  obtain ⟨b, j, ha, hexponent⟩ := hunits
  have hhalf : (a : Rat) - 1 / 2 = ((2 * a - 1 : Nat) : Rat) / (2 : Nat) := by
    rw [Nat.cast_sub (by omega)]
    push_cast
    ring
  have hnum : 2 * a - 1 = b * (2 * 2 ^ j) - 1 := by rw [ha]; congr 1; ring
  have hb : 0 < b := by
    rcases Nat.eq_zero_or_pos b with rfl | hb
    · omega
    · exact hb
  rw [hhalf, ← rounded_eq _ two_ne_zero, rounded_half hexponent, hnum,
    halfEven_below hb (Nat.two_pow_pos j), Nat.cast_inj]
  by_cases hodd : 2 ^ j = 1 ∧ b % 2 = 1
  · rw [if_pos hodd, ha, odd_units_iff.1 hodd, hodd.1, Nat.mul_one, Nat.mul_one]
  · rw [if_neg hodd, ha]
    have heven := mt odd_units_iff.2 hodd
    omega

theorem Exact.abs_le (h : Exact r) : |r| ≤ (greatest : Rat) := by
  obtain ⟨mantissa, k, hcanonical, hvalue⟩ := h.exists_scaled
  rw [← hvalue]
  exact scaled_le hcanonical

theorem ofRat_add_half (h : Exact (a : Rat)) (hlarge : 2 ^ 52 ≤ a) (negativeZero : Bool) :
    (ofRat negativeZero (a + 1 / 2)).isFinite = true ∧
      (ofRat negativeZero (a + 1 / 2)).toRat = (a + a % 2 : Nat) := by
  have hstands := standsFor_ofRat (r := a + 1 / 2) (by positivity) negativeZero
  rw [nearestValue_add_half h hlarge] at hstands
  have hle : a + a % 2 ≤ greatest := by
    have heven : 2 ∣ greatest := Dvd.dvd.mul_left (dvd_pow_self 2 (by omega)) _
    have hsize := h.abs_le
    rw [Nat.abs_cast, Nat.cast_le] at hsize
    omega
  have hfinite := hstands.isFinite_of_le (Nat.cast_le.2 hle)
  exact ⟨hfinite, hstands.toRat_eq hfinite⟩

theorem ofRat_sub_half (h : Exact (a : Rat)) (hlarge : 2 ^ 52 < a) (negativeZero : Bool) :
    (ofRat negativeZero (a - 1 / 2)).isFinite = true ∧
      (ofRat negativeZero (a - 1 / 2)).toRat = (a - a % 2 : Nat) := by
  have hone : (1 : Rat) ≤ a := by exact_mod_cast (by omega : 1 ≤ a)
  have hstands := standsFor_ofRat (r := a - 1 / 2) (by linarith) negativeZero
  rw [nearestValue_sub_half h hlarge] at hstands
  have hle : a - a % 2 ≤ greatest := by
    have hsize := h.abs_le
    rw [Nat.abs_cast, Nat.cast_le] at hsize
    omega
  have hfinite := hstands.isFinite_of_le (Nat.cast_le.2 hle)
  exact ⟨hfinite, hstands.toRat_eq hfinite⟩

theorem isFinite_half : (decimal 5 1).isFinite = true := rfl

theorem floor_whole_add_half (n : Int) : ((n : Rat) + 1 / 2).floor = n := by
  have hlow : n ≤ ((n : Rat) + 1 / 2).floor := Rat.le_floor_iff.2 (by linarith)
  have hhigh : ((n : Rat) + 1 / 2).floor < n + 1 := Rat.floor_lt_iff.2 (by push_cast; linarith)
  omega

/-- From here on numbers are whole, and a half goes to an even one. -/
theorem floor_add_half_of_whole (hx : x.isFinite = true) (hn : x.toRat = n)
    (hlarge : 2 ^ 52 ≤ n.natAbs) :
    (x + decimal 5 1).isFinite = true ∧ (x + decimal 5 1).toRat.floor = n + n % 2 := by
  have hexact : Exact (n : Rat) := hn ▸ exact_toRat hx
  obtain ⟨negativeZero, heq⟩ := exists_add_eq hx isFinite_half
  rw [heq, toRat_half, hn]
  obtain ⟨a, rfl | rfl⟩ := Int.eq_nat_or_neg n
  · rw [Int.natAbs_natCast] at hlarge
    rw [Int.cast_natCast] at hexact ⊢
    obtain ⟨hfinite, hvalue⟩ := ofRat_add_half hexact hlarge negativeZero
    refine ⟨hfinite, ?_⟩
    rw [hvalue, ← Int.cast_natCast, Rat.floor_intCast]
    omega
  · rw [Int.natAbs_neg, Int.natAbs_natCast] at hlarge
    rw [Int.cast_neg, Int.cast_natCast] at hexact ⊢
    rcases hlarge.eq_or_lt with rfl | hlarge
    -- below this power of two there are halves again
    · have hhalf : Exact (-((2 ^ 52 : Nat) : Rat) + 1 / 2) := by
        have hunits := exact_units (n := -(2 ^ 53 - 1)) (k := -1) (by decide) (by decide) (by decide)
        norm_num at hunits ⊢
        exact hunits
      obtain ⟨hfinite, hlow, hhigh⟩ := between_ofRat negativeZero hhalf hhalf le_rfl le_rfl
      refine ⟨hfinite, ?_⟩
      rw [le_antisymm hhigh hlow, ← Int.cast_natCast, ← Int.cast_neg, floor_whole_add_half]
      omega
    · obtain ⟨hfinite, hvalue⟩ := ofRat_sub_half (neg_neg (a : Rat) ▸ hexact.neg) hlarge false
      have hone : (1 : Rat) ≤ a := by exact_mod_cast (by omega : 1 ≤ a)
      have hneg : -(-(a : Rat) + 1 / 2) = a - 1 / 2 := by ring
      rw [ofRat_of_neg negativeZero (by linarith), hneg]
      refine ⟨isFinite_neg hfinite, ?_⟩
      rw [toRat_neg, hvalue, ← Int.cast_natCast, ← Int.cast_neg, Rat.floor_intCast]
      omega

/-- The numbers that a half carries past the nearest whole number. -/
def Carries (x : Binary64) : Prop :=
  x = belowHalf ∨ ∃ n : Int, x.toRat = n ∧ n % 2 = 1 ∧ 2 ^ 52 < n.natAbs

theorem toRat_belowHalf : belowHalf.toRat = (2 ^ 53 - 1) * 2 ^ (-54 : Int) := by
  norm_num [belowHalf, toRat, scaled_eq, fractionBits]

theorem abs_belowHalf_lt : |belowHalf.toRat| < 2 ^ 52 := by
  rw [toRat_belowHalf]
  norm_num [abs_lt]

theorem floor_belowHalf_add_half : (belowHalf + decimal 5 1).toRat.floor = 1 ∧
    (belowHalf.toRat + 1 / 2).floor = 0 := by decide +kernel

theorem abs_lt_iff_natAbs (n : Int) : |(n : Rat)| < 2 ^ 52 ↔ n.natAbs < 2 ^ 52 := by
  rw [← Int.cast_abs, Int.abs_eq_natAbs]
  exact_mod_cast Iff.rfl

theorem Carries.eq_belowHalf (h : x.Carries) (hsmall : |x.toRat| < 2 ^ 52) : x = belowHalf := by
  rcases h with hx | ⟨n, hn, -, hlarge⟩
  · exact hx
  · rw [hn, abs_lt_iff_natAbs] at hsmall
    omega

theorem carries_iff_odd (hn : x.toRat = n) (hlarge : 2 ^ 52 ≤ n.natAbs) :
    x.Carries ↔ n % 2 = 1 := by
  constructor
  · rintro (rfl | ⟨m, hm, hodd, -⟩)
    · have hsmall := abs_belowHalf_lt
      rw [hn, abs_lt_iff_natAbs] at hsmall
      omega
    · obtain rfl : n = m := by exact_mod_cast hn.symm.trans hm
      exact hodd
  · intro hodd
    exact Or.inr ⟨n, hn, hodd, by omega⟩

/-- Adding a half and cutting off gives the nearest whole number, or the next one. -/
theorem floor_add_half_cases (hx : x.isFinite = true) :
    (x + decimal 5 1).isFinite = true ∧
      (¬x.Carries → (x + decimal 5 1).toRat.floor = (x.toRat + 1 / 2).floor) ∧
      (x.Carries → (x + decimal 5 1).toRat.floor = (x.toRat + 1 / 2).floor + 1) := by
  by_cases hsmall : |x.toRat| < 2 ^ 52
  · refine ⟨?_, ?_, ?_⟩
    · obtain ⟨hlow, hhigh⟩ := abs_lt.1 hsmall
      have hbound : Exact ((2 ^ 53 : Int) : Rat) := exact_intCast (by decide)
      refine (between_add hx isFinite_half hbound.neg hbound ?_ ?_).isFinite
      · rw [toRat_half]
        push_cast
        linarith
      · rw [toRat_half]
        push_cast
        linarith
    · intro hcarries
      exact floor_add_half hx hsmall fun h => hcarries (Or.inl h)
    · intro hcarries
      rw [hcarries.eq_belowHalf hsmall, floor_belowHalf_add_half.1, floor_belowHalf_add_half.2]
      rfl
  · obtain ⟨n, hn⟩ := (exact_toRat hx).whole_or_small.resolve_right hsmall
    have hlarge : 2 ^ 52 ≤ n.natAbs := by
      rw [hn, abs_lt_iff_natAbs] at hsmall
      omega
    obtain ⟨hfinite, hfloor⟩ := floor_add_half_of_whole hx hn hlarge
    rw [carries_iff_odd hn hlarge, hfloor, hn, floor_whole_add_half]
    exact ⟨hfinite, fun h => by omega, fun h => by omega⟩

theorem floor?_eq (hx : x.isFinite = true) : x.floor? = .ok x.toRat.floor := by
  cases x with
  | nan => cases hx
  | infinite negative => cases hx
  | finite negative mantissa exponent hcanonical => rfl

theorem ceil?_eq (hx : x.isFinite = true) : x.ceil? = .ok x.toRat.ceil := by
  cases x with
  | nan => cases hx
  | infinite negative => cases hx
  | finite negative mantissa exponent hcanonical => rfl

/-- A number rounded down, to the nearest whole number and up, as it should be. Whole numbers
are not changed. -/
structure RoundsTo (x low nearest high : Binary64) : Prop where
  low_le : low.toRat ≤ nearest.toRat
  le_high : nearest.toRat ≤ high.toRat
  near : |nearest.toRat - x.toRat| ≤ 1 / 2
  whole : ∀ n : Int, x.toRat = n → low.toRat = n ∧ nearest.toRat = n ∧ high.toRat = n

/-- With one more than the nearest whole number this fails. -/
theorem roundsTo_iff {low nearest high : Binary64} (hlow : low.toRat = x.toRat.floor)
    (hhigh : high.toRat = x.toRat.ceil)
    (hnearest : ¬x.Carries → nearest.toRat = (x.toRat + 1 / 2).floor)
    (hcarried : x.Carries → nearest.toRat = (x.toRat + 1 / 2).floor + 1) :
    x.RoundsTo low nearest high ↔ ¬x.Carries := by
  have hbelow := Rat.floor_le (x.toRat + 1 / 2)
  have habove := Rat.lt_floor_add_one (x.toRat + 1 / 2)
  rw [Int.cast_add, Int.cast_one] at habove
  constructor
  · intro h hcarries
    have hnear := (abs_le.1 h.near).2
    rw [hcarried hcarries] at hnear
    linarith
  · intro hcarries
    have hvalue := hnearest hcarries
    refine ⟨?_, ?_, ?_, ?_⟩
    · rw [hlow, hvalue, Int.cast_le]
      exact Rat.floor_monotone (by linarith)
    · rw [hhigh, hvalue, Int.cast_le, ← Int.lt_add_one_iff, Rat.floor_lt_iff]
      have hceil := Rat.le_ceil (x := x.toRat)
      push_cast
      linarith
    · rw [hvalue, abs_le]
      constructor
      · linarith
      · linarith
    · intro n hn
      rw [hlow, hvalue, hhigh, hn, Rat.floor_intCast, floor_whole_add_half, Rat.ceil_intCast]
      exact ⟨rfl, rfl, rfl⟩

end Binary64

end ExperienceCurves
