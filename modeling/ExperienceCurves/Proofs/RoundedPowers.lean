import ExperienceCurves.Proofs.BezierValues
import ExperienceCurves.Proofs.PowerBounds

/-!
Powers of numbers of every kind with whole exponents, against the exact power. Rounding a whole
number moves it by a tiny part of itself, and a large exponent is rounded to an even one, whose
power is near the exact one again unless both are far beyond the range.
-/
namespace ExperienceCurves

-- Powers of whole numbers are those of the core library, whatever else is imported.
attribute [local instance (high)] instPowNat

namespace Binary64

variable {r : Rat} {x y : Binary64} {n e : Nat}

/-- A finite number that a number was rounded to, which moved it by a tiny part of itself. -/
structure Rounds (r : Rat) (x : Binary64) : Prop where
  isFinite : x.isFinite = true
  error : |x.toRat - r| ≤ |r| * (2 : Rat) ^ (-52 : Int)

theorem Rounds.size (h : Rounds r x) : |x.toRat| ≤ |r| * (1 + (2 : Rat) ^ (-52 : Int)) := by
  have hdistance := abs_sub_abs_le_abs_sub x.toRat r
  linarith [h.error]

theorem Rounds.sign (h : Rounds r x) : 0 ≤ x.toRat * r := by
  have hmoved : |(x.toRat - r) * r| ≤ r * r := by
    calc |(x.toRat - r) * r| = |x.toRat - r| * |r| := abs_mul _ _
      _ ≤ |r| * (2 : Rat) ^ (-52 : Int) * |r| := by
        gcongr
        exact h.error
      _ ≤ |r| * |r| := by
        gcongr
        exact mul_le_of_le_one_right (abs_nonneg r) (zpow_le_one_of_nonpos₀ one_le_two (by decide))
      _ = r * r := abs_mul_abs_self r
  have hlow := (abs_le.1 hmoved).1
  linarith

theorem rounds_toRat (hx : x.isFinite = true) : Rounds x.toRat x := by
  refine ⟨hx, ?_⟩
  rw [sub_self, abs_zero]
  positivity

theorem pack_true (mantissa : Nat) (exponent : Int) :
    pack true mantissa exponent = (pack false mantissa exponent).neg := by
  unfold pack
  split
  · rfl
  · split <;> rfl

theorem ofRat_of_neg (negativeZero : Bool) (hr : r < 0) :
    ofRat negativeZero r = (ofRat false (-r)).neg := by
  have hnum : r.num.natAbs ≠ 0 := Int.natAbs_ne_zero.2 (Rat.num_ne_zero.2 hr.ne)
  have hneg : -r ≠ 0 := neg_ne_zero.2 hr.ne
  rw [ofRat, if_neg hr.ne, ofRat, if_neg hneg, decide_eq_true hr,
    decide_eq_false (by linarith : ¬-r < 0), Rat.neg_num, Int.natAbs_neg, Rat.neg_den]
  unfold nearest
  rw [ofQuotient_eq true hnum, ofQuotient_eq false hnum, pack_true]

/-- Rounding moves a number by a tiny part of itself, unless it is one of the least. -/
theorem rounds_ofRat (negativeZero : Bool) (hr : 1 ≤ |r|)
    (hfinite : (ofRat negativeZero r).isFinite = true) : Rounds r (ofRat negativeZero r) := by
  have hhalves : (2 : Rat) ^ (-52 : Int) = (2 : Rat) ^ (-53 : Int) + (2 : Rat) ^ (-53 : Int) := by
    norm_num
  have hleast : (2 : Rat) ^ (-1075 : Int) ≤ |r| * (2 : Rat) ^ (-53 : Int) :=
    (zpow_le_zpow_right₀ one_le_two (by decide)).trans (le_mul_of_one_le_left (by positivity) hr)
  refine ⟨hfinite, ?_⟩
  rcases le_or_gt 0 r with hnonneg | hneg
  · have herror := ofRat_error hnonneg hfinite
    rw [abs_of_nonneg hnonneg] at hleast ⊢
    rw [hhalves]
    linarith
  · rw [ofRat_of_neg negativeZero hneg] at hfinite ⊢
    have herror := ofRat_error (neg_nonneg.2 hneg.le) (isFinite_of_neg hfinite)
    rw [abs_of_neg hneg] at hleast ⊢
    rw [toRat_neg, hhalves, ← abs_neg, neg_sub, sub_neg_eq_add, add_comm r, ← sub_neg_eq_add]
    linarith

theorem rounds_ofInt? {n : Int} (h : ofInt? n = .ok x) : Rounds n x := by
  have hfinite := (isInteger_of_ofInt? h).1.isFinite
  obtain ⟨rfl, -⟩ := ofInt?_eq_ok_iff.1 h
  by_cases hzero : n = 0
  · subst hzero
    rw [← (ofInt_exact (n := 0) (Nat.zero_le _)).2.2]
    exact rounds_toRat hfinite
  · rw [ofInt_eq_ofRat] at hfinite ⊢
    refine rounds_ofRat false ?_ hfinite
    exact_mod_cast Int.one_le_abs hzero

/-- A whole exponent that another was rounded to: the same up to 53 bits, and an even one nearby
beyond that. -/
structure RoundsExponent (n e : Nat) : Prop where
  exact : n ≤ 2 ^ (fractionBits + 1) → e = n
  even : 2 ^ (fractionBits + 1) < n → Even e
  up : (e - n) * 2 ^ fractionBits ≤ n
  down : (n - e) * 2 ^ fractionBits ≤ n

/-- A distance that is a tiny part of a whole number, without fractions. -/
theorem sub_mul_two_pow_le {m k : Nat} (h : (m : Rat) - k ≤ n * (2 : Rat) ^ (-52 : Int)) :
    (m - k) * 2 ^ fractionBits ≤ n := by
  rcases Nat.le_total m k with hle | hge
  · rw [Nat.sub_eq_zero_of_le hle, Nat.zero_mul]
    exact Nat.zero_le n
  · have hscale : (n : Rat) * (2 : Rat) ^ (-52 : Int) * 2 ^ fractionBits = n := by
      rw [mul_assoc, ← zpow_natCast, ← zpow_add₀ two_ne_zero]
      simp
    rw [← Nat.cast_sub hge] at h
    have hscaled := mul_le_mul_of_nonneg_right h (by positivity : (0 : Rat) ≤ 2 ^ fractionBits)
    rw [hscale] at hscaled
    exact_mod_cast hscaled

/-- Above 53 bits all numbers of the format are even. -/
theorem exists_even (hx : x.isFinite = true) (hsign : x.isNegative = false)
    (hlarge : (2 ^ (fractionBits + 1) : Nat) ≤ x.toRat) : ∃ e : Nat, (e : Rat) = x.toRat ∧ Even e := by
  cases x with
  | nan => cases hx
  | infinite negative => cases hx
  | finite negative mantissa exponent hcanonical =>
    obtain rfl : negative = false := hsign
    have hvalue : (finite false mantissa exponent hcanonical).toRat =
        (mantissa : Rat) * (2 : Rat) ^ exponent := scaled_eq _ _
    have hexponent : 0 < exponent := by
      by_contra hsmall
      have hunit : (2 : Rat) ^ exponent ≤ 1 := zpow_le_one_of_nonpos₀ one_le_two (not_lt.1 hsmall)
      have hmantissa : (mantissa : Rat) < (2 ^ (fractionBits + 1) : Nat) := by
        exact_mod_cast hcanonical.1
      have hbound : (mantissa : Rat) * (2 : Rat) ^ exponent ≤ mantissa :=
        mul_le_of_le_one_right (Nat.cast_nonneg _) hunit
      linarith
    obtain ⟨j, rfl⟩ : ∃ j : Nat, exponent = ((j + 1 : Nat) : Int) := ⟨(exponent - 1).toNat, by omega⟩
    refine ⟨mantissa * 2 ^ (j + 1), ?_, ⟨mantissa * 2 ^ j, by rw [pow_succ]; ring⟩⟩
    rw [hvalue, zpow_natCast]
    push_cast
    rfl

theorem exists_roundsExponent {y : Binary64} {n : Nat} (h : ofInt? n = .ok y) :
    y.IsInteger ∧ y.isNegative = false ∧ ∃ e : Nat, (e : Rat) = y.toRat ∧ RoundsExponent n e := by
  obtain ⟨hinteger, hsign⟩ := isInteger_of_ofInt? h
  rw [decide_eq_false (by omega)] at hsign
  refine ⟨hinteger, hsign, ?_⟩
  rcases Nat.lt_or_ge (2 ^ (fractionBits + 1)) n with hlarge | hsmall
  · obtain ⟨rfl, -⟩ := ofInt?_eq_ok_iff.1 h
    have herror := (rounds_ofInt? h).error
    have hvalue : (ofInt n).toRat = nearestValue n := by
      rw [ofInt_eq_ofRat, Int.cast_natCast]
      exact toRat_ofRat (Nat.cast_nonneg n) (by
        rw [← Int.cast_natCast, ← ofInt_eq_ofRat]
        exact hinteger.isFinite)
    have hbits : ((2 ^ (fractionBits + 1) : Nat) : Rat) ≤ (ofInt n).toRat := by
      have hexact : Exact ((2 ^ (fractionBits + 1) : Nat) : Rat) :=
        exact_intCast (n := (2 ^ (fractionBits + 1) : Nat)) le_rfl
      rw [hvalue, ← nearestValue_of_exact (Nat.cast_nonneg _) hexact]
      exact nearestValue_mono (Nat.cast_nonneg _) (Nat.cast_le.2 hlarge.le)
    obtain ⟨e, he, heven⟩ := exists_even hinteger.isFinite hsign hbits
    rw [← he, Int.cast_natCast, Nat.abs_cast, abs_le] at herror
    refine ⟨e, he, fun hsmall => absurd hlarge (Nat.not_lt.2 hsmall), fun _ => heven, ?_, ?_⟩
    · exact sub_mul_two_pow_le herror.2
    · exact sub_mul_two_pow_le (by linarith [herror.1])
  · refine ⟨n, ?_, fun _ => rfl, fun hlarge => absurd hsmall (Nat.not_le.2 hlarge), ?_, ?_⟩
    · obtain ⟨rfl, -⟩ := ofInt?_eq_ok_iff.1 h
      exact (ofInt_exact (n := n) hsmall).2.2.symm
    · rw [Nat.sub_self, Nat.zero_mul]
      exact Nat.zero_le n
    · rw [Nat.sub_self, Nat.zero_mul]
      exact Nat.zero_le n

/-- A power of a number above one that is small for its exponent comes from a small factor. -/
theorem pow_lt_of_mul_le {t c : Rat} (ht : 1 ≤ t) (hc : 0 ≤ c) {j count : Nat} (hj : j * count ≤ n)
    (h : t ^ n < c ^ count) : t ^ j < c := by
  refine lt_of_pow_lt_pow_left₀ count hc ?_
  rw [← pow_mul]
  exact (pow_le_pow_right₀ ht hj).trans_lt h

/-- A power with a rounded exponent is at most half as much again as the exact one, unless the exact
one is far beyond the range. -/
theorem RoundsExponent.pow_le (h : RoundsExponent n e) {t : Rat} (ht : 0 ≤ t)
    (hlarge : 3 / 4 ≤ t ^ e) : (2 : Rat) ^ 2100 ≤ t ^ n ∨ t ^ e ≤ 3 / 2 * t ^ n := by
  have hpower : 0 ≤ t ^ n := pow_nonneg ht n
  rcases le_or_gt 1 t with hone | hone
  · rcases Nat.le_total e n with hle | hge
    · have hmono := pow_le_pow_right₀ hone hle
      exact Or.inr (by linarith)
    · refine or_iff_not_imp_left.2 fun hsmall => ?_
      have hreach : (2 : Rat) ^ 2100 ≤ (3 / 2) ^ 2 ^ fractionBits := by
        calc (2 : Rat) ^ 2100 ≤ ((3 / 2) ^ 2) ^ 2100 := by
              gcongr
              norm_num
          _ = (3 / 2) ^ (2 * 2100) := (pow_mul _ _ _).symm
          _ ≤ (3 / 2) ^ 2 ^ fractionBits :=
            pow_le_pow_right₀ (by norm_num) (by decide)
      have hfactor : t ^ (e - n) < 3 / 2 :=
        pow_lt_of_mul_le hone (by norm_num) h.up ((not_le.1 hsmall).trans_le hreach)
      rw [← Nat.add_sub_cancel' hge, pow_add, mul_comm]
      gcongr
  · right
    rcases Nat.le_total n e with hle | hge
    · have hmono := pow_le_pow_of_le_one ht hone.le hle
      linarith
    · -- What the exponent lost is less than what is left of it.
      have hlost : n - e ≤ e := by
        have hbits : 2 ≤ 2 ^ fractionBits := by decide
        have hdouble := (Nat.mul_le_mul_left (n - e) hbits).trans h.down
        omega
      have hfactor : 3 / 4 ≤ t ^ (n - e) := hlarge.trans (pow_le_pow_of_le_one ht hone.le hlost)
      rw [← Nat.add_sub_cancel' hge, pow_add]
      nlinarith

/-- A number has the sign of a power as well if it has that of the power with a rounded exponent,
unless the base is negative and an odd exponent was rounded. -/
theorem RoundsExponent.sign (h : RoundsExponent n e) {q t : Rat} (hq : 0 ≤ q * t ^ e)
    (ht : 0 ≤ t ∨ Even n ∨ n ≤ 2 ^ (fractionBits + 1)) : 0 ≤ q * t ^ n := by
  by_cases hsmall : n ≤ 2 ^ (fractionBits + 1)
  · rwa [h.exact hsmall] at hq
  have heven := h.even (not_le.1 hsmall)
  by_cases hzero : t = 0
  · have hn : n ≠ 0 := Nat.ne_zero_of_lt (not_le.1 hsmall)
    rw [hzero, zero_pow hn, mul_zero]
  have hpositive : 0 < t ^ e := heven.pow_pos hzero
  have hpower : 0 ≤ t ^ n := by
    rcases ht with hbase | heven' | hsmall'
    · exact pow_nonneg hbase n
    · exact heven'.pow_nonneg t
    · exact absurd hsmall' hsmall
  exact mul_nonneg (nonneg_of_mul_nonneg_left hq hpositive) hpower

/-- The least number above one. -/
theorem one_add_le_abs (hx : x.isFinite = true) (h : 1 < |x.toRat|) :
    1 + (2 : Rat) ^ (-52 : Int) ≤ |x.toRat| := by
  cases x with
  | nan => cases hx
  | infinite negative => cases hx
  | finite negative mantissa exponent hcanonical =>
    rw [abs_toRat_finite] at h ⊢
    rw [scaled_eq] at h ⊢
    have htiny : (2 : Rat) ^ (-52 : Int) ≤ 1 := zpow_le_one_of_nonpos₀ one_le_two (by decide)
    rcases le_or_gt 0 exponent with hnonneg | hneg
    · obtain ⟨j, rfl⟩ := Int.eq_ofNat_of_zero_le hnonneg
      rw [zpow_natCast] at h ⊢
      have hwhole : 2 ≤ mantissa * 2 ^ j := by exact_mod_cast h
      have hcast : (2 : Rat) ≤ mantissa * 2 ^ j := by exact_mod_cast hwhole
      linarith
    · obtain ⟨j, rfl⟩ : ∃ j : Nat, exponent = -(j : Int) := ⟨(-exponent).toNat, by omega⟩
      have hunit : (0 : Rat) < 2 ^ j := by positivity
      have hquotient : (mantissa : Rat) * (2 : Rat) ^ (-(j : Int)) = mantissa / 2 ^ j := by
        rw [zpow_neg, zpow_natCast, div_eq_mul_inv]
      rw [hquotient] at h ⊢
      rw [one_lt_div hunit] at h
      have hlt : 2 ^ j < mantissa := by exact_mod_cast h
      have hbits : j < 53 :=
        (Nat.pow_lt_pow_iff_right (by decide)).1 (hlt.trans hcanonical.1)
      have hpart : (2 : Rat) ^ (-52 : Int) * 2 ^ j ≤ 1 := by
        rw [← zpow_natCast, ← zpow_add₀ two_ne_zero]
        exact zpow_le_one_of_nonpos₀ one_le_two (by omega)
      have hnext : (2 : Rat) ^ j + 1 ≤ mantissa := by exact_mod_cast hlt
      rw [le_div_iff₀ hunit]
      linarith

/-- As many parts as make one, each added by a product, at least double. -/
theorem two_le_one_add_pow {part : Rat} {count : Nat} (hpart : 0 ≤ part) (h : count * part = 1) :
    2 ≤ (1 + part) ^ count := by
  have hbernoulli := one_add_mul_le_pow (by linarith : -2 ≤ part) count
  linarith

/-- Exponents beyond the range take every number above one far beyond it. -/
theorem two_pow_le_pow {t : Rat} (ht : 1 + (2 : Rat) ^ (-52 : Int) ≤ t) (hn : greatest ≤ n) :
    (2 : Rat) ^ 2100 ≤ t ^ n := by
  have hone : (1 : Rat) ≤ 1 + (2 : Rat) ^ (-52 : Int) := le_add_of_nonneg_right (by positivity)
  have hcount : 2 ^ fractionBits * 2100 ≤ n :=
    (by decide +kernel : 2 ^ fractionBits * 2100 ≤ greatest).trans hn
  have hscale : ((2 ^ fractionBits : Nat) : Rat) * (2 : Rat) ^ (-52 : Int) = 1 := by
    rw [Nat.cast_pow, Nat.cast_ofNat, ← zpow_natCast, ← zpow_add₀ two_ne_zero]
    simp
  have hdouble := two_le_one_add_pow (by positivity) hscale
  calc (2 : Rat) ^ 2100 ≤ ((1 + (2 : Rat) ^ (-52 : Int)) ^ 2 ^ fractionBits) ^ 2100 :=
        pow_le_pow_left₀ zero_le_two hdouble 2100
    _ = (1 + (2 : Rat) ^ (-52 : Int)) ^ (2 ^ fractionBits * 2100) := (pow_mul _ _ _).symm
    _ ≤ (1 + (2 : Rat) ^ (-52 : Int)) ^ n := pow_le_pow_right₀ hone hcount
    _ ≤ t ^ n := pow_le_pow_left₀ (zero_le_one.trans hone) ht n

end Binary64

open Binary64

namespace Number

/-- Only a binary number can be infinite or NaN. -/
def IsFinite : Number → Prop
  | real x => x.isFinite = true
  | _ => True

/-- The exact value of a finite number. -/
def toRat (a : Number) : Rat :=
  match a.plain with
  | int n => n
  | real x => x.toRat
  | truth _ => 0

/-- A whole number, or a truth value that counts as one. -/
def IsWhole (a : Number) : Prop := ∃ n, a.plain = int n

variable {a b : Number} {x p : Binary64} {n : Nat}

theorem toRat_of_plain {m : Int} (h : a.plain = int m) : a.toRat = m := by
  unfold toRat
  rw [h]

/-- A finite number has a binary one near it, or is a whole number beyond the range. -/
theorem toBinary64_rounds (ha : a.IsFinite) :
    (∃ x, a.toBinary64 = .ok x ∧ Rounds a.toRat x) ∨
      a.toBinary64 = .error .integerTooLarge ∧ (greatest : Rat) < |a.toRat| := by
  rcases plain_cases a with ⟨m, hm⟩ | ⟨x, rfl, -⟩
  · have hunfold : a.toBinary64 = ofInt? m := by
      unfold toBinary64
      rw [hm]
    rw [hunfold, toRat_of_plain hm]
    cases hx : ofInt? m with
    | ok x => exact Or.inl ⟨x, rfl, rounds_ofInt? hx⟩
    | error fault =>
      obtain rfl := ofInt?_error hx
      refine Or.inr ⟨rfl, ?_⟩
      have hlarge : greatest < m.natAbs := by
        by_contra hsmall
        rw [ofInt?_eq_ok (not_lt.1 hsmall)] at hx
        cases hx
      rw [← Int.cast_abs, Int.abs_eq_natAbs, Int.cast_natCast]
      exact_mod_cast hlarge
  · exact Or.inl ⟨x, rfl, rounds_toRat ha⟩

theorem wholePower_eq (m : Int) (n : Nat) : wholePower m n = m ^ n := by
  have hmagnitude :
      (if m.natAbs ≤ 1 ∧ n ≠ 0 then m.natAbs else m.natAbs ^ n) = m.natAbs ^ n := by
    split
    · next hshort =>
      obtain ⟨hunit, hn⟩ := hshort
      rcases Nat.le_one_iff_eq_zero_or_eq_one.1 hunit with hzero | hone
      · rw [hzero, Nat.zero_pow (Nat.pos_of_ne_zero hn)]
      · rw [hone, Nat.one_pow]
    · rfl
  unfold wholePower
  rw [hmagnitude]
  dsimp only
  rw [Nat.cast_pow, Int.natCast_natAbs]
  rcases lt_or_ge m 0 with hneg | hnonneg
  · rw [abs_of_neg hneg]
    rcases Nat.even_or_odd n with heven | hodd
    · rw [if_neg (by rw [Nat.even_iff.1 heven]; omega), heven.neg_pow]
    · rw [if_pos ⟨hneg, Nat.odd_iff.1 hodd⟩, hodd.neg_pow, neg_neg]
  · rw [if_neg (by omega), abs_of_nonneg hnonneg]

theorem raise_whole {m : Int} (h : b.plain = int m) (n : Nat) :
    b.raise (.int n) = .ok (.int (m ^ n)) := by
  have hunfold : b.raise (.int n) = b.pow n := rfl
  rw [hunfold]
  unfold pow
  rw [h]
  dsimp only
  rw [if_pos (Int.natCast_nonneg n), Int.toNat_natCast, wholePower_eq]

/-- A finite number that a power was rounded to, perhaps after its exponent. It has the sign of the
exact power unless an odd exponent was rounded. -/
structure RoundsPower (b : Number) (n : Nat) (p : Binary64) : Prop where
  isFinite : p.isFinite = true
  sign : 0 ≤ b.toRat ∨ Even n ∨ n ≤ 2 ^ (fractionBits + 1) ∨ b.IsWhole → 0 ≤ p.toRat * b.toRat ^ n
  size : 7 / 8 ≤ |p.toRat| → (2 : Rat) ^ 2100 ≤ |b.toRat| ^ n ∨ |p.toRat| ≤ 8 / 5 * |b.toRat| ^ n

theorem roundsPower_of_rounds (h : Rounds (b.toRat ^ n) p) : RoundsPower b n p := by
  refine ⟨h.isFinite, fun _ => h.sign, fun _ => Or.inr ?_⟩
  calc |p.toRat| ≤ |b.toRat ^ n| * (1 + (2 : Rat) ^ (-52 : Int)) := h.size
    _ ≤ |b.toRat ^ n| * (8 / 5) := by
      gcongr
      norm_num
    _ = 8 / 5 * |b.toRat| ^ n := by rw [abs_pow, mul_comm]

theorem half_greatest_lt : (greatest : Rat) / 2 < 2 ^ 2100 := by
  have hpositive : (0 : Rat) < greatest := by
    exact_mod_cast (by decide +kernel : 0 < greatest)
  have hrange : (greatest : Rat) < 2 ^ 2100 := by
    exact_mod_cast (by decide +kernel : greatest < 2 ^ 2100)
  exact (half_lt_self hpositive).trans hrange

/-- Powers of a binary number: rounded, or out of range because the exact power is, or the exponent
of a number up to one. -/
theorem raise_real_cases (hx : x.isFinite = true) (n : Nat) :
    (∃ p, (real x).raise (.int n) = .ok (.real p) ∧ RoundsPower (.real x) n p) ∨
      ∃ fault, (real x).raise (.int n) = .error fault ∧ fault.isOverflow = true ∧
        ((greatest : Rat) / 2 < |x.toRat| ^ n ∨ greatest < n ∧ |x.toRat| ≤ 1) := by
  have hraise : (real x).raise (.int n) = ofInt? n >>= powReal x := rfl
  rw [hraise]
  cases hexponent : ofInt? n with
  | error fault =>
    obtain rfl := ofInt?_error hexponent
    have hlarge : greatest < n := by
      by_contra hsmall
      rw [ofInt?_eq_ok (n := n) (not_lt.1 hsmall)] at hexponent
      cases hexponent
    refine Or.inr ⟨_, rfl, rfl, ?_⟩
    rcases le_or_gt |x.toRat| 1 with hle | hgt
    · exact Or.inr ⟨hlarge, hle⟩
    · exact Or.inl (half_greatest_lt.trans_le
        (two_pow_le_pow (one_add_le_abs hx hgt) hlarge.le))
  | ok y =>
    obtain ⟨hinteger, hsign, e, he, hrounds⟩ := exists_roundsExponent hexponent
    have hexact : 0 ≤ |x.toRat| ^ e := by positivity
    rcases powReal_cases hx hinteger hsign with ⟨hlarge, hinfinite⟩ | ⟨hok, hfinite⟩
    · refine Or.inr ⟨_, hlarge, rfl, Or.inl ?_⟩
      have hreached := lt_of_pow_isInfinite hx hinteger hsign he hinfinite
      have hone : (1 : Rat) ≤ greatest := by exact_mod_cast (by decide +kernel : 1 ≤ greatest)
      obtain ⟨hlow, hhigh⟩ := unitAbove_le hexact (by linarith)
      rcases hrounds.pow_le (abs_nonneg _) hlow with hfar | hnear
      · exact half_greatest_lt.trans_le hfar
      · linarith
    · obtain ⟨hsize, hsame⟩ := abs_pow_le hx hinteger hsign he hfinite
      refine Or.inl ⟨_, hok, hfinite, ?_, ?_⟩
      · intro hcases
        refine hrounds.sign hsame ?_
        rcases hcases with hbase | heven | hsmall | ⟨m, hm⟩
        · exact Or.inl hbase
        · exact Or.inr (Or.inl heven)
        · exact Or.inr (Or.inr hsmall)
        · cases hm
      · intro hlarge
        obtain ⟨hlow, hhigh⟩ := unitAbove_le hexact (hlarge.trans hsize)
        refine (hrounds.pow_le (abs_nonneg _) hlow).imp_right fun hnear => ?_
        change _ ≤ 8 / 5 * |x.toRat| ^ n
        linarith

end Number

end ExperienceCurves
