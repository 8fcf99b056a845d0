import ExperienceCurves.Proofs.RoundingOrder

/-!
Powers of numbers between zero and one. A positive whole power of such a number lies between zero
and one again. The bracket of the power lies below the base, so does the number next to it on the
side of zero, and the neighbour of a number below one is at most one.
-/
namespace ExperienceCurves

-- Powers of whole numbers are those of the core library, whatever else is imported.
attribute [local instance (high)] instPowNat

open Enclosure Binary64

namespace Enclosure

/-- The value of an endpoint. -/
def Endpoint.toRat (x : Endpoint) : Rat := scaled x.mantissa x.exponent

theorem Endpoint.toRat_nonneg (x : Endpoint) : 0 ≤ x.toRat := scaled_nonneg _ _

theorem Endpoint.toRat_mul (x y : Endpoint) : (x.mul y).toRat = x.toRat * y.toRat := by
  simp only [toRat, mul, scaled_eq, Nat.cast_mul, zpow_add₀ (by norm_num : (2 : Rat) ≠ 0)]
  ring

theorem Endpoint.toRat_cutDown_le (bits : Nat) (x : Endpoint) :
    (x.cutDown bits).toRat ≤ x.toRat := by
  have hcut : x.mantissa / 2 ^ excess bits x * 2 ^ excess bits x ≤ x.mantissa :=
    Nat.div_mul_le_self _ _
  unfold toRat cutDown
  dsimp only
  rw [scaled_shift, scaled_eq]
  gcongr

/-- A positive endpoint reaches the power of two of its leading bit. -/
theorem Endpoint.two_zpow_le {x : Endpoint} (h : x.mantissa ≠ 0) :
    (2 : Rat) ^ (x.exponent + x.mantissa.log2) ≤ x.toRat := by
  rw [zpow_add₀ (by norm_num : (2 : Rat) ≠ 0), toRat, scaled_eq, mul_comm]
  gcongr
  exact two_zpow_log2_le h

/-- Squaring and cutting down stay below the exact power, by induction on the halvings of the
exponent. -/
theorem Bracket.power_lower_le (bits : Nat) (x : Bracket) (n : Nat) :
    (power bits x n).lower.toRat ≤ x.lower.toRat ^ n := by
  induction n using Nat.strong_induction_on with
  | _ n ih =>
    have hbase := x.lower.toRat_nonneg
    unfold power
    by_cases hzero : n = 0
    · subst hzero
      simp [one, exact, Endpoint.toRat, scaled_eq]
    · rw [if_neg hzero]
      dsimp only
      have hhalf := ih (n / 2) (by omega)
      have hhalfNonneg := (power bits x (n / 2)).lower.toRat_nonneg
      have hsquare : (mul bits (power bits x (n / 2)) (power bits x (n / 2))).lower.toRat ≤
          x.lower.toRat ^ (n / 2 + n / 2) := by
        refine (Endpoint.toRat_cutDown_le _ _).trans ?_
        rw [Endpoint.toRat_mul, pow_add]
        gcongr
      split
      · rwa [show n / 2 + n / 2 = n by omega] at hsquare
      · have hsplit : x.lower.toRat ^ n = x.lower.toRat ^ (n / 2 + n / 2) * x.lower.toRat := by
          rw [← pow_succ]
          congr 1
          omega
        rw [hsplit]
        refine (Endpoint.toRat_cutDown_le _ _).trans ?_
        rw [Endpoint.toRat_mul]
        gcongr

/-- For a base up to one, a positive whole power has its lower end below the base. -/
theorem Bracket.power_lower_le_base (bits : Nat) (base : Endpoint) (hbase : base.toRat ≤ 1)
    {n : Nat} (hn : n ≠ 0) : (power bits (exact base) n).lower.toRat ≤ base.toRat :=
  (power_lower_le bits (exact base) n).trans (pow_le_of_le_one base.toRat_nonneg hbase hn)

/-- A whole number other than zero as an exponent. -/
theorem Exponent.exists_ofFinite (negative : Bool) {mantissa : Nat} {exponent : Int}
    (hzero : mantissa ≠ 0) (hwhole : 0 ≤ exponent ∨ 2 ^ (-exponent).toNat ∣ mantissa) :
    ∃ numerator : Nat, ofFinite negative mantissa exponent = ⟨negative, numerator, 0⟩ ∧
      numerator ≠ 0 ∧ (numerator : Rat) = scaled mantissa exponent := by
  unfold ofFinite scaled
  by_cases hexponent : 0 ≤ exponent
  · rw [if_pos hexponent, if_pos hexponent]
    exact ⟨_, rfl, Nat.mul_ne_zero hzero (Nat.two_pow_pos _).ne', rfl⟩
  · obtain ⟨factor, rfl⟩ := hwhole.resolve_left hexponent
    have hunit : ((2 ^ (-exponent).toNat : Nat) : Rat) ≠ 0 := by positivity
    rw [if_neg hexponent, if_neg hexponent, reduce_eq, Rat.mkRat_eq_div]
    refine ⟨factor, rfl, right_ne_zero_of_mul hzero, ?_⟩
    rw [Nat.cast_mul, Int.cast_mul, Int.cast_natCast, Int.cast_natCast, mul_div_cancel_left₀ _ hunit]

end Enclosure

namespace Binary64

variable {mantissa : Nat} {k : Int} {x y : Binary64}

/-- A finite number without a sign, up to a bound. -/
def IsMagnitude (bound : Rat) (x : Binary64) : Prop :=
  ∃ m e hc, x = finite false m e hc ∧ scaled m e ≤ bound

theorem isMagnitude_zero {bound : Rat} (h : 0 ≤ bound) : (zero false).IsMagnitude bound := by
  refine ⟨0, -1074, _, rfl, ?_⟩
  rwa [scaled_eq, Nat.cast_zero, zero_mul]

/-- The number next to an endpoint is zero or infinite where the leading bit decides that, and a
quotient that is cut elsewhere. -/
theorem truncateEndpoint_cases (e : Endpoint) :
    truncateEndpoint e = zero false ∧ e.toRat < (2 : Rat) ^ (-1074 : Int) ∨
      truncateEndpoint e = infinite false ∧ (2 : Rat) ^ (1024 : Int) ≤ e.toRat ∨
      ∃ num den : Nat, den ≠ 0 ∧ (num : Rat) / den = e.toRat ∧
        truncateEndpoint e = truncated false num den := by
  unfold truncateEndpoint ofEndpointBy
  dsimp only
  split
  · next hsmall =>
    refine Or.inl ⟨rfl, ?_⟩
    rcases hsmall with hzero | htop
    · rw [Endpoint.toRat, hzero, scaled_eq, Nat.cast_zero, zero_mul]
      positivity
    · calc e.toRat = e.mantissa * (2 : Rat) ^ e.exponent := scaled_eq _ _
        _ < (2 : Rat) ^ ((e.mantissa.log2 : Int) + 1) * (2 : Rat) ^ e.exponent := by
          gcongr
          exact lt_two_zpow_log2 _
        _ = (2 : Rat) ^ ((e.mantissa.log2 : Int) + 1 + e.exponent) :=
          (zpow_add₀ two_ne_zero _ _).symm
        _ ≤ (2 : Rat) ^ (-1074 : Int) := zpow_le_zpow_right₀ one_le_two (by omega)
  · next hvisible =>
    rw [not_or] at hvisible
    right
    split
    · next htop =>
      refine Or.inl ⟨rfl, ?_⟩
      exact (zpow_le_zpow_right₀ one_le_two (by omega)).trans (Endpoint.two_zpow_le hvisible.1)
    · right
      split
      · next hexponent =>
        obtain ⟨j, hj⟩ := Int.eq_ofNat_of_zero_le hexponent
        refine ⟨_, _, one_ne_zero, ?_, rfl⟩
        rw [Endpoint.toRat, scaled_eq, hj]
        simp
      · next hexponent =>
        obtain ⟨j, hj⟩ : ∃ j : Nat, e.exponent = -(j : Int) := ⟨(-e.exponent).toNat, by omega⟩
        refine ⟨_, _, (Nat.two_pow_pos _).ne', ?_, rfl⟩
        rw [Endpoint.toRat, scaled_eq, hj]
        simp [div_eq_mul_inv]

theorem isMagnitude_truncateEndpoint {e : Endpoint} (hcanonical : Canonical mantissa k)
    (h : e.toRat ≤ scaled mantissa k) : (truncateEndpoint e).IsMagnitude (scaled mantissa k) := by
  rcases truncateEndpoint_cases e with ⟨heq, -⟩ | ⟨-, hlarge⟩ | ⟨num, den, hden, hvalue, heq⟩
  · rw [heq]
    exact isMagnitude_zero (scaled_nonneg mantissa k)
  · exact absurd (hlarge.trans (h.trans (scaled_le hcanonical))) greatest_lt.not_ge
  · have hdenRat : (0 : Rat) < den := by exact_mod_cast Nat.pos_of_ne_zero hden
    rw [← hvalue, div_le_iff₀ hdenRat] at h
    obtain ⟨m, j, hc, hquotient, hle, -⟩ :=
      ofQuotient_spec false isRounding_div hden hcanonical h
    exact ⟨m, j, hc, heq.trans hquotient, hle⟩

/-- A magnitude stands for a number: it has this value, or it is infinite and the number is beyond
the range. -/
def StandsFor (v : Rat) (x : Binary64) : Prop :=
  (∃ m e hc, x = finite false m e hc ∧ scaled m e = v) ∨ x = infinite false ∧ (greatest : Rat) < v

theorem standsFor_zero : (zero false).StandsFor 0 := by
  refine Or.inl ⟨0, -1074, _, rfl, ?_⟩
  rw [scaled_eq, Nat.cast_zero, zero_mul]

theorem standsFor_pack (hlow : -1074 ≤ k) (hmantissa : mantissa ≤ 2 ^ (fractionBits + 1))
    (hfull : 2 ^ fractionBits ≤ mantissa ∨ k = -1074) :
    (pack false mantissa k).StandsFor (scaled mantissa k) := pack_cases false hlow hmantissa hfull

namespace StandsFor

variable {v : Rat} {x : Binary64}

theorem nonneg (h : x.StandsFor v) : 0 ≤ v := by
  rcases h with ⟨m, e, hc, -, rfl⟩ | ⟨-, hlarge⟩
  · exact scaled_nonneg m e
  · exact (Nat.cast_nonneg greatest).trans hlarge.le

theorem toRat_eq (h : x.StandsFor v) (hfinite : x.isFinite = true) : x.toRat = v := by
  rcases h with ⟨m, e, hc, rfl, hvalue⟩ | ⟨rfl, -⟩
  · exact hvalue
  · cases hfinite

theorem lt_of_isInfinite (h : x.StandsFor v) (hinfinite : x.isInfinite = true) :
    (greatest : Rat) < v := by
  rcases h with ⟨m, e, hc, rfl, -⟩ | ⟨-, hlarge⟩
  · cases hinfinite
  · exact hlarge

theorem isFinite_of_le (h : x.StandsFor v) (hle : v ≤ greatest) : x.isFinite = true := by
  rcases h with ⟨m, e, hc, rfl, -⟩ | ⟨-, hlarge⟩
  · rfl
  · exact absurd hle hlarge.not_ge

end StandsFor

/-- The number after a mantissa: one more, or the least full mantissa at the next exponent. -/
theorem ofEncoding_succ (hcanonical : Canonical mantissa k) :
    ∃ m e, ofEncoding ((finite false mantissa k hcanonical).encoding + 1) = pack false m e ∧
      (m = mantissa + 1 ∧ e = k ∨
        mantissa + 1 = 2 ^ (fractionBits + 1) ∧ m = 2 ^ fractionBits ∧ e = k + (1 : Nat)) := by
  have ⟨hmantissa, hlow, _, hfull⟩ := hcanonical
  obtain ⟨j, rfl⟩ : ∃ j : Nat, k = -1074 + j := ⟨(k + 1074).toNat, by omega⟩
  have hwidth : 2 ^ fractionBits = 4503599627370496 := by decide
  have hwidthInt : (2 : Int) ^ fractionBits = 4503599627370496 := by decide
  have hwidth' : 2 ^ (fractionBits + 1) = 9007199254740992 := by decide
  have hshift : (-1074 + (j : Int) + 1074).toNat = j := by omega
  have hencoding : (finite false mantissa (-1074 + j) hcanonical).encoding =
      j * 2 ^ fractionBits + mantissa := congrArg (· * 2 ^ fractionBits + mantissa) hshift
  rw [hencoding, ofEncoding]
  rw [hwidth] at hfull
  rw [hwidth'] at hmantissa ⊢
  simp only [hwidth, hwidthInt]
  split
  · exact ⟨_, _, rfl, by omega⟩
  · exact ⟨_, _, rfl, by omega⟩

/-- A number below one has units below one, and the next whole number of them is at most one. -/
theorem scaled_succ_le_one (hcanonical : Canonical mantissa k) (h : scaled mantissa k < 1) :
    scaled (mantissa + 1) k ≤ 1 := by
  rw [scaled_eq] at h ⊢
  by_cases hk : 0 ≤ k
  · have hpositive : 1 ≤ mantissa := by
      rcases hcanonical.2.2.2 with hfull | hleast
      · exact le_trans (Nat.one_le_two_pow) hfull
      · omega
    have hone : (1 : Rat) ≤ 2 ^ k := one_le_zpow₀ one_le_two hk
    have hcast : (1 : Rat) ≤ mantissa := by exact_mod_cast hpositive
    nlinarith
  · obtain ⟨j, rfl⟩ : ∃ j : Nat, k = -(j : Int) := ⟨(-k).toNat, by omega⟩
    have hpower : (0 : Rat) < 2 ^ j := by positivity
    rw [zpow_neg, zpow_natCast, ← div_eq_mul_inv] at h ⊢
    rw [div_lt_one hpower] at h
    rw [div_le_one hpower]
    have hlt : mantissa < 2 ^ j := by exact_mod_cast h
    exact_mod_cast hlt

/-- The neighbour of a number is one unit further. -/
theorem standsFor_away (hcanonical : Canonical mantissa k) :
    (finite false mantissa k hcanonical).away.StandsFor (scaled (mantissa + 1) k) := by
  obtain ⟨m, e, heq, hnext⟩ := ofEncoding_succ hcanonical
  have hvalue : scaled m e = scaled (mantissa + 1) k := by
    rcases hnext with ⟨rfl, rfl⟩ | ⟨hlast, rfl, rfl⟩
    · rfl
    · rw [scaled_shift, ← pow_succ, hlast, scaled_eq]
  have hmantissa := hcanonical.1
  have hlow := hcanonical.2.1
  have hfull : 2 ^ fractionBits ≤ m ∨ e = -1074 := by
    rcases hnext with ⟨rfl, rfl⟩ | ⟨-, rfl, -⟩
    · exact hcanonical.2.2.2.imp_left Nat.le_succ_of_le
    · exact Or.inl le_rfl
  have hwide : m ≤ 2 ^ (fractionBits + 1) := by
    rcases hnext with ⟨rfl, -⟩ | ⟨-, rfl, -⟩
    · exact hmantissa
    · exact Nat.pow_le_pow_right two_pos (Nat.le_succ _)
  unfold away
  dsimp only
  rw [if_neg Bool.false_ne_true, heq, ← hvalue]
  exact standsFor_pack (by omega) hwide hfull

/-- The neighbour of a number below one is finite. -/
theorem exists_away (hcanonical : Canonical mantissa k) (h : scaled mantissa k < 1) :
    ∃ m e hc, (finite false mantissa k hcanonical).away = finite false m e hc ∧
      scaled m e = scaled (mantissa + 1) k := by
  refine (standsFor_away hcanonical).resolve_right ?_
  rintro ⟨-, hlarge⟩
  have hone := scaled_succ_le_one hcanonical h
  have hgreatest : (1 : Rat) ≤ greatest := by
    exact_mod_cast Nat.mul_pos (by decide : 0 < 2 ^ (fractionBits + 1) - 1) (Nat.two_pow_pos 971)
  linarith

theorem between_away (hcanonical : Canonical mantissa k) (h : scaled mantissa k < 1) :
    (finite false mantissa k hcanonical).away.Between 0 1 := by
  obtain ⟨m, e, hc, heq, hvalue⟩ := exists_away hcanonical h
  rw [heq]
  exact ⟨rfl, scaled_nonneg _ _, hvalue.le.trans (scaled_succ_le_one hcanonical h)⟩

theorem eq_of_isFinite (hx : x.isFinite = true) (hy : y.isFinite = true) :
    x.eq y = decide (x.toRat = y.toRat) := by
  cases x with
  | nan => cases hx
  | infinite negative => cases hx
  | finite negative mantissa exponent hcanonical =>
    cases y with
    | nan => cases hy
    | infinite negative' => cases hy
    | finite negative' mantissa' exponent' hcanonical' => rfl

/-- A whole power is the number next to the lower end of a bracket, or the neighbour of that. -/
theorem powPositive_spec {P : Binary64 → Prop} (x y : Binary64) (base : Endpoint) (numerator : Nat)
    (h : ∀ bits ∈ workingBits,
      P (truncateEndpoint (powerBracket bits base ⟨false, numerator, 0⟩).lower)) :
    ∃ magnitude, P magnitude ∧ (powPositive x y base ⟨false, numerator, 0⟩ = magnitude ∨
      powPositive x y base ⟨false, numerator, 0⟩ = magnitude.away) := by
  have hbelow := below_spec (by decide : workingBits ≠ []) h
  have htake : takeRoots base false numerator 0 = (base, ⟨false, numerator, 0⟩) := rfl
  unfold powPositive
  rw [htake]
  dsimp only
  generalize below (fun bits => powerBracket bits base ⟨false, numerator, 0⟩) workingBits =
    found at hbelow ⊢
  obtain ⟨magnitude, isExact⟩ := found
  refine ⟨magnitude, hbelow, ?_⟩
  dsimp only
  split
  · exact Or.inl rfl
  · split
    · next hguess => exact Or.inr hguess
    · exact Or.inl rfl

/-- A positive whole power of a positive number below one. -/
theorem between_powPositive (x y : Binary64) (hcanonical : Canonical mantissa k)
    (h : scaled mantissa k < 1) {numerator : Nat} (hnumerator : numerator ≠ 0) :
    (powPositive x y ⟨mantissa, k⟩ ⟨false, numerator, 0⟩).Between 0 1 := by
  obtain ⟨_, ⟨m, e, hc, rfl, hle⟩, hpower⟩ := powPositive_spec (P := IsMagnitude (scaled mantissa k))
    x y ⟨mantissa, k⟩ numerator fun bits _ => isMagnitude_truncateEndpoint hcanonical
      (Bracket.power_lower_le_base bits ⟨mantissa, k⟩ h.le hnumerator)
  rcases hpower with hpower | hpower
  · rw [hpower]
    exact ⟨rfl, scaled_nonneg m e, hle.trans h.le⟩
  · rw [hpower]
    exact between_away hc (hle.trans_lt h)

/-- What a positive whole power of a finite number is made from: it is one or zero like its base,
or its magnitude is searched between the numbers of the format. -/
theorem pow_whole_cases (hx : x.isFinite = true) (hy : y.IsInteger) (hsign : y.isNegative = false)
    (hzero : y.isZero = false) :
    x.toRat = 1 ∧ x.pow y = 1 ∨ x.toRat = 0 ∧ (∃ negative, x.pow y = zero negative) ∨
      ∃ (negative : Bool) (mantissa : Nat) (k : Int) (hc : Canonical mantissa k) (numerator : Nat),
        x = finite negative mantissa k hc ∧ mantissa ≠ 0 ∧ x.toRat ≠ 1 ∧ numerator ≠ 0 ∧
        (numerator : Rat) = y.toRat ∧
        x.pow y = if negative && numerator % 2 == 1
          then (powPositive x.abs y ⟨mantissa, k⟩ ⟨false, numerator, 0⟩).neg
          else powPositive x.abs y ⟨mantissa, k⟩ ⟨false, numerator, 0⟩ := by
  have hwhole := hy.isWhole
  obtain ⟨down, n, e, hexponent, rfl, hdivides⟩ := hy
  obtain rfl : down = false := hsign
  obtain ⟨numerator, hofFinite, hnumerator, hvalue⟩ :=
    Exponent.exists_ofFinite false (beq_eq_false_iff_ne.1 hzero) hdivides
  cases x with
  | nan => cases hx
  | infinite negative => cases hx
  | finite negative mantissa k hcanonical =>
    unfold pow
    by_cases hbase : (finite negative mantissa k hcanonical).eq 1 = true
    · have hone := hbase
      rw [eq_of_isFinite rfl isFinite_one, toRat_one, decide_eq_true_eq] at hone
      rw [hbase, Bool.or_true, if_pos rfl]
      exact Or.inl ⟨hone, rfl⟩
    · rw [hzero, Bool.false_or, if_neg hbase]
      dsimp only
      rw [eq_of_isFinite rfl isFinite_one, toRat_one, decide_eq_true_eq] at hbase
      right
      by_cases hmantissa : mantissa = 0
      · subst hmantissa
        rw [if_pos rfl, if_neg Bool.false_ne_true]
        refine Or.inl ⟨?_, _, rfl⟩
        cases negative <;> simp [toRat, scaled_eq]
      · have hodd : (finite false n e hexponent).isOdd = (numerator % 2 == 1) := by
          rw [isOdd, hofFinite]
          rfl
        rw [if_neg hmantissa, hwhole, hodd, hofFinite, Bool.not_true, Bool.and_false,
          if_neg Bool.false_ne_true]
        exact Or.inr ⟨negative, mantissa, k, hcanonical, numerator, rfl, hmantissa, hbase,
          hnumerator, hvalue, rfl⟩

/-- The same for a number from zero to one. -/
theorem pow_cases (hx : x.Between 0 1) (hy : y.IsInteger) (hsign : y.isNegative = false)
    (hzero : y.isZero = false) :
    x.toRat = 1 ∧ x.pow y = 1 ∨ x.toRat = 0 ∧ (∃ negative, x.pow y = zero negative) ∨
      ∃ (mantissa : Nat) (k : Int) (hc : Canonical mantissa k) (numerator : Nat),
        x = finite false mantissa k hc ∧ scaled mantissa k < 1 ∧ numerator ≠ 0 ∧
        (numerator : Rat) = y.toRat ∧
        x.pow y = powPositive x y ⟨mantissa, k⟩ ⟨false, numerator, 0⟩ := by
  rcases pow_whole_cases hx.isFinite hy hsign hzero with hone | hbase |
    ⟨negative, mantissa, k, hc, numerator, rfl, hmantissa, hone, hnumerator, hvalue, hpow⟩
  · exact Or.inl hone
  · exact Or.inr (Or.inl hbase)
  · cases negative with
    | true =>
      have hpositive : 0 < scaled mantissa k := by
        rw [scaled_eq]
        positivity
      have hlow : 0 ≤ -scaled mantissa k := hx.low_le
      linarith
    | false =>
      exact Or.inr (Or.inr ⟨mantissa, k, hc, numerator, rfl, lt_of_le_of_ne hx.le_high hone,
        hnumerator, hvalue, hpow⟩)

/-- A positive whole power of a number from zero to one. -/
theorem between_pow (hx : x.Between 0 1) (hy : y.IsInteger) (hsign : y.isNegative = false)
    (hzero : y.isZero = false) : (x.pow y).Between 0 1 := by
  rcases pow_cases hx hy hsign hzero with
    ⟨-, hpow⟩ | ⟨-, negative, hpow⟩ | ⟨mantissa, k, hc, numerator, -, hlt, hnumerator, -, hpow⟩
  · rw [hpow]
    exact between_one
  · rw [hpow]
    exact between_zero negative le_rfl zero_le_one
  · rw [hpow]
    exact between_powPositive _ _ hc hlt hnumerator

end Binary64

/-- A number from zero to one has every positive whole power. -/
theorem Number.pow_unit {x : Binary64} (hx : x.Between 0 1) {n : Int} (hone : 1 ≤ n)
    (hn : n ≤ Requirement.greatest) :
    (Number.real x).pow n = .ok (.real (x.pow (ofInt n))) ∧ (x.pow (ofInt n)).Between 0 1 := by
  have hrange : n.natAbs ≤ greatest := Requirement.natAbs_le hone hn
  obtain ⟨hinteger, hsign⟩ := ofInt_isInteger hrange
  rw [decide_eq_false (by omega)] at hsign
  have hpower := between_pow hx hinteger hsign (ofInt_isZero hrange (by omega))
  refine ⟨(raise_int x hrange).trans ?_, hpower⟩
  rw [powReal_eq hx.isFinite hinteger hsign, isInfinite_of_isFinite hpower.isFinite,
    if_neg Bool.false_ne_true]

end ExperienceCurves
