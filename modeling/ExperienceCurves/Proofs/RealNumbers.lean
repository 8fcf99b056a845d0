import ExperienceCurves.Proofs.WholeNumbers
import ExperienceCurves.Requirement

/-!
Computations that stay among the real numbers. Sums and products of finite numbers, and powers of
them with whole exponents, may leave the range of the format but always have an order. A
requirement made from such a value lies within the range of requirements.
-/
namespace ExperienceCurves

-- Powers of whole numbers are those of the core library, whatever else is imported.
attribute [local instance (high)] instPowNat

namespace Binary64

open Enclosure

theorem isNan_pack (negative : Bool) (mantissa : Nat) (exponent : Int) :
    (pack negative mantissa exponent).isNan = false := by
  unfold pack
  split
  · rfl
  · split <;> rfl

theorem isNan_ofQuotient (divide : Nat → Nat → Nat) (negative : Bool) (num den : Nat) :
    (ofQuotient divide negative num den).isNan = false := by
  unfold ofQuotient
  split
  · rfl
  · exact isNan_pack _ _ _

theorem isNan_ofRat (negativeZero : Bool) (r : Rat) : (ofRat negativeZero r).isNan = false := by
  unfold ofRat
  split
  · rfl
  · exact isNan_ofQuotient _ _ _ _

theorem isNan_of_isFinite {x : Binary64} (h : x.isFinite = true) : x.isNan = false := by
  cases x with
  | nan => cases h
  | infinite negative => cases h
  | finite negative mantissa exponent hcanonical => rfl

theorem isNan_neg {x : Binary64} (h : x.isNan = false) : x.neg.isNan = false := by
  cases x with
  | nan => cases h
  | infinite negative => rfl
  | finite negative mantissa exponent hcanonical => rfl

theorem isInfinite_of_isFinite {x : Binary64} (h : x.isFinite = true) : x.isInfinite = false := by
  cases x with
  | nan => cases h
  | infinite negative => cases h
  | finite negative mantissa exponent hcanonical => rfl

theorem isFinite_neg {x : Binary64} (h : x.isFinite = true) : x.neg.isFinite = true := by
  cases x with
  | nan => cases h
  | infinite negative => cases h
  | finite negative mantissa exponent hcanonical => rfl

theorem isFinite_of_isNan_of_isInfinite {x : Binary64} (hnan : x.isNan = false)
    (hinfinite : x.isInfinite = false) : x.isFinite = true := by
  cases x with
  | nan => cases hnan
  | infinite negative => cases hinfinite
  | finite negative mantissa exponent hcanonical => rfl

theorem isNan_mul {x y : Binary64} (hx : x.isFinite = true) (hy : y.isFinite = true) :
    (x * y).isNan = false := by
  cases x with
  | nan => cases hx
  | infinite negative => cases hx
  | finite negative mantissa exponent hcanonical =>
    cases y with
    | nan => cases hy
    | infinite negative' => cases hy
    | finite negative' mantissa' exponent' hcanonical' => exact isNan_ofRat _ _

theorem isNan_add {x y : Binary64} (hx : x.isNan = false) (hy : y.isFinite = true) :
    (x + y).isNan = false := by
  cases y with
  | nan => cases hy
  | infinite negative => cases hy
  | finite negative mantissa exponent hcanonical =>
    cases x with
    | nan => cases hx
    | infinite negative' => rfl
    | finite negative' mantissa' exponent' hcanonical' => exact isNan_ofRat _ _

theorem isNan_truncateEndpoint (x : Endpoint) : (truncateEndpoint x).isNan = false := by
  unfold truncateEndpoint ofEndpointBy
  dsimp only
  split
  · rfl
  · split
    · rfl
    · split
      · exact isNan_ofQuotient _ _ _ _
      · exact isNan_ofQuotient _ _ _ _

/-- What holds of the number next to each lower end holds of the magnitude below. -/
theorem below_spec {P : Binary64 → Prop} {bracket : Nat → Bracket} {precisions : List Nat}
    (hne : precisions ≠ []) (h : ∀ bits ∈ precisions, P (truncateEndpoint (bracket bits).lower)) :
    P (below bracket precisions).1 := by
  induction precisions with
  | nil => exact absurd rfl hne
  | cons bits finer ih =>
    unfold below
    dsimp only
    split
    · exact h bits List.mem_cons_self
    · next hopen =>
      rw [not_or] at hopen
      exact ih hopen.1 fun finest hfinest => h finest (List.mem_cons_of_mem bits hfinest)

theorem isNan_ofEncoding (n : Nat) : (ofEncoding n).isNan = false := by
  unfold ofEncoding
  split
  · exact isNan_pack _ _ _
  · exact isNan_pack _ _ _

theorem isNan_away {x : Binary64} (h : x.isNan = false) : x.away.isNan = false := by
  cases x with
  | nan => cases h
  | infinite negative => rfl
  | finite negative mantissa exponent hcanonical =>
    unfold away
    dsimp only
    split
    · exact isNan_neg (isNan_ofEncoding _)
    · exact isNan_ofEncoding _

theorem isNan_powPositive (x y : Binary64) (base : Endpoint) (exponent : Exponent) :
    (powPositive x y base exponent).isNan = false := by
  unfold powPositive
  generalize takeRoots base exponent.negative exponent.numerator exponent.halvings = rooted
  obtain ⟨root, rest⟩ := rooted
  dsimp only
  have hbelow : (below (fun bits => powerBracket bits root rest) workingBits).1.isNan = false :=
    below_spec (P := fun x => x.isNan = false) (by decide) fun _ _ => isNan_truncateEndpoint _
  generalize below (fun bits => powerBracket bits root rest) workingBits = found at hbelow ⊢
  obtain ⟨magnitude, isExact⟩ := found
  dsimp only
  split
  · exact hbelow
  · split
    · next hguess => exact hguess ▸ isNan_away hbelow
    · exact hbelow

/-- A finite number has every whole power. -/
theorem isNan_pow {x y : Binary64} (hx : x.isFinite = true) (hy : y.IsInteger) :
    (x.pow y).isNan = false := by
  have hwhole := hy.isWhole
  obtain ⟨down, n, e, hcanonical', rfl, -⟩ := hy
  cases x with
  | nan => cases hx
  | infinite negative => cases hx
  | finite negative mantissa exponent hcanonical =>
    unfold pow
    split
    · exact isNan_ofQuotient Rounding.halfEven false 1 1
    · dsimp only
      rw [hwhole]
      split
      · split <;> rfl
      · simp only [Bool.not_true, Bool.and_false, Bool.false_eq_true, if_false]
        split
        · exact isNan_neg (isNan_powPositive _ _ _ _)
        · exact isNan_powPositive _ _ _ _

end Binary64

namespace Number

open Binary64

/-- A power with a whole exponent that is not negative is too large only if it is infinite. -/
theorem powReal_eq {x y : Binary64} (hx : x.isFinite = true) (hy : y.IsInteger)
    (hnegative : y.isNegative = false) :
    powReal x y =
      if (x.pow y).isInfinite then .error .powerTooLarge else .ok (.real (x.pow y)) := by
  have hcomplex : isComplexPower x y = false := by
    rw [isComplexPower, hy.den_toRat]
    simp
  unfold powReal
  rw [hcomplex, hnegative, hx, hy.isFinite]
  simp only [Bool.and_false, Bool.false_and, Bool.and_true, Bool.false_eq_true, if_false]

theorem powReal_cases {x y : Binary64} (hx : x.isFinite = true) (hy : y.IsInteger)
    (hnegative : y.isNegative = false) :
    powReal x y = .error .powerTooLarge ∧ (x.pow y).isInfinite = true ∨
      powReal x y = .ok (.real (x.pow y)) ∧ (x.pow y).isFinite = true := by
  rw [powReal_eq hx hy hnegative]
  cases hlarge : (x.pow y).isInfinite with
  | true => exact Or.inl ⟨rfl, rfl⟩
  | false => exact Or.inr ⟨rfl, isFinite_of_isNan_of_isInfinite (isNan_pow hx hy) hlarge⟩

theorem raise_int (x : Binary64) {n : Int} (h : n.natAbs ≤ greatest) :
    (Number.real x).raise (.int n) = powReal x (ofInt n) := by
  change (ofInt? n >>= fun power => powReal x power) = powReal x (ofInt n)
  rw [ofInt?_eq_ok h]
  rfl

/-- A power of a finite number with a whole exponent that is not negative is finite or leaves the
range, however large the exponent is. -/
theorem raise_cases {x : Binary64} (hx : x.isFinite = true) {n : Int} (hn : 0 ≤ n) :
    (∃ fault, (Number.real x).raise (.int n) = .error fault ∧ fault.isOverflow = true) ∨
      ∃ z, (Number.real x).raise (.int n) = .ok (.real z) ∧ z.isFinite = true := by
  have hraise : (Number.real x).raise (.int n) = ofInt? n >>= powReal x := rfl
  rw [hraise]
  cases hpower : ofInt? n with
  | error fault =>
    obtain rfl := ofInt?_error hpower
    exact Or.inl ⟨_, rfl, rfl⟩
  | ok y =>
    obtain ⟨hinteger, hsign⟩ := isInteger_of_ofInt? hpower
    rw [decide_eq_false (by omega)] at hsign
    rcases powReal_cases hx hinteger hsign with ⟨hlarge, -⟩ | ⟨hpower, hfinite⟩
    · exact Or.inl ⟨_, hlarge, rfl⟩
    · exact Or.inr ⟨_, hpower, hfinite⟩

section Combine

variable {exact : Int → Int → Except Fault Number}
  {rounded : Binary64 → Binary64 → Except Fault Number} {m n : Number}

/-- An operation on numbers of which one is binary rounds both. -/
theorem combine_eq (hreal : (∃ x, m = .real x) ∨ ∃ y, n = .real y) :
    combine exact rounded m n =
      m.toBinary64 >>= fun left => n.toBinary64 >>= fun right => rounded left right := by
  rcases hreal with ⟨x, rfl⟩ | ⟨y, rfl⟩
  · cases n <;> rfl
  · cases m <;> rfl

theorem combine_binary {x y : Binary64} (hm : m.toBinary64 = .ok x) (hn : n.toBinary64 = .ok y)
    (hreal : m = .real x ∨ n = .real y) : combine exact rounded m n = rounded x y := by
  rw [combine_eq (hreal.imp (⟨x, ·⟩) (⟨y, ·⟩)), hm, hn]
  rfl

end Combine

theorem mul_real {m : Number} {x : Binary64} (hm : m.toBinary64 = .ok x) (y : Binary64) :
    m.mul (.real y) = .ok (.real (x * y)) :=
  combine_binary hm rfl (Or.inr rfl)

def IsReal (n : Number) : Prop := ∃ x, n = .real x

section Combine

variable {exact : Int → Int → Except Fault Number}
  {rounded : Binary64 → Binary64 → Except Fault Number} {m n result : Number}

theorem isReal_combine_left (hrounded : ∀ x y z, rounded x y = .ok z → z.IsReal) (hm : m.IsReal)
    (h : combine exact rounded m n = .ok result) : result.IsReal := by
  obtain ⟨x, rfl⟩ := hm
  have hunfold : combine exact rounded (.real x) n = n.plain.toBinary64 >>= rounded x := by
    cases n <;> rfl
  rw [hunfold] at h
  obtain ⟨y, -, h⟩ := Outcome.bind_eq_ok_iff.1 h
  exact hrounded x y result h

theorem isReal_combine_right (hrounded : ∀ x y z, rounded x y = .ok z → z.IsReal) (hn : n.IsReal)
    (h : combine exact rounded m n = .ok result) : result.IsReal := by
  obtain ⟨y, rfl⟩ := hn
  have hunfold : combine exact rounded m (.real y) = m.plain.toBinary64 >>= (rounded · y) := by
    cases m <;> rfl
  rw [hunfold] at h
  obtain ⟨x, -, h⟩ := Outcome.bind_eq_ok_iff.1 h
  exact hrounded x y result h

end Combine

variable {m n result : Number}

theorem isReal_of_ok {f : Binary64 → Binary64 → Binary64} (x y : Binary64) (z : Number)
    (h : (Except.ok (Number.real (f x y)) : Except Fault Number) = .ok z) : z.IsReal :=
  ⟨f x y, (Except.ok.inj h).symm⟩

theorem isReal_add_left (hm : m.IsReal) (h : m.add n = .ok result) : result.IsReal :=
  isReal_combine_left isReal_of_ok hm h

theorem isReal_add_right (hn : n.IsReal) (h : m.add n = .ok result) : result.IsReal :=
  isReal_combine_right isReal_of_ok hn h

theorem isReal_sub_left (hm : m.IsReal) (h : m.sub n = .ok result) : result.IsReal :=
  isReal_combine_left isReal_of_ok hm h

theorem isReal_sub_right (hn : n.IsReal) (h : m.sub n = .ok result) : result.IsReal :=
  isReal_combine_right isReal_of_ok hn h

theorem isReal_mul_left (hm : m.IsReal) (h : m.mul n = .ok result) : result.IsReal :=
  isReal_combine_left isReal_of_ok hm h

theorem isReal_mul_right (hn : n.IsReal) (h : m.mul n = .ok result) : result.IsReal :=
  isReal_combine_right isReal_of_ok hn h

theorem isReal_max (hm : m.IsReal) (hn : n.IsReal) : (m.max n).IsReal := by
  unfold Number.max
  split
  · exact hn
  · exact hm

theorem isReal_min (hm : m.IsReal) (hn : n.IsReal) : (m.min n).IsReal := by
  unfold Number.min
  split
  · exact hn
  · exact hm

theorem lt_int_real (n : Int) {x : Binary64} (h : x.isFinite = true) :
    (Number.int n).lt (.real x) = decide ((n : Rat) < x.toRat) := by
  cases x with
  | nan => cases h
  | infinite negative => cases h
  | finite negative mantissa exponent hcanonical => rfl

theorem lt_real_int {x : Binary64} (n : Int) (h : x.isFinite = true) :
    (Number.real x).lt (.int n) = decide (x.toRat < (n : Rat)) := by
  cases x with
  | nan => cases h
  | infinite negative => cases h
  | finite negative mantissa exponent hcanonical => rfl

theorem floor_real {x : Binary64} (h : x.isFinite = true) :
    (Number.real x).floor = .ok x.toRat.floor := by
  cases x with
  | nan => cases h
  | infinite negative => cases h
  | finite negative mantissa exponent hcanonical => rfl

theorem not_lt_of_not_le {x y : Number} (h : ¬ x.le y = true) : x.lt y = false := by
  rw [Number.le, Bool.or_eq_true, not_or, Bool.not_eq_true] at h
  exact h.1

end Number

namespace Requirement

open Binary64

/-- A requirement within the range. -/
def InRange (exp : Int) : Prop := -greatest ≤ exp ∧ exp ≤ greatest

theorem greatest_pos : 0 < greatest := by decide +kernel

/-- What has an order is rounded down into the range. -/
theorem saturate_real {x : Binary64} (h : x.isNan = false) :
    ∃ exp, saturate (.real x) = .ok exp ∧ InRange exp := by
  have hpositive := greatest_pos
  unfold saturate
  by_cases hhigh : (Number.int greatest).le (.real x) = true
  · rw [if_pos hhigh]
    exact ⟨greatest, rfl, by omega, Int.le_refl _⟩
  · rw [if_neg hhigh]
    by_cases hlow : (Number.real x).le (.int (-greatest)) = true
    · rw [if_pos hlow]
      exact ⟨-greatest, rfl, Int.le_refl _, by omega⟩
    · rw [if_neg hlow]
      have hbelow := Number.not_lt_of_not_le hhigh
      have habove := Number.not_lt_of_not_le hlow
      -- An infinity would have met one of the ends.
      have hfinite : x.isFinite = true := by
        cases x with
        | nan => cases h
        | infinite negative => cases negative with
          | false => cases hbelow
          | true => cases habove
        | finite negative mantissa exponent hcanonical => rfl
      rw [Number.lt_int_real _ hfinite, decide_eq_false_iff_not, Rat.not_lt] at hbelow
      rw [Number.lt_real_int _ hfinite, decide_eq_false_iff_not, Rat.not_lt] at habove
      have hfloor := Rat.floor_monotone hbelow
      rw [Rat.floor_intCast] at hfloor
      exact ⟨x.toRat.floor, Number.floor_real hfinite, Rat.le_floor_iff.2 habove, hfloor⟩

/-- A rounded requirement lies within the range, whatever it was made from. -/
theorem inRange_of_saturate {x : Binary64} {exp : Int} (h : saturate (.real x) = .ok exp) :
    InRange exp := by
  cases hnan : x.isNan with
  | true =>
    cases x with
    | nan => cases h
    | infinite negative => cases hnan
    | finite negative mantissa exponent hcanonical => cases hnan
  | false =>
    obtain ⟨exp', hsaturate, hrange⟩ := saturate_real hnan
    obtain rfl := Except.ok.inj (hsaturate.symm.trans h)
    exact hrange

end Requirement

end ExperienceCurves
