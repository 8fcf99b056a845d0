import ExperienceCurves.Proofs.DisplayData
import ExperienceCurves.Proofs.Dragging
import ExperienceCurves.Proofs.NumberOrder
import ExperienceCurves.Proofs.RoundingOrder

/-!
When drags leave their own failures. A drag rounds the level it is told to a whole number and
compares it with the facing level of a neighbour, and a control point is measured in the extent of
its segment. The first fails for a level that is not finite, the others for whole levels beyond all
binary numbers, and nothing else does.
-/
namespace ExperienceCurves

-- Powers of whole numbers are those of the core library, whatever else is imported.
attribute [local instance (high)] instPowNat

namespace Outcome

/-- The computation fails, and not in one of the ways that are its own. -/
def Strays {α : Type} (own : Failure → Prop) (x : Outcome α) : Prop :=
  ∃ failure, x = .error failure ∧ ¬own failure

variable {α β : Type} {own : Failure → Prop}

theorem not_strays_ok (a : α) : ¬Strays own (.ok a) := fun ⟨_, h, _⟩ => nomatch h

theorem not_strays_pure (a : α) : ¬Strays own (pure a) := not_strays_ok a

theorem strays_error_iff {failure : Failure} :
    Strays own (.error failure : Outcome α) ↔ ¬own failure := by
  simp [Strays]

theorem strays_bind_iff {x : Outcome α} {f : α → Outcome β} :
    Strays own (x >>= f) ↔ Strays own x ∨ ∃ a, x = .ok a ∧ Strays own (f a) := by
  cases x with
  | error failure => simp [Strays, bind, Except.bind]
  | ok a => simp [Strays, bind, Except.bind]

theorem strays_map_iff {x : Outcome α} {f : α → β} : Strays own (f <$> x) ↔ Strays own x := by
  cases x with
  | error failure => simp [Strays, Functor.map, Except.map]
  | ok a => simp [Strays, Functor.map, Except.map]

theorem strays_return_iff {x : Outcome α} {f : α → β} :
    Strays own (x >>= fun a => pure (f a)) ↔ Strays own x := by
  rw [strays_bind_iff]
  exact or_iff_left fun ⟨a, _, h⟩ => not_strays_pure (f a) h

theorem strays_liftM_iff (hown : ∀ fault, ¬own (.arithmetic fault)) {x : Except Fault α} :
    Strays own (liftM x) ↔ ∃ fault, x = .error fault := by
  cases x with
  | error fault => exact ⟨fun _ => ⟨fault, rfl⟩, fun _ => ⟨_, rfl, hown fault⟩⟩
  | ok a => exact ⟨fun h => absurd h (not_strays_ok a), fun ⟨_, h⟩ => nomatch h⟩

/-- A failure of its own strays only as its message is written. -/
theorem strays_written_iff {failure : Failure} (hlong : ¬own (.refused .tooLongInDigits))
    (hown : own failure) :
    Strays own (.error failure.written : Outcome α) ↔ failure.IsLong := by
  rw [strays_error_iff]
  by_cases h : failure.IsLong
  · rw [Failure.written_of_isLong h]
    exact iff_of_true hlong h
  · rw [Failure.written_of_not_isLong h]
    exact iff_of_false (not_not_intro hown) h

end Outcome

/-- A number too large for a binary number. -/
def Number.OutOfRange (n : Number) : Prop := ∃ fault, n.toBinary64 = .error fault

namespace Binary64

theorem isInfinite_ofInt (n : Int) : (ofInt n.natAbs).isInfinite = (ofInt n).isInfinite := by
  have hpack (negative : Bool) (mantissa : Nat) (exponent : Int) :
      (pack negative mantissa exponent).isInfinite = (pack false mantissa exponent).isInfinite := by
    unfold pack
    split
    · rfl
    · split <;> rfl
  unfold ofInt nearest ofQuotient
  rw [Int.natAbs_natCast]
  split
  · rfl
  · dsimp only
    rw [hpack, ← hpack (decide (n < 0))]

/-- The greatest number of the format. -/
def largest : Binary64 := finite false (2 ^ (fractionBits + 1) - 1) 971 (by decide)

theorem toRat_largest : largest.toRat = greatest := scaled_greatest

/-- There is no other number as close to the greatest one. -/
theorem eq_largest_of_lt {x : Binary64} (hx : x.isFinite = true)
    (h : (greatest : Rat) - 1 < x.toRat) : x = largest := by
  cases x with
  | nan => cases hx
  | infinite negative => cases hx
  | finite negative mantissa exponent hcanonical =>
    obtain ⟨hmantissa, -, hexponent, -⟩ := id hcanonical
    have hwidth : fractionBits = 52 := rfl
    have hunit : (1 : Rat) ≤ 2 ^ (971 : Int) := one_le_zpow₀ one_le_two (by norm_num)
    have hgreatest : (greatest : Rat) = 9007199254740991 * 2 ^ (971 : Int) := by
      rw [← scaled_greatest, scaled_eq]
      norm_num
    have hsmall (h : exponent < 971) :
        scaled mantissa exponent < 4503599627370496 * 2 ^ (971 : Int) := by
      have hless := scaled_lt_full h hmantissa
      norm_num at hless
      exact hless
    have hlast (h : exponent = 971) : scaled mantissa exponent = mantissa * 2 ^ (971 : Int) := by
      rw [h, scaled_eq]
    generalize (2 : Rat) ^ (971 : Int) = unit at hunit hgreatest hsmall hlast
    cases negative with
    | true =>
      have hnegative : (finite true mantissa exponent hcanonical).toRat ≤ 0 :=
        neg_nonpos.2 (scaled_nonneg mantissa exponent)
      linarith
    | false =>
      change (greatest : Rat) - 1 < scaled mantissa exponent at h
      rcases hexponent.lt_or_eq with hlower | rfl
      · have hless := hsmall hlower
        linarith
      · rw [hlast rfl, hgreatest] at h
        obtain rfl : mantissa = 2 ^ (fractionBits + 1) - 1 := by
          by_contra hne
          have hless : mantissa ≤ 9007199254740990 := by
            rw [hwidth] at hmantissa hne
            omega
          have hless' : (mantissa : Rat) ≤ 9007199254740990 := by exact_mod_cast hless
          have hproduct := mul_le_mul_of_nonneg_right hless' (zero_le_one.trans hunit)
          linarith
        rfl

/-- A half more does not leave the range. -/
theorem isFinite_add_half {x : Binary64} (hx : x.isFinite = true) :
    (x + decimal 5 1).isFinite = true := by
  have hhalf : (decimal 5 1).toRat = 1 / 2 := by decide +kernel
  have hgreatest : Exact (greatest : Rat) := ⟨largest, rfl, toRat_largest⟩
  rcases le_or_gt (x.toRat + (decimal 5 1).toRat) greatest with hle | hgt
  · refine (between_add hx (by decide +kernel) hgreatest.neg hgreatest ?_ hle).isFinite
    have hlow := toRat_le (isFinite_neg hx)
    rw [toRat_neg] at hlow
    linarith
  · obtain rfl := eq_largest_of_lt hx (by linarith)
    decide +kernel

end Binary64

open Binary64

namespace Number

variable {n : Number}

/-- Computing with a binary number fails where the other number is out of range. -/
theorem combine_real (exact : Int → Int → Except Fault Number)
    (rounded : Binary64 → Binary64 → Except Fault Number) (x : Binary64) (n : Number) :
    combine exact rounded (.real x) n = n.toBinary64 >>= rounded x :=
  combine_eq (Or.inl ⟨x, rfl⟩)

theorem toBinary64_cases (n : Number) : n.OutOfRange ∨ ∃ x, n.toBinary64 = .ok x := by
  unfold OutOfRange
  cases n.toBinary64 with
  | error fault => exact Or.inl ⟨fault, rfl⟩
  | ok x => exact Or.inr ⟨x, rfl⟩

theorem not_outOfRange {x : Binary64} (h : n.toBinary64 = .ok x) : ¬n.OutOfRange := by
  rintro ⟨fault, hfault⟩
  cases h.symm.trans hfault

/-- Computing within the range of binary numbers does not fail. -/
theorem exists_combine {exact : Int → Int → Except Fault Number}
    {rounded : Binary64 → Binary64 → Except Fault Number} {m : Number}
    (hexact : ∀ i j, ∃ result, exact i j = .ok result)
    (hrounded : ∀ x y, ∃ result, rounded x y = .ok result) (hm : ¬m.OutOfRange)
    (hn : ¬n.OutOfRange) : ∃ result, combine exact rounded m n = .ok result := by
  obtain ⟨x, hx⟩ := m.toBinary64_cases.resolve_left hm
  obtain ⟨y, hy⟩ := n.toBinary64_cases.resolve_left hn
  obtain ⟨result, hresult⟩ := hrounded x y
  rcases plain_cases m with ⟨i, hi⟩ | ⟨b, rfl, -⟩
  · rcases plain_cases n with ⟨j, hj⟩ | ⟨b, rfl, -⟩
    · obtain ⟨whole, hwhole⟩ := hexact i j
      refine ⟨whole, ?_⟩
      unfold combine
      rw [hi, hj]
      exact hwhole
    · exact ⟨result, (combine_binary hx hy (Or.inr (congrArg real (Except.ok.inj hy)))).trans
        hresult⟩
  · exact ⟨result, (combine_binary hx hy (Or.inl (congrArg real (Except.ok.inj hx)))).trans hresult⟩

theorem sub_outOfRange (x : Binary64) (h : n.OutOfRange) :
    ∃ fault, (Number.real x).sub n = .error fault := by
  obtain ⟨fault, hfault⟩ := h
  exact ⟨fault, by rw [sub, combine_real, hfault]; rfl⟩

theorem sub_real (x : Binary64) {y : Binary64} (h : n.toBinary64 = .ok y) :
    (Number.real x).sub n = .ok (.real (x - y)) := by
  rw [sub, combine_real, h]
  rfl

theorem div_outOfRange (x : Binary64) (h : n.OutOfRange) :
    ∃ fault, (Number.real x).div n = .error fault := by
  obtain ⟨fault, hfault⟩ := h
  exact ⟨fault, by rw [div, combine_real, hfault]; rfl⟩

theorem div_real (x : Binary64) {y : Binary64} (h : n.toBinary64 = .ok y)
    (hy : y.isZero = false) : (Number.real x).div n = .ok (.real (x / y)) := by
  rw [div, combine_real, h]
  exact if_neg (by rw [hy]; decide)

/-- What is not zero has no zero as its binary number. -/
theorem isZero_of_toBinary64 {y : Binary64} (h : n.toBinary64 = .ok y) (hn : n.isZero = false) :
    y.isZero = false := by
  cases n with
  | truth b =>
    cases b with
    | false => cases hn
    | true => exact isZero_of_ofInt? (n := 1) h one_ne_zero
  | int m => exact isZero_of_ofInt? h (beq_eq_false_iff_ne.1 hn)
  | real x =>
    obtain rfl := Except.ok.inj h
    exact hn

end Number

namespace Editing

theorem roundLevel_fails {x : Binary64} (h : x.isFinite = false) :
    ∃ fault, roundLevel (.real x) = .error fault := by
  cases x with
  | nan => exact ⟨.nanAsInteger, rfl⟩
  | infinite negative => exact ⟨.infinityAsInteger, rfl⟩
  | finite negative mantissa exponent hcanonical => cases h

theorem roundLevel_of_toBinary64 {level : Number} {x : Binary64} (hlevel : level.toBinary64 = .ok x)
    (h : x.isFinite = true) : roundLevel level = .ok (x + decimal 5 1).toRat.floor := by
  have hsum : level.add (.real (decimal 5 1)) = .ok (.real (x + decimal 5 1)) :=
    Number.combine_binary hlevel rfl (Or.inr rfl)
  unfold roundLevel
  rw [hsum]
  exact Number.floor_real (isFinite_add_half h)

theorem roundLevel_finite {x : Binary64} (h : x.isFinite = true) :
    roundLevel (.real x) = .ok (x + decimal 5 1).toRat.floor := roundLevel_of_toBinary64 rfl h

/-- How close to a neighbour a boundary joins it, in numbers. -/
def Snap.IsNumeric (snap : Snap) : Prop :=
  (∃ n, snap.levels = .number n) ∧ ∃ x, snap.expRatio = .real x

theorem usualSnap_isNumeric : usualSnap.IsNumeric := ⟨⟨_, rfl⟩, _, rfl⟩

/-- The magnitude of a number with a binary number has one. -/
theorem exists_toBinary64_abs {n : Number} {x : Binary64} (h : n.toBinary64 = .ok x) :
    ∃ y, n.abs.toBinary64 = .ok y := by
  have hwhole {m : Int} (hm : ofInt? m = .ok x) : ∃ y, ofInt? m.natAbs = .ok y := by
    unfold ofInt? at hm ⊢
    dsimp only at hm ⊢
    rw [isInfinite_ofInt]
    split at hm
    · cases hm
    · next hfinite => exact ⟨_, if_neg hfinite⟩
  cases n with
  | truth b => exact hwhole h
  | int m => exact hwhole h
  | real y => exact ⟨y.abs, rfl⟩

theorem isNear_ok {snap : Snap} (hsnap : snap.IsNumeric) {x y : Binary64} {exp : Option Number}
    {targetLevel : Number} {targetExp : Option Number} (hexp : ∀ e ∈ exp, e.IsReal)
    (htarget : ∀ e ∈ targetExp, e.IsAmount) (hlevel : targetLevel.toBinary64 = .ok y) :
    ∃ near, isNear snap (.real x) exp targetLevel targetExp = .ok near := by
  obtain ⟨⟨threshold, hlevels⟩, ratio, hratio⟩ := hsnap
  unfold isNear
  rw [Number.sub_real x hlevel, hlevels, hratio]
  simp only [bind, Except.bind, Datum.holds]
  split
  · exact ⟨false, rfl⟩
  · split
    · next e t =>
      obtain ⟨e, rfl⟩ := hexp e rfl
      obtain ⟨t', ht, -⟩ := htarget t rfl
      obtain ⟨size, hsize⟩ := exists_toBinary64_abs ht
      have hshare : (Datum.real ratio).mul (.number t.abs) = .ok (.real (ratio * size)) := by
        change Datum.number <$> Number.mul (.real ratio) t.abs = _
        rw [Number.mul, Number.combine_real, hsize]
        rfl
      obtain ⟨limit, hlimit⟩ : ∃ limit, (Datum.number Curve.usualTolerance).max
          (.real (ratio * size)) = .ok (.number limit) := by
        simp only [Datum.max, Datum.holds, Datum.real, bind, Except.bind]
        split <;> exact ⟨_, rfl⟩
      rw [hshare, Number.sub_real e ht]
      simp only [hlimit]
      exact ⟨_, rfl⟩
    · exact ⟨true, rfl⟩

/-- A level can be compared with all but those that are out of range. -/
theorem isNear_fails_iff {snap : Snap} (hsnap : snap.IsNumeric) {x : Binary64} {exp : Option Number}
    {targetLevel : Number} {targetExp : Option Number} (hexp : ∀ e ∈ exp, e.IsReal)
    (htarget : ∀ e ∈ targetExp, e.IsAmount) :
    (∃ fault, isNear snap (.real x) exp targetLevel targetExp = .error fault) ↔
      targetLevel.OutOfRange := by
  rcases targetLevel.toBinary64_cases with hlarge | ⟨y, hy⟩
  · refine ⟨fun _ => hlarge, fun _ => ?_⟩
    obtain ⟨fault, hfault⟩ := Number.sub_outOfRange x hlarge
    refine ⟨fault, ?_⟩
    unfold isNear
    rw [hfault]
    rfl
  · obtain ⟨near, hnear⟩ := isNear_ok (x := x) hsnap hexp htarget hy
    rw [hnear]
    exact ⟨fun ⟨_, h⟩ => (nomatch h), fun h => absurd h (Number.not_outOfRange hy)⟩

variable {snap : Snap} {x y : Binary64} {lower upper : Int} {hasExp : Bool}
  {neighbour : Option (Number × Option Number)}

/-- What a boundary meets: a neighbour with a requirement, if it has one. -/
def FacesAmounts (neighbour : Option (Number × Option Number)) : Prop :=
  ∀ facing ∈ neighbour, ∀ exp ∈ facing.2, exp.IsAmount

/-- A boundary that is moved to a finite level goes to the nearest level of its room, or onto its
neighbour. -/
theorem moveBoundary_of_toBinary64 {level exp : Number} (hlevel : level.toBinary64 = .ok x)
    (hx : x.isFinite = true) :
    moveBoundary snap ⟨.number level, .number exp⟩ (.int lower) (.int upper) hasExp neighbour =
      let moved : Number := .int (max lower (min upper (x + decimal 5 1).toRat.floor))
      let exp := if hasExp then some ((Number.real 0).max exp) else none
      match neighbour with
      | none => .ok (moved, exp)
      | some facing => liftM (isNear snap level exp facing.1 facing.2) >>= fun near =>
          if near && (Number.int lower).le facing.1 && facing.1.le (.int upper) then
            .ok (facing.1, if hasExp then facing.2.orElse fun _ => exp else exp)
          else .ok (moved, exp) := by
  unfold moveBoundary
  simp only [Datum.toNumber, bind, Except.bind, roundLevel_of_toBinary64 hlevel hx,
    Outcome.liftM_ok, clamp_int, Number.truncate_int]
  cases hasExp <;> cases neighbour <;> rfl

theorem moveBoundary_finite (hx : x.isFinite = true) :
    moveBoundary snap ⟨.real x, .real y⟩ (.int lower) (.int upper) hasExp neighbour =
      let moved : Number := .int (max lower (min upper (x + decimal 5 1).toRat.floor))
      let exp := if hasExp then some ((Number.real 0).max (.real y)) else none
      match neighbour with
      | none => .ok (moved, exp)
      | some facing => liftM (isNear snap (.real x) exp facing.1 facing.2) >>= fun near =>
          if near && (Number.int lower).le facing.1 && facing.1.le (.int upper) then
            .ok (facing.1, if hasExp then facing.2.orElse fun _ => exp else exp)
          else .ok (moved, exp) := moveBoundary_of_toBinary64 rfl hx

theorem moveBoundary_infinite (snap : Snap) (y : Binary64) (lower upper : Int) (hasExp : Bool)
    (neighbour : Option (Number × Option Number)) (hx : x.isFinite = false) : ∃ fault : Fault,
    moveBoundary snap ⟨.real x, .real y⟩ (.int lower) (.int upper) hasExp neighbour =
      .error (.arithmetic fault) := by
  obtain ⟨fault, hfault⟩ := roundLevel_fails hx
  refine ⟨fault, ?_⟩
  unfold moveBoundary
  simp only [Datum.toNumber, Datum.real, bind, Except.bind, hfault]
  rfl

variable {own : Failure → Prop}

/-- Which neighbours a finite level can be compared with. -/
theorem strays_moveBoundary_iff (hown : ∀ fault, ¬own (.arithmetic fault)) (hsnap : snap.IsNumeric)
    (hfacing : FacesAmounts neighbour) :
    Outcome.Strays own (moveBoundary snap ⟨.real x, .real y⟩ (.int lower) (.int upper) hasExp
      neighbour) ↔ x.isFinite = false ∨ ∃ facing ∈ neighbour, facing.1.OutOfRange := by
  cases hx : x.isFinite with
  | false =>
    obtain ⟨fault, hfault⟩ := moveBoundary_infinite snap y lower upper hasExp neighbour hx
    rw [hfault, Outcome.strays_error_iff]
    exact ⟨fun _ => Or.inl rfl, fun _ => hown fault⟩
  | true =>
    rw [moveBoundary_finite hx]
    cases neighbour with
    | none => simp [Outcome.not_strays_ok]
    | some facing =>
      have hexp : ∀ e ∈
          (if hasExp then some ((Number.real 0).max (.real y)) else none : Option Number),
          e.IsReal := by
        intro e he
        split at he
        · obtain rfl := Option.some.inj he
          exact Number.isReal_max ⟨0, rfl⟩ ⟨y, rfl⟩
        · cases he
      have hsettled (near : Bool) (joined moved : Number × Option Number) (p : Bool) :
          ¬Outcome.Strays own (if near && p then .ok joined else .ok moved : Outcome _) := by
        split <;> exact Outcome.not_strays_ok _
      simp only [Outcome.strays_bind_iff, Outcome.strays_liftM_iff hown, Bool.and_assoc, hsettled,
        isNear_fails_iff hsnap hexp (hfacing facing rfl), and_false, exists_false, or_false,
        Bool.true_eq_false, false_or, Option.mem_some, exists_eq_left']

/-- A boundary is moved to the nearest level of its room, or onto a neighbour inside it. -/
theorem moveBoundary_placed {level : Number} {exp : Option Number} (h : moveBoundary snap
      ⟨.real x, .real y⟩ (.int lower) (.int upper) hasExp neighbour = .ok (level, exp)) :
    (∃ nearest, roundLevel (.real x) = .ok nearest ∧
      level = .int (max lower (min upper nearest))) ∨
    ∃ facing ∈ neighbour, (Number.int lower).le facing.1 = true ∧
      facing.1.le (.int upper) = true ∧ level = facing.1 := by
  cases hx : x.isFinite with
  | false =>
    obtain ⟨fault, hfault⟩ := moveBoundary_infinite snap y lower upper hasExp neighbour hx
    cases hfault.symm.trans h
  | true =>
    have hrounded := roundLevel_finite hx
    rw [moveBoundary_finite hx] at h
    cases neighbour with
    | none => exact Or.inl ⟨_, hrounded, (Prod.mk.inj (Except.ok.inj h)).1.symm⟩
    | some facing =>
      obtain ⟨near, -, h⟩ := Outcome.bind_eq_ok_iff.1 h
      split at h
      · next hjoin =>
        simp only [Bool.and_eq_true] at hjoin
        exact Or.inr ⟨facing, rfl, hjoin.1.2, hjoin.2, (Prod.mk.inj (Except.ok.inj h)).1.symm⟩
      · exact Or.inl ⟨_, hrounded, (Prod.mk.inj (Except.ok.inj h)).1.symm⟩

/-- A point is placed in an extent unless the one or the other is out of range. -/
theorem strays_place_iff (hown : ∀ fault, ¬own (.arithmetic fault)) {base extent low high : Number}
    (hlow : low.IsReal) (hhigh : high.IsReal) (hextent : extent.isZero = false) (x : Binary64) :
    Outcome.Strays own (do
      let offset ← (← (Datum.real x).toNumber).sub base
      (CubicBezier.clamp low high (← offset.div extent)).toBinary64 : Outcome Binary64) ↔
    base.OutOfRange ∨ extent.OutOfRange := by
  change Outcome.Strays own ((liftM ((Number.real x).sub base) : Outcome Number) >>= fun offset =>
    (liftM (offset.div extent) : Outcome Number) >>= fun ratio =>
      (liftM (CubicBezier.clamp low high ratio).toBinary64 : Outcome Binary64)) ↔ _
  rcases base.toBinary64_cases with hlarge | ⟨b, hb⟩
  · refine ⟨fun _ => Or.inl hlarge, fun _ => ?_⟩
    exact Outcome.strays_bind_iff.2 (Or.inl ((Outcome.strays_liftM_iff hown).2
      (Number.sub_outOfRange x hlarge)))
  rw [Number.sub_real x hb]
  rcases extent.toBinary64_cases with hlarge | ⟨e, he⟩
  · refine ⟨fun _ => Or.inr hlarge, fun _ => ?_⟩
    exact Outcome.strays_bind_iff.2 (Or.inr ⟨_, rfl, Outcome.strays_bind_iff.2 (Or.inl
      ((Outcome.strays_liftM_iff hown).2 (Number.div_outOfRange (x - b) hlarge)))⟩)
  · refine ⟨fun h => ?_, ?_⟩
    · obtain ⟨ratio, hratio⟩ := CubicBezier.isReal_clamp hlow hhigh
        (⟨_, rfl⟩ : (Number.real ((x - b) / e)).IsReal)
      simp only [Outcome.liftM_ok, bind, Except.bind,
        Number.div_real (x - b) he (Number.isZero_of_toBinary64 he hextent), hratio] at h
      exact absurd h (Outcome.not_strays_ok ratio)
    · rintro (hlarge | hlarge)
      · exact absurd hlarge (Number.not_outOfRange hb)
      · exact absurd hlarge (Number.not_outOfRange he)

end Editing

namespace Number

/-- A whole amount is a number of the format, so the largest one bounds it. -/
theorem IsAmount.plain_cases {n : Number} (h : n.IsAmount) :
    (∃ x, n = .real x) ∨ ∃ m : Int, n.plain = .int m ∧ 0 ≤ m ∧ m ≤ greatest := by
  obtain ⟨x, hx, hsign, hexact⟩ := h
  cases n with
  | real y => exact Or.inl ⟨y, rfl⟩
  | truth b => exact Or.inr ⟨_, rfl, by cases b <;> decide, by cases b <;> decide +kernel⟩
  | int m =>
    have hfinite := (isInteger_of_ofInt? hx).1.isFinite
    have hvalue : (m : Rat) = x.toRat := by
      have heq := hexact hfinite
      cases x with
      | nan => cases hfinite
      | infinite negative => cases hfinite
      | finite negative mantissa exponent hcanonical => exact eq_of_beq heq
    have hlow := (zero_le_iff.1 hsign).2
    rw [lt_zero_of_isFinite hfinite, ← hvalue, decide_eq_false_iff_not, not_lt] at hlow
    have hbound := toRat_le hfinite
    rw [← hvalue] at hbound
    exact Or.inr ⟨m, rfl, by exact_mod_cast hlow, by exact_mod_cast hbound⟩

/-- The difference of two amounts has a binary number. -/
theorem IsAmount.sub {m n : Number} (hm : m.IsAmount) (hn : n.IsAmount) :
    ∃ d, m.sub n = .ok d ∧ ∃ x, d.toBinary64 = .ok x := by
  obtain ⟨x, hx, -⟩ := id hm
  obtain ⟨y, hy, -⟩ := id hn
  have hbinary (hreal : (∃ x, m = .real x) ∨ ∃ y, n = .real y) :
      ∃ d, m.sub n = .ok d ∧ ∃ x, d.toBinary64 = .ok x := by
    refine ⟨.real (x - y), ?_, _, rfl⟩
    rw [Number.sub, combine_eq hreal, hx, hy]
    rfl
  rcases hm.plain_cases with hreal | ⟨a, ha, halow, hahigh⟩
  · exact hbinary (Or.inl hreal)
  rcases hn.plain_cases with hreal | ⟨b, hb, hblow, hbhigh⟩
  · exact hbinary (Or.inr hreal)
  · refine ⟨.int (a - b), ?_, _, ofInt?_eq_ok (n := a - b) (by omega)⟩
    rw [Number.sub, combine, ha, hb]

end Number

namespace Editing

variable {own : Failure → Prop} {s : BezierSegment} {x y : Binary64} {a b : Int}

/-- A control point is placed unless its segment starts at, or has, too many levels. -/
theorem strays_controlAt_iff (hown : ∀ fault, ¬own (.arithmetic fault))
    (hstart : s.startLevel = .int a) (hend : s.endLevel = .int b) (hlt : a < b)
    (hfrom : s.startExp.IsAmount) (hto : s.endExp.IsAmount) (fallback : ControlPoint) :
    Outcome.Strays own (controlAt s ⟨.real x, .real y⟩ fallback) ↔
      s.startLevel.OutOfRange ∨ (Number.int (b - a)).OutOfRange := by
  obtain ⟨range, hrange, r, hr⟩ := hto.sub hfrom
  obtain ⟨e, he, -⟩ := hfrom
  have hspan : (Number.int (b - a)).isZero = false := beq_eq_false_iff_ne.2 (by omega)
  have halong : Outcome.Strays own (placeAlong s (.real x) (.int (b - a)) fallback.x) ↔
      s.startLevel.OutOfRange ∨ (Number.int (b - a)).OutOfRange := by
    rw [placeAlong, if_neg (by rw [hspan]; decide)]
    exact strays_place_iff hown ⟨0, rfl⟩ ⟨1, rfl⟩ hspan x
  have hupward : ¬Outcome.Strays own (placeUpward s (.real y) range fallback.y) := by
    unfold placeUpward
    split
    · exact Outcome.not_strays_ok _
    · next hextent =>
      rw [strays_place_iff hown (⟨_, rfl⟩ : leastRatio.IsReal) (⟨_, rfl⟩ : greatestRatio.IsReal)
        (Bool.eq_false_iff.2 hextent) y]
      rintro (hlarge | hlarge)
      · exact Number.not_outOfRange he hlarge
      · exact Number.not_outOfRange hr hlarge
  have hlevels : s.endLevel.sub s.startLevel = .ok (.int (b - a)) := by
    rw [hstart, hend, Number.sub_int]
  have hexps : s.expRange = .ok range := hrange
  have hplaced (x y : Binary64) : ¬Outcome.Strays own (pure ⟨x, y⟩ : Outcome ControlPoint) :=
    Outcome.not_strays_ok _
  rw [controlAt_eq, hlevels, hexps]
  simp only [Outcome.strays_bind_iff, Outcome.liftM_ok, Outcome.not_strays_ok, Except.ok.injEq,
    exists_eq_left', halong, hupward, hplaced, and_false, exists_false, or_false, false_or]

end Editing

end ExperienceCurves
