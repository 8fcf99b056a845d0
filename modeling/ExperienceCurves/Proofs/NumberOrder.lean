import ExperienceCurves.Proofs.Amounts
import Mathlib.Algebra.Order.Ring.Rat
import Mathlib.Order.WithBot

/-!
The order of numbers as positions on one line. The line is the rationals between two infinities,
and a number of any kind stands on it unless it is NaN. Comparisons of numbers are comparisons of
their positions, so they are total and transitive.
-/
namespace ExperienceCurves

/-- The rationals between two infinities. -/
abbrev Line := WithBot (WithTop Rat)

theorem Line.coe_lt_top (r : Rat) : ((r : WithTop Rat) : Line) < ⊤ :=
  WithBot.coe_lt_coe.2 (WithTop.coe_lt_top r)

namespace Binary64

/-- Where a binary number stands. NaN stands nowhere and is put at zero. -/
def position : Binary64 → Line
  | infinite true => ⊥
  | infinite false => ⊤
  | x => ((x.toRat : WithTop Rat) : Line)

variable {x y : Binary64}

theorem lt_iff_position (hx : x.isNan = false) (hy : y.isNan = false) :
    x.lt y = true ↔ x.position < y.position := by
  cases x with
  | nan => cases hx
  | infinite s =>
    cases y with
    | nan => cases hy
    | infinite t => cases s <;> cases t <;> simp [lt, position]
    | finite t n k hk => cases s <;> simp [lt, position]
  | finite s m e hc =>
    cases y with
    | nan => cases hy
    | infinite t => cases t <;> simp [lt, position, Line.coe_lt_top]
    | finite t n k hk => simp [lt, position]

theorem eq_iff_position (hx : x.isNan = false) (hy : y.isNan = false) :
    x.eq y = true ↔ x.position = y.position := by
  cases x with
  | nan => cases hx
  | infinite s =>
    cases y with
    | nan => cases hy
    | infinite t => cases s <;> cases t <;> simp [eq, position]
    | finite t n k hk => cases s <;> simp [eq, position, (Line.coe_lt_top _).ne']
  | finite s m e hc =>
    cases y with
    | nan => cases hy
    | infinite t => cases t <;> simp [eq, position, (Line.coe_lt_top _).ne]
    | finite t n k hk => simp [eq, position]

end Binary64

namespace Number

def isNan : Number → Bool
  | real x => x.isNan
  | _ => false

/-- Where a number stands on the line. -/
def position (x : Number) : Line :=
  match x.plain with
  | int n => (((n : Rat) : WithTop Rat) : Line)
  | real x => x.position
  | truth _ => ((0 : Rat) : WithTop Rat)

variable {x y z : Number}

@[simp] theorem position_int (n : Int) : (int n).position = (((n : Rat) : WithTop Rat) : Line) := rfl

@[simp] theorem position_real (x : Binary64) : (real x).position = x.position := rfl

/-- A number as a whole or a binary one. -/
theorem plain_cases (x : Number) : (∃ n, x.plain = int n) ∨ ∃ b, x = real b ∧ x.plain = real b := by
  cases x with
  | truth b => exact Or.inl ⟨_, rfl⟩
  | int n => exact Or.inl ⟨n, rfl⟩
  | real b => exact Or.inr ⟨b, rfl, rfl⟩

theorem position_of_plain {n : Int} (h : x.plain = int n) :
    x.isNan = false ∧ x.position = (((n : Rat) : WithTop Rat) : Line) := by
  refine ⟨?_, by unfold position; rw [h]⟩
  cases x with
  | truth b => rfl
  | int m => rfl
  | real b => cases h

theorem lt_iff (hx : x.isNan = false) (hy : y.isNan = false) :
    x.lt y = true ↔ x.position < y.position := by
  unfold lt position
  rcases plain_cases x with ⟨m, hm⟩ | ⟨a, rfl, ha⟩
  · rcases plain_cases y with ⟨n, hn⟩ | ⟨b, rfl, hb⟩
    · rw [hm, hn, WithBot.coe_lt_coe, WithTop.coe_lt_coe, Rat.intCast_lt_intCast]
      exact decide_eq_true_iff
    · rw [hm]
      cases b with
      | nan => cases hy
      | infinite t => cases t <;> simp [compareInt, plain, Binary64.position, Line.coe_lt_top]
      | finite t n k hk => simp [compareInt, plain, Binary64.position]
  · rcases plain_cases y with ⟨n, hn⟩ | ⟨b, rfl, hb⟩
    · rw [hn]
      cases a with
      | nan => cases hx
      | infinite t => cases t <;> simp [compareInt, plain, Binary64.position]
      | finite t n k hk => simp [compareInt, plain, Binary64.position]
    · exact Binary64.lt_iff_position hx hy

theorem eq_iff (hx : x.isNan = false) (hy : y.isNan = false) :
    x.eq y = true ↔ x.position = y.position := by
  unfold eq position
  rcases plain_cases x with ⟨m, hm⟩ | ⟨a, rfl, ha⟩
  · rcases plain_cases y with ⟨n, hn⟩ | ⟨b, rfl, hb⟩
    · rw [hm, hn, WithBot.coe_inj, WithTop.coe_inj, Rat.intCast_inj]
      exact beq_iff_eq
    · rw [hm]
      cases b with
      | nan => cases hy
      | infinite t =>
        cases t <;> simp [compareInt, plain, Binary64.position, (Line.coe_lt_top _).ne]
      | finite t n k hk => simp [compareInt, plain, Binary64.position]
  · rcases plain_cases y with ⟨n, hn⟩ | ⟨b, rfl, hb⟩
    · rw [hn]
      cases a with
      | nan => cases hx
      | infinite t =>
        cases t <;> simp [compareInt, plain, Binary64.position, (Line.coe_lt_top _).ne']
      | finite t n k hk =>
        simp only [compareInt, plain, Binary64.position, WithBot.coe_inj, WithTop.coe_inj,
          beq_iff_eq]
        exact eq_comm
    · exact Binary64.eq_iff_position hx hy

theorem le_iff (hx : x.isNan = false) (hy : y.isNan = false) :
    x.le y = true ↔ x.position ≤ y.position := by
  rw [le, Bool.or_eq_true, lt_iff hx hy, eq_iff hx hy, le_iff_lt_or_eq]

theorem isNan_of_le {n : Int} (h : (int n).le x = true) : x.isNan = false := by
  cases x with
  | real x =>
    cases x with
    | nan => cases h
    | infinite negative => rfl
    | finite negative mantissa exponent hcanonical => rfl
  | truth b => rfl
  | int n => rfl

theorem le_of_not_lt (hx : x.isNan = false) (hy : y.isNan = false) (h : x.lt y = false) :
    y.le x = true := by
  rw [le_iff hy hx, ← not_lt, ← lt_iff hx hy, h]
  exact Bool.false_ne_true

theorem lt_of_not_le (hx : x.isNan = false) (hy : y.isNan = false) (h : x.le y = false) :
    y.lt x = true := by
  rw [lt_iff hy hx, ← not_le, ← le_iff hx hy, h]
  exact Bool.false_ne_true

end Number
end ExperienceCurves
