import ExperienceCurves.Curve
import ExperienceCurves.Proofs.NumberOrder

/-!
Neighbours that join. A segment that starts at the level and the requirement with which the one
before it ends makes no break with it, whatever tolerance above zero is asked for. So it can be
appended without a new break. This holds of all requirements, infinities and NaN included: their
difference to themselves is zero or has no order.
-/
namespace ExperienceCurves

namespace Binary64

theorem toRat_zero_of_sign (negative : Bool) : (zero negative).toRat = 0 := by
  cases negative <;> decide +kernel

theorem toRat_add_neg (x : Binary64) : x.toRat + x.neg.toRat = 0 := by
  cases x with
  | nan => exact add_zero 0
  | infinite negative => exact add_zero 0
  | finite negative mantissa exponent hcanonical =>
    cases negative with
    | true => exact neg_add_cancel (scaled mantissa exponent)
    | false => exact add_neg_cancel (scaled mantissa exponent)

/-- A number differs from itself by zero, unless the difference is undefined. -/
theorem sub_self_cases (x : Binary64) : x - x = nan ∨ ∃ negative, x - x = zero negative := by
  cases x with
  | nan => exact Or.inl rfl
  | infinite negative =>
    refine Or.inl (if_neg ?_)
    cases negative <;> decide
  | finite negative mantissa exponent hcanonical =>
    refine Or.inr ⟨negative && !negative, ?_⟩
    exact if_pos (toRat_add_neg (finite negative mantissa exponent hcanonical))

end Binary64

namespace Number

variable {x tolerance : Number}

theorem lt_self (x : Number) : x.lt x = false := by
  cases hnan : x.isNan with
  | true =>
    cases x with
    | real x =>
      cases x with
      | nan => rfl
      | infinite negative => cases hnan
      | finite negative mantissa exponent hcanonical => cases hnan
    | truth b => cases hnan
    | int n => cases hnan
  | false =>
    rw [Bool.eq_false_iff, ne_eq, lt_iff hnan hnan]
    exact lt_irrefl _

/-- No number is further from itself than a tolerance that is not below zero. -/
theorem exists_sub_self (x : Number) (htolerance : (int 0).le tolerance = true) :
    ∃ difference, x.sub x = .ok difference ∧ tolerance.lt difference.abs = false := by
  have hreal := isNan_of_le htolerance
  have hzero : (((0 : Rat) : WithTop Rat) : Line) ≤ tolerance.position := by
    have hposition := (le_iff rfl hreal).1 htolerance
    rwa [position_int, Int.cast_zero] at hposition
  have hnotlt {difference : Number} (hnan : difference.isNan = false)
      (hposition : difference.position = (((0 : Rat) : WithTop Rat) : Line)) :
      tolerance.lt difference = false := by
    rw [Bool.eq_false_iff, ne_eq, lt_iff hreal hnan, hposition]
    exact not_lt_of_ge hzero
  rcases plain_cases x with ⟨n, hn⟩ | ⟨b, rfl, -⟩
  · refine ⟨.int (n - n), ?_, hnotlt rfl ?_⟩
    · rw [sub, combine, hn]
    · rw [Int.sub_self]
      rfl
  · refine ⟨.real (b - b), rfl, ?_⟩
    rcases Binary64.sub_self_cases b with hdifference | ⟨negative, hdifference⟩
    · rw [hdifference]
      unfold lt
      cases tolerance with
      | truth t => rfl
      | int n => rfl
      | real t => cases t <;> rfl
    · rw [hdifference]
      apply hnotlt rfl
      change ((((Binary64.zero false).toRat : Rat) : WithTop Rat) : Line) = _
      rw [Binary64.toRat_zero_of_sign]

end Number

/-- The second segment starts at the level that the first one ends with, and if both state
requirements, also at its requirement. -/
structure Segment.Joins (previous next : Segment) : Prop where
  level_eq : (Spanned.span next).startLevel = (Spanned.span previous).endLevel
  exp_eq : ∀ p n, previous = .bezier p → next = .bezier n → n.startExp = p.endExp

namespace Curve

variable {previous next : Segment} {tolerance : Number}

theorem levelIssues_of_joins (h : previous.Joins next) :
    levelIssues (Spanned.span previous) (Spanned.span next) = [] := by
  unfold levelIssues
  rw [h.level_eq, Number.lt_self, if_neg Bool.false_ne_true, if_neg Bool.false_ne_true]

theorem expIssues_of_joins (h : previous.Joins next)
    (htolerance : (Number.int 0).le tolerance = true) :
    expIssues (.number tolerance) previous next = .ok [] := by
  cases previous with
  | formula p => rfl
  | bezier p =>
    cases next with
    | formula n => rfl
    | bezier n =>
      obtain ⟨difference, hdifference, hclose⟩ := Number.exists_sub_self p.endExp htolerance
      have hholds : (Datum.number difference.abs).holds .above (.number tolerance) = .ok false :=
        congrArg Except.ok hclose
      unfold expIssues
      dsimp only
      rw [h.exp_eq p n rfl rfl, hdifference, Outcome.liftM_ok]
      simp only [bind, Except.bind, hholds]
      rfl

/-- A segment that joins the last one adds no break. By induction along the sequence. -/
theorem issuesAlong_append_of_joins {segments : List Segment}
    (hlast : segments.getLast? = some previous) (h : previous.Joins next)
    (htolerance : (Number.int 0).le tolerance = true) :
    issuesAlong (.number tolerance) (segments ++ [next]) =
      issuesAlong (.number tolerance) segments := by
  induction segments with
  | nil => cases hlast
  | cons s rest ih =>
    cases rest with
    | nil =>
      obtain rfl : s = previous := Option.some.inj hlast
      change issuesAlong _ [s, next] = .ok []
      rw [issuesAlong, expIssues_of_joins h htolerance, levelIssues_of_joins h]
      rfl
    | cons t rest =>
      have hrest := ih (by rwa [List.getLast?_cons_cons] at hlast)
      change issuesAlong _ (s :: t :: (rest ++ [next])) = _
      rw [issuesAlong, issuesAlong]
      rw [List.cons_append] at hrest
      rw [hrest]

end Curve

end ExperienceCurves
