import ExperienceCurves.Proofs.ActiveSteps
import ExperienceCurves.Proofs.Coverage
import ExperienceCurves.Proofs.Redistribution

/-!
Even divisions of the levels. Where the parts begin is decided by the number of segments and the
maximum alone. The divided segments follow each other from level one to the maximum, so the breaks
that are left are jumps of requirements, and to divide them again changes nothing.
-/
namespace ExperienceCurves

namespace Editing

/-- Where the part with the given index begins if the levels are divided among so many segments. -/
def partBound (count : ℕ) (maxLevel : Int) (index : ℕ) : Int :=
  partStart ((maxLevel - 1) / count) (count - (maxLevel - 1) % count) index

variable {count : ℕ} {maxLevel : Int}

/-- The segment over the part with the given index. -/
def onPart {α : Type} [Spanned α] (count : ℕ) (maxLevel : Int) (index : ℕ) (segment : α) : α :=
  withRange segment (.int (partBound count maxLevel index))
    (.int (partBound count maxLevel (index + 1)))

section Divided

variable {α : Type} [Spanned α] {segments : List α}

/-- The segments over the parts, in order. -/
def divided (maxLevel : Int) (segments : List α) : List α :=
  segments.mapIdx (onPart segments.length maxLevel)

theorem redistribute_eq_divided (hsome : segments ≠ [])
    (hroom : (segments.length : Int) ≤ maxLevel - 1) :
    redistribute (.int maxLevel) segments = .ok (divided maxLevel segments) := by
  rw [redistribute_int hsome hroom, overParts, divided, List.mapIdx_eq_zipIdx_map]
  rfl

theorem redistribute_no_room (hroom : maxLevel - 1 < segments.length) :
    redistribute (.int maxLevel) segments =
      .error (Failure.range ⟨.tooManySegments segments.length, .int 1, .int maxLevel⟩).written := by
  unfold redistribute
  simp only [Number.one_eq, Datum.less_int, Outcome.liftM_ok, bind, Except.bind, Number.lt_int,
    decide_eq_true_eq]
  exact if_pos hroom

end Divided

end Editing

namespace Curve

open Editing

variable {c : Curve} {maxLevel : Int}

/-- The curve with its active segments over equal parts of the levels. -/
def divided (c : Curve) (maxLevel : Int) : Curve :=
  if c.useBezier then { c with bezierSegments := Editing.divided maxLevel c.bezierSegments }
  else { c with segments := Editing.divided maxLevel c.segments }

/-- Redistribution divides the levels, if there are enough of them for the segments. -/
theorem redistribute?_int (c : Curve) (maxLevel : Int) : c.redistribute? (.int maxLevel) =
    if c.active.length = 0 then .ok none
    else if maxLevel - 1 < c.active.length then
      .error (Failure.range ⟨.tooManySegments c.active.length, .int 1, .int maxLevel⟩).written
    else .ok (some (c.divided maxLevel)) := by
  unfold redistribute?
  by_cases hnone : c.active.length = 0
  · rw [if_pos hnone, if_pos (List.isEmpty_iff_length_eq_zero.2 hnone)]
    rfl
  · rw [if_neg hnone, if_neg (by rwa [List.isEmpty_iff_length_eq_zero])]
    obtain ⟨segments, bezierSegments, useBezier, yAxisMax⟩ := c
    cases useBezier with
    | false =>
      rw [active_eq_formula rfl, List.length_map] at hnone ⊢
      change some <$> (redistribute (.int maxLevel) segments >>= _) = _
      by_cases hroom : maxLevel - 1 < segments.length
      · rw [redistribute_no_room hroom, if_pos hroom]
        rfl
      · rw [redistribute_eq_divided (by rintro rfl; exact hnone rfl) (Int.not_lt.1 hroom),
          if_neg hroom]
        rfl
    | true =>
      rw [active_eq_bezier rfl, List.length_map] at hnone ⊢
      change some <$> (redistribute (.int maxLevel) bezierSegments >>= _) = _
      by_cases hroom : maxLevel - 1 < bezierSegments.length
      · rw [redistribute_no_room hroom, if_pos hroom]
        rfl
      · rw [redistribute_eq_divided (by rintro rfl; exact hnone rfl) (Int.not_lt.1 hroom),
          if_neg hroom]
        rfl

/-- The jumps of requirements among the breaks. -/
def jumps (issues : List ContinuityIssue) : List ContinuityIssue :=
  issues.filter fun issue => decide (issue.kind = .expJump)

/-- What is raised for too few levels: the refused range, if the maximum level in its message can be
written. -/
def noRoomFor (count : Nat) (maxLevel : Int) : Failure :=
  if Numeral.isWritable maxLevel then .range ⟨.tooManySegments count, .int 1, .int maxLevel⟩
  else .refused .tooLongInDigits

theorem written_tooManySegments (count : Nat) (maxLevel : Int) :
    (Failure.range ⟨.tooManySegments count, .int 1, .int maxLevel⟩).written =
      noRoomFor count maxLevel := by
  have hshown : (Failure.range ⟨.tooManySegments count, .int 1, .int maxLevel⟩).shown =
      [1, maxLevel].map Datum.int := rfl
  rw [Failure.written_of_shown hshown, noRoomFor, List.all_cons,
    List.all_cons, List.all_nil, Bool.and_true, show Numeral.isWritable 1 = true by decide,
    Bool.true_and]

theorem redistribute?_eq_error_iff {failure : Failure} :
    c.redistribute? (.int maxLevel) = .error failure ↔
      1 ≤ c.active.length ∧ maxLevel - 1 < c.active.length ∧
        failure = noRoomFor c.active.length maxLevel := by
  rw [redistribute?_int, written_tooManySegments]
  split
  · next hnone => exact iff_of_false nofun fun h => by omega
  · next hsome =>
    split
    · next hroom =>
      rw [Except.error.injEq]
      exact ⟨fun h => ⟨Nat.pos_of_ne_zero hsome, hroom, h.symm⟩, fun h => h.2.2.symm⟩
    · next hroom => exact iff_of_false nofun fun h => hroom h.2.1

end Curve

end ExperienceCurves
