import ExperienceCurves.Proofs.DragEnds
import ExperienceCurves.Proofs.EditRuns
import ExperienceCurves.Proofs.NumericNames
import ExperienceCurves.Proofs.ShownProfiles

/-!
How edits fail. An edit of a curve that can be sent gives a curve, or says that no segment has the
name or that a range does not fit, with levels of the curve and of the edit only. The exceptions
are named: new segments beside names in digits that no numeral follows, drags by levels that are not
finite or among levels beyond all binary numbers, and refusals that would state a level with too
many digits to be written.
-/
namespace ExperienceCurves

open Editing

/-- A refused range that only states the given levels, or a name that is unknown. -/
def Failure.IsOwn (levels : List Datum) (unknown : Datum → Prop) : Failure → Prop
  | .range r => ∀ level ∈ r.levels, level ∈ levels
  | .unknownSegment id => unknown id
  | _ => False

namespace Edit

/-- The name of the segment that is to be edited. -/
def target? : Edit → Option Datum
  | drag id .. => some id
  | setRange id .. => some id
  | _ => none

/-- The levels that an edit is told, and level one. -/
def levels : Edit → List Datum
  | append maxLevel segment .. =>
      [.int 1, .int maxLevel] ++ segment.toList.flatMap fun s => (Spanned.span s).levels
  | redistribute maxLevel => [.int 1, .int maxLevel]
  | drag _ _ _ maxLevel _ => [.int 1, .int maxLevel]
  | setRange _ startLevel endLevel maxLevel =>
      [.int 1, .int startLevel, .int endLevel, .int maxLevel]
  | _ => []

/-- The levels that an edit of the curve can state. -/
def known (c : Curve) (e : Edit) : List Datum := c.spans.flatMap Span.levels ++ e.levels

/-- The failures that an edit of the curve is meant to have. -/
def IsOwn (c : Curve) (e : Edit) : Failure → Prop :=
  Failure.IsOwn (e.known c) fun id => id ∈ e.target? ∧ ∀ s ∈ c.spans, s.isNamed id = false

/-- What requests can ask for: segments that can be sent, and any binary numbers. -/
def IsRequest : Edit → Prop
  | append _ segment _ step expGrowth =>
      (∀ s ∈ segment, s.IsSendable) ∧ 0 ≤ step ∧ ∃ x, expGrowth = .real x
  | drag _ endpoint target _ snap =>
      (∃ handle, Endpoint.ofDatum endpoint = .ok handle) ∧ (∃ x, target.level = .real x) ∧
        (∃ y, target.exp = .real y) ∧ snap.IsNumeric
  | _ => True

end Edit

/-- The levels are no range, but the message that says so shows one that is too long. -/
def Span.RefusesLong (a b maxLevel : Int) : Prop :=
  ∃ r, Span.refusal? a b maxLevel = some r ∧ (Failure.range r).IsLong

/-- The levels of an appended segment: those that are given, if it is of the curve's kind, or the
next ones. -/
def Editing.AppendsAt (spans : List Span) (bezierMode : Bool) (step maxLevel a b : Int) :
    Option Segment → Prop
  | none => (spans.getLast?.map Span.endLevel).getD 1 = .int a ∧ b = min (a + step) maxLevel
  | some (.formula s) => bezierMode = false ∧ s.startLevel = .int a ∧ s.endLevel = .int b
  | some (.bezier s) => bezierMode = true ∧ s.startLevel = .int a ∧ s.endLevel = .int b

/-- The edit fails, but not in a way of its own. -/
def Edit.Trips (c : Curve) : Edit → Prop
  | append maxLevel segment maxSegments step _ => (c.active.length : Int) < maxSegments ∧
      ((∀ s ∈ segment, idOf s ∈ c.spans.map Span.id) ∧ Exhausted (c.spans.map Span.id) ∨
        ∃ a b, AppendsAt c.spans c.useBezier step maxLevel a b segment ∧
          Span.RefusesLong a b maxLevel)
  | redistribute maxLevel => 1 ≤ c.active.length ∧ maxLevel - 1 < c.active.length ∧
      Numeral.isWritable maxLevel = false
  | drag id endpoint target maxLevel _ => id.isWritable = false ∨ ∃ handle before s after,
      Endpoint.ofDatum endpoint = .ok handle ∧ FirstNamed id c.spans before s after ∧
        handle.Trips target.level maxLevel c.useBezier before.getLast? s after.head?
  | setRange id startLevel endLevel maxLevel => id.isWritable = false ∨
      (∃ before s after, FirstNamed id c.spans before s after) ∧
        Span.RefusesLong startLevel endLevel maxLevel
  | _ => False

namespace Editing

section Appended

variable {α : Type} [Spanned α] {own : Failure → Prop} {levels : List Datum} {bound step : Int}
  {segments out : List α}

theorem strays_nextId_iff (hown : ∀ refusal, ¬own (.refused refusal)) (ids : List String) :
    Outcome.Strays own (nextId ids) ↔ Exhausted ids := by
  rw [← nextId_fails_iff]
  constructor
  · rintro ⟨failure, h, -⟩
    exact ⟨failure, h⟩
  · rintro ⟨failure, h⟩
    obtain ⟨refusal, rfl⟩ := nextId_error h
    exact ⟨_, h, hown refusal⟩

/-- What is refused is said with the levels and the maximum. -/
theorem levels_of_refusal? {a b : Int} {r : RangeError} (h : Span.refusal? a b bound = some r)
    (ha : .int a ∈ levels) (hb : .int b ∈ levels) (hbound : .int bound ∈ levels) :
    r.levels ⊆ levels := by
  unfold Span.refusal? at h
  split at h
  · obtain rfl := Option.some.inj h
    simp [RangeError.levels, ha, hb]
  · split at h
    · obtain rfl := Option.some.inj h
      simp [RangeError.levels, ha, hb, hbound]
    · cases h

/-- A segment is pushed, or the levels are refused and the refusal may be too long. -/
theorem strays_push_iff (hlong : ¬own (.refused .tooLongInDigits)) {segment : α} {a b : Int}
    (hstart : (Spanned.span segment).startLevel = .int a)
    (hend : (Spanned.span segment).endLevel = .int b)
    (hrange : ∀ r, Span.refusal? a b bound = some r → own (.range r)) :
    Outcome.Strays own (push segments segment (.int bound)) ↔ Span.RefusesLong a b bound := by
  unfold push Span.RefusesLong
  rw [Outcome.strays_return_iff, Span.check, hstart, hend, Datum.number_int, Datum.number_int,
    Span.checkRange_int]
  cases hrefused : Span.refusal? a b bound with
  | none => exact iff_of_false (Outcome.not_strays_ok _) fun ⟨r, hr, _⟩ => by cases hr
  | some r =>
    simp only [Option.some.injEq, exists_eq_left']
    exact Outcome.strays_written_iff hlong (hrange r hrefused)

/-- Where the next segment begins: at the end of the last one, or at level one. -/
theorem exists_nextLevel (hall : ∀ s ∈ segments, (Spanned.span s).IsSendable) :
    ∃ a : Int, ((segments.getLast?.map Spanned.span).map Span.endLevel).getD 1 = .int a ∧ 1 ≤ a ∧
      (Datum.int a = .int 1 ∨ ∃ s ∈ segments, Datum.int a ∈ (Spanned.span s).levels) := by
  cases hlast : segments.getLast? with
  | none => exact ⟨1, rfl, Int.le_refl 1, Or.inl rfl⟩
  | some last =>
    have hmem := List.mem_of_getLast? hlast
    obtain ⟨-, -, a, b, -, hend, hone, hlt, -⟩ := hall last hmem
    exact ⟨b, hend, by omega, Or.inr ⟨last, hmem, by simp [Span.levels, hend, Datum.number_int]⟩⟩

/-- A segment that continues the sequence is refused by its range, or lacks a name. -/
theorem strays_continued_iff (hrange : ∀ r : RangeError, r.levels ⊆ levels → own (.range r))
    (hown : ∀ refusal, ¬own (.refused refusal)) {make : Span → Outcome α}
    (hmake : ∀ s, ∃ segment, make s = .ok segment ∧ Spanned.span segment = s)
    (hall : ∀ s ∈ segments, (Spanned.span s).IsSendable) (hstep : 0 ≤ step)
    (hlevels : ∀ s ∈ segments, (Spanned.span s).levels ⊆ levels) (hone : .int 1 ∈ levels)
    (hbound : .int bound ∈ levels) (bezierMode : Bool) :
    Outcome.Strays own (continuation (segments.getLast?.map Spanned.span) (segments.map idOf)
        (.int step) (.int bound) >>= make >>= fun segment => push segments segment (.int bound)) ↔
      Exhausted (segments.map idOf) ∨
        ∃ a b, AppendsAt (segments.map Spanned.span) bezierMode step bound a b none ∧
          Span.RefusesLong a b bound := by
  obtain ⟨a, hlast, hpositive, hstated⟩ := exists_nextLevel hall
  have ha : .int a ∈ levels := by
    rcases hstated with heq | ⟨s, hs, hmem⟩
    · rwa [heq]
    · exact hlevels s hs hmem
  have hpush (id : String) : Outcome.Strays own (make ⟨id, .int a, .int (min (a + step) bound)⟩ >>=
      fun segment => push segments segment (.int bound)) ↔
        Span.RefusesLong a (min (a + step) bound) bound := by
    obtain ⟨segment, hsegment, hspan⟩ := hmake ⟨id, .int a, .int (min (a + step) bound)⟩
    rw [hsegment]
    refine strays_push_iff (hown _) (by rw [hspan]) (by rw [hspan]) fun r hr => hrange r ?_
    -- what is refused is cut off at the maximum, or as long as it is wide
    have hb : Datum.int (min (a + step) bound) ∈ levels := by
      have hsome := mt Span.refusal?_eq_none_iff.2 (by rw [hr]; exact Option.some_ne_none r)
      rcases (show min (a + step) bound = a ∨ min (a + step) bound = bound by omega) with h | h
      · rwa [h]
      · rwa [h]
    exact levels_of_refusal? hr ha hb hbound
  have hreach : (∃ a b, AppendsAt (segments.map Spanned.span) bezierMode step bound a b none ∧
      Span.RefusesLong a b bound) ↔ Span.RefusesLong a (min (a + step) bound) bound := by
    simp only [AppendsAt, List.getLast?_map, hlast, Number.int.injEq, and_assoc, exists_and_left,
      exists_eq_left, exists_eq_left']
  rw [continuation_int hlast, bind_assoc, bind_assoc, Outcome.strays_bind_iff,
    strays_nextId_iff hown, hreach]
  refine ⟨Or.imp_right fun ⟨id, _, h⟩ => (hpush id).1 h, fun h => ?_⟩
  by_cases hused : Exhausted (segments.map idOf)
  · exact Or.inl hused
  · obtain ⟨id, hid⟩ := (nextId_succeeds_iff _).2 hused
    exact Or.inr ⟨id, hid, (hpush id).2 (h.resolve_left hused)⟩

/-- A given segment may lack a name of its own; then it is used under the next one. -/
theorem strays_renamed_iff {β : Type} (hown : ∀ refusal, ¬own (.refused refusal)) (given : Segment)
    {proceed : Segment → Outcome β} {P : Prop}
    (hproceed : ∀ id, Outcome.Strays own (proceed (withId given id)) ↔ P) :
    Outcome.Strays own (renamed segments given >>= proceed) ↔
      idOf given ∈ segments.map idOf ∧ Exhausted (segments.map idOf) ∨ P := by
  have hself : withId given (idOf given) = given := by cases given <;> rfl
  unfold renamed
  split
  · next htaken =>
    rw [bind_assoc, Outcome.strays_bind_iff, strays_nextId_iff hown]
    refine ⟨Or.imp (fun h => ⟨htaken, h⟩) fun ⟨id, _, h⟩ => (hproceed id).1 h, fun h => ?_⟩
    by_cases hused : Exhausted (segments.map idOf)
    · exact Or.inl hused
    · obtain ⟨id, hid⟩ := (nextId_succeeds_iff _).2 hused
      exact Or.inr ⟨id, hid, (hproceed id).2 (h.resolve_left fun h => hused h.2)⟩
  · next hfree =>
    have hgiven := hproceed (idOf given)
    rw [hself] at hgiven
    exact hgiven.trans ⟨Or.inr, fun h => h.resolve_left fun h => hfree h.1⟩

/-- A given segment of either kind is pushed or refused with its levels. -/
theorem strays_given_iff (hrange : ∀ r : RangeError, r.levels ⊆ levels → own (.range r))
    (hlong : ¬own (.refused .tooLongInDigits)) {s : α} {a b : Int}
    (hstart : (Spanned.span s).startLevel = .int a)
    (hend : (Spanned.span s).endLevel = .int b)
    (hlevels : (Spanned.span s).levels ⊆ levels) (hbound : .int bound ∈ levels) :
    Outcome.Strays own (push segments s (.int bound)) ↔ Span.RefusesLong a b bound := by
  have ha : Datum.int a ∈ levels := hlevels (by simp [Span.levels, hstart, Datum.number_int])
  have hb : Datum.int b ∈ levels := hlevels (by simp [Span.levels, hend, Datum.number_int])
  exact strays_push_iff hlong hstart hend fun r hr => hrange r (levels_of_refusal? hr ha hb hbound)

end Appended

section Sequences

variable {own : Failure → Prop} {levels : List Datum} {bound step : Int} {maxSegments : Datum}
  {given : Option Segment}

theorem not_strays_wrongMode {β : Type}
    (hrange : ∀ r : RangeError, r.levels ⊆ levels → own (.range r)) {s : Span}
    (hlevels : s.levels ⊆ levels) (bezierMode : Bool) :
    ¬Outcome.Strays own (throw (wrongMode s bezierMode) : Outcome β) := fun h =>
  Outcome.strays_error_iff.1 h
    (hrange ⟨.wrongMode s.id bezierMode, s.startLevel, s.endLevel⟩ hlevels)

theorem strays_appendFormula_iff (hrange : ∀ r : RangeError, r.levels ⊆ levels → own (.range r))
    (hown : ∀ refusal, ¬own (.refused refusal)) {segments : List FormulaSegment}
    (hall : ∀ s ∈ segments, s.IsSendable) (hlevels : ∀ s ∈ segments, s.toSpan.levels ⊆ levels)
    (hgiven : ∀ s ∈ given, s.IsSendable) (hstated : ∀ s ∈ given, (Spanned.span s).levels ⊆ levels)
    (hstep : 0 ≤ step) (hone : .int 1 ∈ levels) (hbound : .int bound ∈ levels) (expGrowth : Datum) :
    Outcome.Strays own
      (appendFormula segments (.int bound) ⟨maxSegments, .int step, expGrowth⟩ given) ↔
    (∀ s ∈ given, idOf s ∈ segments.map idOf) ∧ Exhausted (segments.map idOf) ∨
      ∃ a b, AppendsAt (segments.map Spanned.span) false step bound a b given ∧
        Span.RefusesLong a b bound := by
  cases given with
  | none =>
    have hmake (span : Span) : ∃ s, (pure { toSpan := span, formula :=
        (segments.getLast?.map (·.formula)).getD usualFormula } : Outcome FormulaSegment) = .ok s ∧
          Spanned.span s = span := ⟨_, rfl, rfl⟩
    have hcontinued := strays_continued_iff hrange hown hmake (fun s hs => (hall s hs).span) hstep
      hlevels hone hbound false
    simp only [Option.mem_def, reduceCtorEq, false_implies, implies_true, true_and]
    exact hcontinued
  | some segment =>
    simp only [Option.mem_some, forall_eq']
    refine strays_renamed_iff hown segment fun id => ?_
    obtain ⟨a, b, hstart, hend⟩ := (hgiven segment rfl).isWhole
    have hsLevels := hstated segment rfl
    cases segment with
    | formula s =>
      refine (strays_given_iff (s := { s with id }) hrange (hown _) hstart hend hsLevels
        hbound).trans ?_
      change s.startLevel = _ at hstart
      change s.endLevel = _ at hend
      simp only [AppendsAt, true_and, hstart, hend, Number.int.injEq, and_assoc, exists_and_left,
        exists_eq_left']
    | bezier s =>
      exact iff_of_false (not_strays_wrongMode (s := { s.toSpan with id }) hrange hsLevels false)
        fun ⟨_, _, ⟨hmode, _⟩, _⟩ => Bool.false_ne_true hmode

theorem strays_appendBezier_iff (hrange : ∀ r : RangeError, r.levels ⊆ levels → own (.range r))
    (hown : ∀ refusal, ¬own (.refused refusal)) {segments : List BezierSegment}
    (hall : ∀ s ∈ segments, s.IsSendable) (hlevels : ∀ s ∈ segments, s.toSpan.levels ⊆ levels)
    (hgiven : ∀ s ∈ given, s.IsSendable) (hstated : ∀ s ∈ given, (Spanned.span s).levels ⊆ levels)
    (hstep : 0 ≤ step) (hone : .int 1 ∈ levels) (hbound : .int bound ∈ levels) (growth : Binary64) :
    Outcome.Strays own
      (appendBezier segments (.int bound) ⟨maxSegments, .int step, .real growth⟩ given) ↔
    (∀ s ∈ given, idOf s ∈ segments.map idOf) ∧ Exhausted (segments.map idOf) ∨
      ∃ a b, AppendsAt (segments.map Spanned.span) true step bound a b given ∧
        Span.RefusesLong a b bound := by
  cases given with
  | none =>
    have hamount := BezierSegment.isAmount_lastExp hall
    generalize hstart : (segments.getLast?.map (·.endExp)).getD (.real 100) = startExp at hamount
    obtain ⟨x, hx, -⟩ := hamount
    have hproduct : (Datum.number startExp).mul (.real growth) = .ok (.real (x * growth)) :=
      congrArg (Datum.number <$> ·) (Number.mul_real hx growth)
    have hmake (span : Span) : ∃ s, (do
        let endExp ← (← (Datum.number startExp).mul (.real growth)).toNumber
        return { toSpan := span, startExp, endExp, control1 := ⟨decimal 33 2, decimal 5 2⟩,
                 control2 := ⟨decimal 67 2, decimal 5 2⟩ } : Outcome BezierSegment) = .ok s ∧
          Spanned.span s = span := by
      rw [hproduct]
      exact ⟨_, rfl, rfl⟩
    have hcontinued := strays_continued_iff hrange hown hmake (fun s hs => (hall s hs).span) hstep
      hlevels hone hbound true
    rw [← hstart] at hcontinued
    simp only [Option.mem_def, reduceCtorEq, false_implies, implies_true, true_and]
    exact hcontinued
  | some segment =>
    simp only [Option.mem_some, forall_eq']
    refine strays_renamed_iff hown segment fun id => ?_
    obtain ⟨a, b, hstart, hend⟩ := (hgiven segment rfl).isWhole
    have hsLevels := hstated segment rfl
    cases segment with
    | formula s =>
      exact iff_of_false (not_strays_wrongMode (s := { s.toSpan with id }) hrange hsLevels true)
        fun ⟨_, _, ⟨hmode, _⟩, _⟩ => Bool.false_ne_true hmode.symm
    | bezier s =>
      refine (strays_given_iff (s := { s with id }) hrange (hown _) hstart hend hsLevels
        hbound).trans ?_
      change s.startLevel = _ at hstart
      change s.endLevel = _ at hend
      simp only [AppendsAt, true_and, hstart, hend, Number.int.injEq, and_assoc, exists_and_left,
        exists_eq_left']

end Sequences

end Editing

namespace Edit

variable {c : Curve} {e : Edit}

theorem isOwn_range (r : RangeError) (h : r.levels ⊆ e.known c) : e.IsOwn c (.range r) :=
  fun _ hlevel => h hlevel

theorem not_isOwn_arithmetic (fault : Fault) : ¬e.IsOwn c (.arithmetic fault) := fun h => h

theorem not_isOwn_refused (refusal : Refusal) : ¬e.IsOwn c (.refused refusal) := fun h => h

theorem levels_subset {s : Span} (hs : s ∈ c.spans) : s.levels ⊆ e.known c := fun _ hlevel =>
  List.mem_append_left _ (List.mem_flatMap.2 ⟨s, hs, hlevel⟩)

theorem mem_known {level : Datum} (h : level ∈ e.levels) : level ∈ e.known c :=
  List.mem_append_right _ h

variable {bound : Int}

theorem strays_append_iff (hc : c.IsSendable) {segment : Option Segment} {maxSegments step : Int}
    {expGrowth : Datum} (he : (append bound segment maxSegments step expGrowth).IsRequest) :
    Outcome.Strays ((append bound segment maxSegments step expGrowth).IsOwn c)
      ((append bound segment maxSegments step expGrowth).outcome c) ↔
    (append bound segment maxSegments step expGrowth).Trips c := by
  obtain ⟨hgiven, hstep, growth, rfl⟩ := he
  have hone : .int 1 ∈ (append bound segment maxSegments step (.real growth)).known c :=
    mem_known (by simp [levels])
  have hbound : .int bound ∈ (append bound segment maxSegments step (.real growth)).known c :=
    mem_known (by simp [levels])
  have hstated : ∀ s ∈ segment, (Spanned.span s).levels ⊆
      (append bound segment maxSegments step (.real growth)).known c := fun s hs _ hlevel =>
    mem_known (List.mem_append_right _ (List.mem_flatMap.2 ⟨s, Option.mem_toList.2 hs, hlevel⟩))
  unfold outcome Trips
  dsimp only
  rw [Outcome.strays_return_iff, Curve.append?, Datum.holds_atLeast_int, ← Int.not_le]
  simp only [Outcome.liftM_ok, Outcome.strays_bind_iff, Outcome.not_strays_ok, Except.ok.injEq,
    exists_eq_left', false_or, decide_eq_true_eq]
  by_cases hfull : maxSegments ≤ c.active.length
  · rw [if_pos hfull]
    exact ⟨fun h => absurd h (Outcome.not_strays_pure _), fun h => absurd hfull h.1⟩
  · rw [if_neg hfull]
    simp only [hfull, not_false_eq_true, true_and]
    split
    · next hmode =>
      have hspans := Curve.spans_eq_bezier hmode
      rw [Outcome.strays_return_iff, hspans, hmode, List.map_map]
      exact strays_appendBezier_iff isOwn_range not_isOwn_refused hc.bezier (fun s hs =>
        levels_subset (hspans ▸ List.mem_map_of_mem hs)) hgiven hstated hstep hone hbound growth
    · next hmode =>
      have hmode := Bool.eq_false_iff.2 hmode
      have hspans := Curve.spans_eq_formula hmode
      rw [Outcome.strays_return_iff, hspans, hmode, List.map_map]
      exact strays_appendFormula_iff isOwn_range not_isOwn_refused hc.formula (fun s hs =>
        levels_subset (hspans ▸ List.mem_map_of_mem hs)) hgiven hstated hstep hone hbound _

theorem strays_redistribute_iff (maxLevel : Int) :
    Outcome.Strays ((redistribute maxLevel).IsOwn c) ((redistribute maxLevel).outcome c) ↔
      (redistribute maxLevel).Trips c := by
  have hown {failure : Failure} (h : failure = Curve.noRoomFor c.active.length maxLevel) :
      ¬(redistribute maxLevel).IsOwn c failure ↔ Numeral.isWritable maxLevel = false := by
    unfold Curve.noRoomFor at h
    split at h
    · next hwritable =>
      subst h
      exact iff_of_false (not_not_intro (isOwn_range _ fun level hlevel => mem_known hlevel))
        fun hlong => by cases hwritable.symm.trans hlong
    · next hlong =>
      subst h
      exact iff_of_true (not_isOwn_refused _) (Bool.eq_false_iff.2 hlong)
  unfold outcome Trips
  rw [Outcome.strays_return_iff]
  constructor
  · rintro ⟨failure, hfailure, hstray⟩
    obtain ⟨hsome, hroom, heq⟩ := Curve.redistribute?_eq_error_iff.1 hfailure
    exact ⟨hsome, hroom, (hown heq).1 hstray⟩
  · rintro ⟨hsome, hroom, hlong⟩
    exact ⟨_, Curve.redistribute?_eq_error_iff.2 ⟨hsome, hroom, rfl⟩, (hown rfl).2 hlong⟩

theorem strays_drag_iff (hc : c.IsSendable) {id endpoint : Datum} {target : Target} {snap : Snap}
    (he : (drag id endpoint target bound snap).IsRequest) :
    Outcome.Strays ((drag id endpoint target bound snap).IsOwn c)
      ((drag id endpoint target bound snap).outcome c) ↔
    (drag id endpoint target bound snap).Trips c := by
  obtain ⟨⟨handle, hhandle⟩, ⟨x, hx⟩, ⟨y, hy⟩, hsnap⟩ := he
  obtain ⟨level, exp⟩ := target
  obtain rfl : level = .real x := hx
  obtain rfl : exp = .real y := hy
  have hunknown (h : ∀ s ∈ c.spans, s.isNamed id = false) :
      (drag id endpoint ⟨.real x, .real y⟩ bound snap).IsOwn c (.unknownSegment id) := ⟨rfl, h⟩
  have hrange {s : Span} (hs : s ∈ c.spans) (r : RangeError)
      (hr : r.levels ⊆ s.levels ++ [.int bound]) :
      (drag id endpoint ⟨.real x, .real y⟩ bound snap).IsOwn c (.range r) := by
    refine isOwn_range r fun level hlevel => ?_
    rcases List.mem_append.1 (hr hlevel) with hlevel | hlevel
    · exact levels_subset hs hlevel
    · exact mem_known (List.mem_cons_of_mem _ hlevel)
  unfold outcome Trips Curve.drag
  simp only [hhandle, Outcome.strays_bind_iff, Outcome.not_strays_ok, Except.ok.injEq,
    exists_eq_left', exists_and_left, false_or]
  split
  · next hmode =>
    have hspans := Curve.spans_eq_bezier hmode
    rw [Outcome.strays_return_iff, hmode, hspans]
    refine strays_editNamed_iff (not_isOwn_refused _) (fun h => hunknown (hspans ▸ h)) ?_
    intro previous s hs following hprevious hfollowing
    exact strays_dragBezier_iff not_isOwn_arithmetic (not_isOwn_refused _)
      (hrange (hspans ▸ List.mem_map_of_mem hs)) (hc.bezier s hs)
      (fun p hp => hc.bezier p (hprevious p hp)) (fun f hf => hc.bezier f (hfollowing f hf)) hsnap
  · next hmode =>
    have hmode := Bool.eq_false_iff.2 hmode
    have hspans := Curve.spans_eq_formula hmode
    rw [Outcome.strays_return_iff, hmode, hspans]
    refine strays_editNamed_iff (not_isOwn_refused _) (fun h => hunknown (hspans ▸ h)) ?_
    intro previous s hs following hprevious hfollowing
    exact strays_dragFormula_iff not_isOwn_arithmetic (not_isOwn_refused _)
      (hrange (hspans ▸ List.mem_map_of_mem hs)) (hc.formula s hs)
      (fun p hp => hc.formula p (hprevious p hp)) (fun f hf => hc.formula f (hfollowing f hf)) hsnap

theorem strays_setRange_iff (id : Datum) (startLevel endLevel maxLevel : Int) :
    Outcome.Strays ((setRange id startLevel endLevel maxLevel).IsOwn c)
      ((setRange id startLevel endLevel maxLevel).outcome c) ↔
    (setRange id startLevel endLevel maxLevel).Trips c := by
  have hrange (r : RangeError)
      (hr : r.levels ⊆ [.int startLevel, .int endLevel, .int maxLevel]) :
      (setRange id startLevel endLevel maxLevel).IsOwn c (.range r) :=
    isOwn_range r fun level hlevel => mem_known (List.mem_cons_of_mem _ (hr hlevel))
  have hsegment {α : Type} [Spanned α] (previous : Option α) (s : α) (following : Option α) :
      Outcome.Strays ((setRange id startLevel endLevel maxLevel).IsOwn c)
        (Curve.setSpan (.int startLevel) (.int endLevel) (.int maxLevel) previous s following) ↔
      Span.RefusesLong startLevel endLevel maxLevel := by
    unfold Curve.setSpan Span.RefusesLong
    rw [Span.checkRange_int, Outcome.strays_bind_iff]
    cases hrefused : Span.refusal? startLevel endLevel maxLevel with
    | none =>
      have hset : ¬Outcome.Strays ((setRange id startLevel endLevel maxLevel).IsOwn c)
          (Except.ok (withRange s (.int startLevel) (.int endLevel))) := Outcome.not_strays_ok _
      refine iff_of_false (fun h => ?_) fun ⟨r, hr, _⟩ => by cases hr
      rcases h with h | ⟨-, -, h⟩
      · exact Outcome.not_strays_ok _ h
      · exact hset h
    | some r =>
      simp only [reduceCtorEq, false_and, exists_false, or_false, Option.some.injEq,
        exists_eq_left']
      exact Outcome.strays_written_iff (not_isOwn_refused _)
        (hrange r (levels_of_refusal? hrefused (by simp) (by simp) (by simp)))
  have hsequence {α : Type} [Spanned α] {segments : List α}
      (hspans : c.spans = segments.map Spanned.span) :
      Outcome.Strays ((setRange id startLevel endLevel maxLevel).IsOwn c) (editNamed id
        (Curve.setSpan (.int startLevel) (.int endLevel) (.int maxLevel)) segments) ↔
      (setRange id startLevel endLevel maxLevel).Trips c := by
    unfold Trips
    rw [strays_editNamed_iff (P := fun _ _ _ => Span.RefusesLong startLevel endLevel maxLevel)
      (not_isOwn_refused _) (fun h => ⟨rfl, hspans ▸ h⟩)
      fun previous s _ following _ _ => hsegment previous s following, ← hspans]
    simp only [exists_and_right]
  unfold outcome Curve.setRange Curve.editActive
  dsimp only
  split
  · next hmode =>
    rw [Outcome.strays_return_iff]
    exact hsequence (Curve.spans_eq_bezier hmode)
  · next hmode =>
    rw [Outcome.strays_return_iff]
    exact hsequence (Curve.spans_eq_formula (Bool.eq_false_iff.2 hmode))

/-- The highest of several amounts is one. -/
theorem isAmount_highest {first : Number} {segments : List BezierSegment} (hfirst : first.IsAmount)
    (hall : ∀ s ∈ segments, s.endExp.IsAmount) :
    (segments.foldl (fun highest s => highest.max s.endExp) first).IsAmount := by
  induction segments generalizing first with
  | nil => exact hfirst
  | cons s rest ih =>
    refine ih ?_ fun s hs => hall s (List.mem_cons_of_mem _ hs)
    dsimp only [Number.max]
    split
    · exact hall s List.mem_cons_self
    · exact hfirst

theorem not_strays_resetScale (hc : c.IsSendable) :
    ¬Outcome.Strays (resetScale.IsOwn c) (resetScale.outcome c) := by
  have hbezier := hc.bezier
  obtain ⟨scale, hscale⟩ : ∃ scale, c.autoScale = .ok scale := by
    unfold Curve.autoScale
    split
    · exact ⟨_, rfl⟩
    · next first rest hsegments =>
      rw [hsegments] at hbezier
      obtain ⟨x, hx, -⟩ := isAmount_highest (hbezier first List.mem_cons_self).endExp fun s hs =>
        (hbezier s (List.mem_cons_of_mem _ hs)).endExp
      dsimp only
      rw [Number.mul_real hx]
      exact ⟨_, rfl⟩
  unfold outcome Curve.resetScale
  rw [hscale]
  exact Outcome.not_strays_ok _

/-- Edits leave their own failures in the named cases only. -/
theorem strays_iff_trips (hc : c.IsSendable) (he : e.IsRequest) :
    Outcome.Strays (e.IsOwn c) (e.outcome c) ↔ e.Trips c := by
  cases e with
  | append maxLevel segment maxSegments step expGrowth => exact strays_append_iff hc he
  | delete id => exact iff_of_false (Outcome.not_strays_pure _) fun h => h
  | redistribute maxLevel => exact strays_redistribute_iff maxLevel
  | drag id endpoint target maxLevel snap => exact strays_drag_iff hc he
  | setRange id startLevel endLevel maxLevel =>
    exact strays_setRange_iff id startLevel endLevel maxLevel
  | setMode useBezier => exact iff_of_false (Outcome.not_strays_pure _) fun h => h
  | resetScale => exact iff_of_false (not_strays_resetScale hc) fun h => h

/-- An edit of a curve that can be sent gives a curve or one of its own failures, but in the named
cases. A drag of an end that is none of these fails only by an unknown name or for lack of room,
and otherwise moves the end to the nearest level that it can have, or onto its neighbour. -/
theorem fails_as_meant (hc : c.IsSendable) :
    (∀ e : Edit, e.IsRequest → (Outcome.Strays (e.IsOwn c) (e.outcome c) ↔ e.Trips c)) ∧
    ∀ (id endpoint : Datum) (handle : Endpoint) (x y : Binary64) (bound : Int) (snap : Snap),
      Endpoint.ofDatum endpoint = .ok handle → handle.IsEnd → snap.IsNumeric →
      ¬(drag id endpoint ⟨.real x, .real y⟩ bound snap).Trips c →
      DragResult c id handle x bound
        ((drag id endpoint ⟨.real x, .real y⟩ bound snap).outcome c) := by
  refine ⟨fun e he => strays_iff_trips hc he, ?_⟩
  intro id endpoint handle x y bound snap hhandle hend hsnap htrips
  unfold outcome
  dsimp only
  rw [hhandle]
  have hid := Bool.of_not_eq_false fun hlong => htrips (Or.inl hlong)
  exact Curve.dragResult hc hid hend hsnap fun before s after hfirst htrip =>
    htrips (Or.inr ⟨handle, before, s, after, hhandle, hfirst, htrip⟩)

/-- No end of the usual curve is dragged to infinity, but one is dragged to level fifteen. -/
theorem fails_as_meant_usual :
    let id : Datum := .text "1"
    let endpoint : Datum := .text "end"
    let far : Edit := drag id endpoint ⟨.real (.infinite false), .real 0⟩ 100 usualSnap
    let near : Edit := drag id endpoint ⟨.real 15, .real 0⟩ 100 usualSnap
    Curve.usual.IsSendable ∧ far.IsRequest ∧ ¬near.Trips Curve.usual ∧
      Outcome.Strays (far.IsOwn Curve.usual) (far.outcome Curve.usual) ∧
      DragResult Curve.usual id .finish 15 100 (near.outcome Curve.usual) := by
  intro id endpoint far near
  have hsnap := usualSnap_isNumeric
  have hfirst : FirstNamed id Curve.usual.spans [] ⟨"1", 1, 10⟩ [⟨"2", 10, 20⟩] :=
    ⟨rfl, rfl, fun t ht => nomatch ht⟩
  have hfar : far.IsRequest := ⟨⟨.finish, rfl⟩, ⟨_, rfl⟩, ⟨_, rfl⟩, hsnap⟩
  have hnear : ¬near.Trips Curve.usual := by
    rintro (hlong | ⟨handle, before, s, after, hhandle, hfound, htrips⟩)
    · cases hlong
    obtain rfl := Except.ok.inj hhandle
    obtain ⟨rfl, rfl, rfl⟩ := hfirst.unique hfound
    obtain ⟨-, hinfinite | ⟨n, hn, hlarge⟩⟩ | ⟨hnone, -⟩ := htrips
    · cases hinfinite
    · obtain rfl := Option.some.inj hn
      exact Number.not_outOfRange (x := 10) rfl hlarge
    · exact hnone 10 ⟨by decide, by decide⟩
  obtain ⟨hedits, hdrags⟩ := fails_as_meant Curve.isSendable_usual
  refine ⟨Curve.isSendable_usual, hfar, hnear, (hedits far hfar).2 ?_,
    hdrags id endpoint .finish 15 0 100 usualSnap rfl (Or.inr rfl) hsnap hnear⟩
  exact Or.inr ⟨.finish, _, _, _, rfl, hfirst,
    Or.inl ⟨⟨10, by decide, by decide⟩, Or.inl rfl⟩⟩

/-- Beside a superscript no name is left for a new segment, and no end is dragged to infinity. -/
theorem superscript_not_continued :
    let c : Curve := ⟨[⟨⟨"²", .int 1, .int 10⟩, "100"⟩], [], false, none⟩
    let next : Edit := append 100 none 10 10 (.real (decimal 11 1))
    let far : Edit :=
      drag (.text "²") (.text "end") ⟨.real (.infinite false), .real 0⟩ 100 usualSnap
    c.IsSendable ∧ next.IsRequest ∧ far.IsRequest ∧
      next.outcome c = .error (.refused (.notWhole "²")) ∧
      ¬next.IsOwn c (.refused (.notWhole "²")) ∧
      far.outcome c = .error (.arithmetic .infinityAsInteger) ∧
      ¬far.IsOwn c (.arithmetic .infinityAsInteger) := by
  intro c next far
  have hwithin : (⟨"²", .int 1, .int 10⟩ : Span).Within 10 := ⟨1, 10, rfl, rfl, by decide⟩
  have hsegment : ∀ s ∈ c.segments, s.IsSendable := by
    intro s hs
    obtain rfl := List.mem_singleton.1 hs
    exact ⟨⟨by decide, 10, hwithin⟩, by decide, by decide⟩
  exact ⟨⟨hsegment, fun s hs => (nomatch hs), fun s hs => nomatch hs⟩,
    ⟨fun s hs => (nomatch hs), by decide, _, rfl⟩,
    ⟨⟨.finish, rfl⟩, ⟨_, rfl⟩, ⟨_, rfl⟩, usualSnap_isNumeric⟩,
    rfl, not_isOwn_refused _, rfl, not_isOwn_arithmetic _⟩

end Edit

end ExperienceCurves
