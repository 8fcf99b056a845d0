import ExperienceCurves.Editing

/-!
Edits as steps of the active sequence. Each edit that succeeds replaces the active sequence by
another one and keeps the mode, the scale and the other sequence; what the new sequence is depends
on the edit alone.
-/
namespace ExperienceCurves.Curve

open Editing

/-- The sequence of one kind of segments. -/
def sequence (c : Curve) (bezierMode : Bool) : List Segment :=
  if bezierMode then c.bezierSegments.map .bezier else c.segments.map .formula

theorem active_eq_formula {c : Curve} (hmode : c.useBezier = false) :
    c.active = c.segments.map .formula := by
  rw [active, hmode]
  rfl

theorem active_eq_bezier {c : Curve} (hmode : c.useBezier = true) :
    c.active = c.bezierSegments.map .bezier := by
  rw [active, hmode]
  rfl

/-- A step of the active sequence, as the relation of its kind of segments allows. -/
inductive ActiveStep (formulaStep : List FormulaSegment → List FormulaSegment → Prop)
    (bezierStep : List BezierSegment → List BezierSegment → Prop) (c : Curve) : Curve → Prop
  | formula {segments : List FormulaSegment} (hmode : c.useBezier = false)
      (hstep : formulaStep c.segments segments) :
      ActiveStep formulaStep bezierStep c { c with segments }
  | bezier {bezierSegments : List BezierSegment} (hmode : c.useBezier = true)
      (hstep : bezierStep c.bezierSegments bezierSegments) :
      ActiveStep formulaStep bezierStep c { c with bezierSegments }

namespace ActiveStep

variable {formulaStep formulaStep' : List FormulaSegment → List FormulaSegment → Prop}
  {bezierStep bezierStep' : List BezierSegment → List BezierSegment → Prop} {c c' : Curve}

theorem imp (h : ActiveStep formulaStep bezierStep c c')
    (hformula : c.useBezier = false → ∀ segments, formulaStep c.segments segments →
      formulaStep' c.segments segments)
    (hbezier : c.useBezier = true → ∀ segments, bezierStep c.bezierSegments segments →
      bezierStep' c.bezierSegments segments) : ActiveStep formulaStep' bezierStep' c c' := by
  cases h with
  | formula hmode hstep => exact .formula hmode (hformula hmode _ hstep)
  | bezier hmode hstep => exact .bezier hmode (hbezier hmode _ hstep)

/-- The sequence that is not active stays. -/
theorem inactive_eq (h : ActiveStep formulaStep bezierStep c c') :
    c'.sequence (!c.useBezier) = c.sequence (!c.useBezier) := by
  cases h with
  | formula hmode _ => rw [hmode]; rfl
  | bezier hmode _ => rw [hmode]; rfl

end ActiveStep

variable {c c' : Curve}

theorem editActive_cases {edit : {α : Type} → [Spanned α] → List α → Outcome (List α)}
    (h : c.editActive edit = .ok c') :
    ActiveStep (fun segments out => edit segments = .ok out)
      (fun segments out => edit segments = .ok out) c c' := by
  unfold editActive at h
  split at h
  · next hmode =>
    obtain ⟨out, hout, h⟩ := Outcome.bind_eq_ok_iff.1 h
    obtain rfl := Except.ok.inj h
    exact .bezier hmode hout
  · next hmode =>
    obtain ⟨out, hout, h⟩ := Outcome.bind_eq_ok_iff.1 h
    obtain rfl := Except.ok.inj h
    exact .formula (Bool.eq_false_iff.2 hmode) hout

/-- Something is only appended below the limit. -/
theorem append?_cases {maxLevel : Datum} {segment : Option Segment} {e : Extension}
    (h : c.append? maxLevel segment e = .ok (some c')) :
    (Datum.int c.active.length).holds .atLeast e.maxSegments = .ok false ∧
      ActiveStep (fun segments out => appendFormula segments maxLevel e segment = .ok out)
        (fun segments out => appendBezier segments maxLevel e segment = .ok out) c c' := by
  obtain ⟨full, hfull, h⟩ := Outcome.bind_eq_ok_iff.1 h
  split at h
  · cases h
  · next hroom =>
    refine ⟨?_, ?_⟩
    · rw [← Bool.eq_false_iff.2 hroom]
      exact Outcome.liftM_eq_ok_iff.1 hfull
    · split at h
      · next hmode =>
        obtain ⟨out, hout, h⟩ := Outcome.bind_eq_ok_iff.1 h
        obtain rfl := Option.some.inj (Except.ok.inj h)
        exact .bezier hmode hout
      · next hmode =>
        obtain ⟨out, hout, h⟩ := Outcome.bind_eq_ok_iff.1 h
        obtain rfl := Option.some.inj (Except.ok.inj h)
        exact .formula (Bool.eq_false_iff.2 hmode) hout

/-- Nothing is appended where the limit is reached. -/
theorem append?_eq_none {maxLevel : Datum} {segment : Option Segment} {e : Extension}
    (h : c.append? maxLevel segment e = .ok none) :
    (Datum.int c.active.length).holds .atLeast e.maxSegments = .ok true := by
  obtain ⟨full, hfull, h⟩ := Outcome.bind_eq_ok_iff.1 h
  split at h
  · next hfilled =>
    rw [← hfilled]
    exact Outcome.liftM_eq_ok_iff.1 hfull
  · split at h
    · obtain ⟨out, -, h⟩ := Outcome.bind_eq_ok_iff.1 h
      cases Except.ok.inj h
    · obtain ⟨out, -, h⟩ := Outcome.bind_eq_ok_iff.1 h
      cases Except.ok.inj h

theorem delete?_cases {id : Datum} (h : c.delete? id = some c') :
    ActiveStep (fun segments out => out = segments.filter fun s => !s.toSpan.isNamed id)
      (fun segments out => out = segments.filter fun s => !s.toSpan.isNamed id) c c' := by
  unfold delete? at h
  split at h
  · obtain rfl := Option.some.inj h
    obtain ⟨segments, bezierSegments, useBezier, yAxisMax⟩ := c
    cases useBezier with
    | false => exact .formula rfl rfl
    | true => exact .bezier rfl rfl
  · cases h

theorem redistribute?_cases {maxLevel : Datum} (h : c.redistribute? maxLevel = .ok (some c')) :
    ActiveStep (fun segments out => segments ≠ [] ∧ redistribute maxLevel segments = .ok out)
      (fun segments out => segments ≠ [] ∧ redistribute maxLevel segments = .ok out) c c' := by
  unfold redistribute? at h
  split at h
  · cases h
  · next hsome =>
    obtain ⟨edited, hedited, h⟩ := Outcome.bind_eq_ok_iff.1 h
    obtain rfl := Option.some.inj (Except.ok.inj h)
    have hstep := editActive_cases hedited
    cases hstep with
    | formula hmode hstep =>
      refine .formula hmode ⟨?_, hstep⟩
      rintro hempty
      exact hsome (by rw [active_eq_formula hmode, hempty]; rfl)
    | bezier hmode hstep =>
      refine .bezier hmode ⟨?_, hstep⟩
      rintro hempty
      exact hsome (by rw [active_eq_bezier hmode, hempty]; rfl)

theorem drag_cases {id : Datum} {endpoint : Endpoint} {target : Target} {maxLevel : Datum}
    {snap : Snap} (h : c.drag id endpoint target maxLevel snap = .ok c') :
    ActiveStep
      (fun segments out => editNamed id (dragFormula endpoint target maxLevel snap) segments = .ok out)
      (fun segments out => editNamed id (dragBezier endpoint target maxLevel snap) segments = .ok out)
      c c' := by
  unfold drag at h
  split at h
  · next hmode =>
    obtain ⟨out, hout, h⟩ := Outcome.bind_eq_ok_iff.1 h
    obtain rfl := Except.ok.inj h
    exact .bezier hmode hout
  · next hmode =>
    obtain ⟨out, hout, h⟩ := Outcome.bind_eq_ok_iff.1 h
    obtain rfl := Except.ok.inj h
    exact .formula (Bool.eq_false_iff.2 hmode) hout

/-- A segment with the range that is given for it. -/
def setSpan {α : Type} [Spanned α] (startLevel endLevel maxLevel : Datum) (_ : Option α)
    (segment : α) (_ : Option α) : Outcome α := do
  Span.checkRange startLevel endLevel maxLevel
  return withRange segment (← startLevel.toNumber) (← endLevel.toNumber)

theorem setRange_cases {id startLevel endLevel maxLevel : Datum}
    (h : c.setRange id startLevel endLevel maxLevel = .ok c') :
    ActiveStep
      (fun segments out => editNamed id (setSpan startLevel endLevel maxLevel) segments = .ok out)
      (fun segments out => editNamed id (setSpan startLevel endLevel maxLevel) segments = .ok out)
      c c' :=
  @editActive_cases c c' (editNamed id (setSpan startLevel endLevel maxLevel)) h

end ExperienceCurves.Curve
