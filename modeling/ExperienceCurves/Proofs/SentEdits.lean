import ExperienceCurves.Proofs.ActiveSteps
import ExperienceCurves.Proofs.Dragging
import ExperienceCurves.Proofs.Redistribution
import ExperienceCurves.Proofs.SentCurves

/-!
Edits of curves that can be sent. Each edit that succeeds gives another such curve: the segments it
adds or changes have a name, an ordered range, and formulas and requirements like those before.
-/
namespace ExperienceCurves

open Editing

section Spanned

variable {α : Type} [Spanned α] {P : α → Prop} {segments out : List α}

/-- A property that survives a new range, as long as that is whole and in order. -/
def KeptByRange (P : α → Prop) : Prop :=
  ∀ s startLevel endLevel, P s →
    (∃ maxLevel, (Spanned.span (withRange s startLevel endLevel)).Within maxLevel) →
    P (withRange s startLevel endLevel)

theorem forall_of_redistribute {bound : Int} (hP : KeptByRange P) (hall : ∀ s ∈ segments, P s)
    (hsome : segments ≠ []) (h : redistribute (.int bound) segments = .ok out) :
    ∀ s ∈ out, P s := by
  intro s hs
  have hwithin := (redistribute_spec hsome h).2 s hs
  obtain ⟨old, hold, startLevel, endLevel, rfl⟩ := exists_withRange_of_redistribute hsome h hs
  exact hP old startLevel endLevel (hall old hold) ⟨bound, hwithin⟩

/-- An edit by name keeps what it keeps of the segment, given what the neighbours have. -/
theorem forall_of_editNamed {id : Datum} {edit : Option α → α → Option α → Outcome α}
    (hall : ∀ s ∈ segments, P s)
    (hedit : ∀ previous old following new, (∀ p ∈ previous, P p) → (∀ f ∈ following, P f) →
      P old → edit previous old following = .ok new → P new)
    (h : editNamed id edit segments = .ok out) : ∀ s ∈ out, P s := by
  obtain ⟨before, old, new, after, rfl, rfl, hnew⟩ := editNamed_spec h
  have hprevious : ∀ p ∈ before.getLast?, P p := fun p hp =>
    hall p (List.mem_append_left _ (List.mem_of_getLast? hp))
  have hfollowing : ∀ f ∈ after.head?, P f := fun f hf =>
    hall f (List.mem_append_right _ (List.mem_cons_of_mem _ (List.mem_of_mem_head? hf)))
  have hold : P old := hall old (List.mem_append_right _ List.mem_cons_self)
  intro s hs
  rcases List.mem_append.1 hs with hs | hs
  · exact hall s (List.mem_append_left _ hs)
  · rcases List.mem_cons.1 hs with rfl | hs
    · exact hedit _ _ _ _ hprevious hfollowing hold hnew
    · exact hall s (List.mem_append_right _ (List.mem_cons_of_mem _ hs))

theorem forall_of_setSpan {id : Datum} {startLevel endLevel bound : Int} (hP : KeptByRange P)
    (hall : ∀ s ∈ segments, P s)
    (h : editNamed id (Curve.setSpan (.int startLevel) (.int endLevel) (.int bound)) segments =
      .ok out) : ∀ s ∈ out, P s := by
  refine forall_of_editNamed hall ?_ h
  intro previous old following new _ _ hold hnew
  obtain ⟨⟨⟩, hcheck, hnew⟩ := Outcome.bind_eq_ok_iff.1 hnew
  obtain rfl := Except.ok.inj hnew
  obtain ⟨hone, hlt, hmax⟩ := (Span.checkRange_int_eq_ok_iff _ _ _).1 hcheck
  exact hP old _ _ hold ⟨bound, within_withRange hone hlt hmax⟩

theorem forall_of_extends {bound : Int} {s : α} (hall : ∀ s ∈ segments, P s)
    (h : Extends bound segments out s) (hs : P s) : ∀ s ∈ out, P s := by
  rw [h.eq_append]
  intro t ht
  rcases List.mem_append.1 ht with ht | ht
  · exact hall t ht
  · obtain rfl := List.mem_singleton.1 ht
    exact hs

end Spanned

theorem Span.IsSendable.isWhole {s : Span} (h : s.IsSendable) : s.IsWhole := by
  obtain ⟨maxLevel, hwithin⟩ := h.within
  exact hwithin.isWhole

/-- Below any bound a sendable span lies within some maximum above it. -/
theorem Span.IsSendable.exists_within {s : Span} (h : s.IsSendable) (bound : Int) :
    ∃ maxLevel, bound ≤ maxLevel ∧ s.Within maxLevel := by
  obtain ⟨maxLevel, hwithin⟩ := h.within
  exact ⟨max bound maxLevel, Int.le_max_left _ _, hwithin.mono (Int.le_max_right _ _)⟩

namespace FormulaSegment

variable {segments out : List FormulaSegment} {bound : Int}

theorem keptByRange : KeptByRange FormulaSegment.IsSendable := by
  intro s startLevel endLevel hs hwithin
  exact ⟨⟨hs.span.named, hwithin⟩, hs.formula_ne, hs.formula_le⟩

theorem isSendable_of_append {given : Option Segment} {expGrowth : Datum} {step : Int}
    {maxSegments : Datum} (hall : ∀ s ∈ segments, s.IsSendable)
    (hgiven : ∀ s, given = some (.formula s) → s.IsSendable)
    (hwhole : ∀ s ∈ given, (Spanned.span s).IsWhole)
    (h : appendFormula segments (.int bound) ⟨maxSegments, .int step, expGrowth⟩ given = .ok out) :
    ∀ s ∈ out, s.IsSendable := by
  have hsegments : ∀ s ∈ segments, s.toSpan.IsWhole := fun s hs => (hall s hs).span.isWhole
  cases given with
  | none =>
    obtain ⟨s, hs, hnext⟩ := appendFormula_default hsegments h
    obtain ⟨-, hid, hformula⟩ := nextFormula_spec hsegments hnext
    have hspan : s.toSpan.IsSendable := ⟨nextId_ne_empty hid, bound, hs.within⟩
    refine forall_of_extends hall hs ?_
    cases hlast : segments.getLast? with
    | none =>
      rw [hlast] at hformula
      refine ⟨hspan, ?_, ?_⟩
      · rw [hformula]
        decide
      · rw [hformula]
        decide
    | some last =>
      have hsendable := hall last (List.mem_of_getLast? hlast)
      rw [hlast] at hformula
      refine ⟨hspan, ?_, ?_⟩
      · rw [hformula]
        exact hsendable.formula_ne
      · rw [hformula]
        exact hsendable.formula_le
  | some segment =>
    obtain ⟨s, original, rfl, hs, hrenamed⟩ := appendFormula_given (hwhole segment rfl) h
    have horiginal := hgiven original rfl
    refine forall_of_extends hall hs ?_
    rcases hrenamed with rfl | ⟨id, hid, rfl⟩
    · exact horiginal
    · exact ⟨⟨nextId_ne_empty hid, bound, hs.within⟩, horiginal.formula_ne, horiginal.formula_le⟩

theorem isSendable_of_drag {id : Datum} {endpoint : Endpoint} {target : Target} {snap : Snap}
    (hall : ∀ s ∈ segments, s.IsSendable)
    (h : editNamed id (dragFormula endpoint target (.int bound) snap) segments = .ok out) :
    ∀ s ∈ out, s.IsSendable := by
  refine forall_of_editNamed hall ?_ h
  intro previous old following new hprevious hfollowing hold hnew
  obtain ⟨maxLevel, hbound, hwithin⟩ := hold.span.exists_within bound
  obtain ⟨hnewWithin, hid, hformula⟩ := dragFormula_spec hwithin hbound
    (fun p hp => (hprevious p hp).span.isWhole) (fun f hf => (hfollowing f hf).span.isWhole) hnew
  refine ⟨⟨?_, maxLevel, hnewWithin⟩, ?_, ?_⟩
  · rw [hid]
    exact hold.span.named
  · rw [hformula]
    exact hold.formula_ne
  · rw [hformula]
    exact hold.formula_le

end FormulaSegment

namespace BezierSegment

variable {segments out : List BezierSegment} {bound : Int}

theorem keptByRange : KeptByRange BezierSegment.IsSendable := by
  intro s startLevel endLevel hs hwithin
  exact ⟨⟨hs.span.named, hwithin⟩, hs.startExp, hs.endExp⟩

/-- The requirement that the next segment starts with. -/
theorem isAmount_lastExp (hall : ∀ s ∈ segments, s.IsSendable) :
    ((segments.getLast?.map fun s => s.endExp).getD (.real 100) : Number).IsAmount := by
  cases hlast : segments.getLast? with
  | none =>
    exact Number.isAmount_real (Binary64.zero_le_of_isNegative (by decide +kernel) (by decide +kernel))
  | some last => exact (hall last (List.mem_of_getLast? hlast)).endExp

theorem isSendable_of_append {given : Option Segment} {factor : Binary64} {step : Int}
    {maxSegments : Datum} (hfactor : factor.isFinite = true) (hsign : factor.isNegative = false)
    (hzero : factor.isZero = false) (hall : ∀ s ∈ segments, s.IsSendable)
    (hgiven : ∀ s, given = some (.bezier s) → s.IsSendable)
    (hwhole : ∀ s ∈ given, (Spanned.span s).IsWhole)
    (h : appendBezier segments (.int bound) ⟨maxSegments, .int step, .real factor⟩ given =
      .ok out) : ∀ s ∈ out, s.IsSendable := by
  have hsegments : ∀ s ∈ segments, s.toSpan.IsWhole := fun s hs => (hall s hs).span.isWhole
  cases given with
  | none =>
    obtain ⟨s, hs, hnext⟩ := appendBezier_default hsegments h
    obtain ⟨-, hid, hstart, product, hproduct, hend⟩ := nextBezier_spec hsegments hnext
    have hstartAmount : s.startExp.IsAmount := hstart ▸ isAmount_lastExp hall
    obtain ⟨amount, hamount, hendAmount⟩ := hstartAmount.mul hfactor hsign hzero
    have hdata : (Datum.number s.startExp).mul (.real factor) = .ok (.number amount) :=
      congrArg (Datum.number <$> ·) hamount
    obtain rfl := Except.ok.inj (hdata.symm.trans hproduct)
    obtain rfl := Except.ok.inj hend
    exact forall_of_extends hall hs
      ⟨⟨nextId_ne_empty hid, bound, hs.within⟩, hstartAmount, hendAmount⟩
  | some segment =>
    obtain ⟨s, original, rfl, hs, hrenamed⟩ := appendBezier_given (hwhole segment rfl) h
    have horiginal := hgiven original rfl
    refine forall_of_extends hall hs ?_
    rcases hrenamed with rfl | ⟨id, hid, rfl⟩
    · exact horiginal
    · exact ⟨⟨nextId_ne_empty hid, bound, hs.within⟩, horiginal.startExp, horiginal.endExp⟩

/-- A dragged end has an amount if the end before and the one it may join have. -/
theorem isAmount_of_draggedExp {level : Datum} {exp : Binary64} {facing : Option Number}
    {old new : Number} (h : DraggedExp ⟨level, .real exp⟩ facing old new) (hold : old.IsAmount)
    (hfacing : ∀ n ∈ facing, n.IsAmount) : new.IsAmount := by
  rcases h with rfl | ⟨e, he, rfl⟩ | hjoined
  · exact hold
  · obtain rfl := Except.ok.inj he
    exact Number.isAmount_max exp
  · exact hfacing new hjoined

theorem isSendable_of_drag {id : Datum} {endpoint : Endpoint} {level : Datum} {exp : Binary64}
    {snap : Snap} (hall : ∀ s ∈ segments, s.IsSendable)
    (h : editNamed id (dragBezier endpoint ⟨level, .real exp⟩ (.int bound) snap) segments =
      .ok out) : ∀ s ∈ out, s.IsSendable := by
  refine forall_of_editNamed hall ?_ h
  intro previous old following new hprevious hfollowing hold hnew
  obtain ⟨maxLevel, hbound, hwithin⟩ := hold.span.exists_within bound
  obtain ⟨hnewWithin, hid, hstart, hend⟩ := dragBezier_spec hwithin hbound
    (fun p hp => (hprevious p hp).span.isWhole) (fun f hf => (hfollowing f hf).span.isWhole) hnew
  refine ⟨⟨?_, maxLevel, hnewWithin⟩, isAmount_of_draggedExp hstart hold.startExp ?_,
    isAmount_of_draggedExp hend hold.endExp ?_⟩
  · rw [hid]
    exact hold.span.named
  · intro n hn
    obtain ⟨p, hp, rfl⟩ := Option.map_eq_some_iff.1 hn
    exact (hprevious p hp).endExp
  · intro n hn
    obtain ⟨f, hf, rfl⟩ := Option.map_eq_some_iff.1 hn
    exact (hfollowing f hf).startExp

end BezierSegment

/-- A segment of either kind that can be sent. -/
def Segment.IsSendable : Segment → Prop
  | .formula s => s.IsSendable
  | .bezier s => s.IsSendable

theorem Segment.IsSendable.span {s : Segment} (h : s.IsSendable) :
    (Spanned.span s).IsSendable := by
  cases s with
  | formula s => exact FormulaSegment.IsSendable.span h
  | bezier s => exact BezierSegment.IsSendable.span h

theorem Segment.IsSendable.isWhole {s : Segment} (h : s.IsSendable) :
    (Spanned.span s).IsWhole := h.span.isWhole

theorem Curve.isReal_autoScale {c : Curve} {scale : Number} (h : c.autoScale = .ok scale) :
    scale.IsReal := by
  unfold autoScale at h
  split at h
  · exact ⟨_, (Except.ok.inj h).symm⟩
  · obtain ⟨product, hproduct, h⟩ := Outcome.bind_eq_ok_iff.1 h
    obtain rfl := Except.ok.inj h
    exact Number.isReal_max (Number.isReal_mul_right ⟨_, rfl⟩ hproduct) ⟨_, rfl⟩

namespace Curve.IsSendable

variable {c c' : Curve} {bound : Int}

/-- A step of the active sequence leaves the other one as it was. -/
theorem step {formulaStep : List FormulaSegment → List FormulaSegment → Prop}
    {bezierStep : List BezierSegment → List BezierSegment → Prop} (hc : c.IsSendable)
    (h : ActiveStep formulaStep bezierStep c c')
    (hformula : ∀ out, formulaStep c.segments out → ∀ s ∈ out, s.IsSendable)
    (hbezier : ∀ out, bezierStep c.bezierSegments out → ∀ s ∈ out, s.IsSendable) :
    c'.IsSendable := by
  cases h with
  | formula _ hstep => exact ⟨hformula _ hstep, hc.bezier, hc.scale⟩
  | bezier _ hstep => exact ⟨hc.formula, hbezier _ hstep, hc.scale⟩

theorem append? {segment : Option Segment} (hc : c.IsSendable)
    (hsegment : ∀ s ∈ segment, s.IsSendable)
    (h : c.append? (.int bound) segment usualExtension = .ok (some c')) : c'.IsSendable := by
  have hwhole : ∀ s ∈ segment, (Spanned.span s).IsWhole := fun s hs => (hsegment s hs).isWhole
  refine hc.step (append?_cases h).2 ?_ ?_
  · intro out hout
    exact FormulaSegment.isSendable_of_append hc.formula (fun s hs => hsegment _ hs) hwhole hout
  · intro out hout
    exact BezierSegment.isSendable_of_append (by decide +kernel) (by decide +kernel)
      (by decide +kernel) hc.bezier
      (fun s hs => hsegment _ hs) hwhole hout

theorem delete? {id : Datum} (hc : c.IsSendable) (h : c.delete? id = some c') :
    c'.IsSendable := by
  refine hc.step (delete?_cases h) ?_ ?_
  · rintro out rfl s hs
    exact hc.formula s (List.mem_filter.1 hs).1
  · rintro out rfl s hs
    exact hc.bezier s (List.mem_filter.1 hs).1

theorem redistribute? (hc : c.IsSendable) (h : c.redistribute? (.int bound) = .ok (some c')) :
    c'.IsSendable := by
  refine hc.step (redistribute?_cases h) ?_ ?_
  · rintro out ⟨hsome, hout⟩
    exact forall_of_redistribute FormulaSegment.keptByRange hc.formula hsome hout
  · rintro out ⟨hsome, hout⟩
    exact forall_of_redistribute BezierSegment.keptByRange hc.bezier hsome hout

theorem drag {id : Datum} {endpoint : Endpoint} {level : Datum} {exp : Binary64} {snap : Snap}
    (hc : c.IsSendable)
    (h : c.drag id endpoint ⟨level, .real exp⟩ (.int bound) snap = .ok c') : c'.IsSendable := by
  refine hc.step (drag_cases h) ?_ ?_
  · intro out hout
    exact FormulaSegment.isSendable_of_drag hc.formula hout
  · intro out hout
    exact BezierSegment.isSendable_of_drag hc.bezier hout

theorem setRange {id : Datum} {startLevel endLevel : Int} (hc : c.IsSendable)
    (h : c.setRange id (.int startLevel) (.int endLevel) (.int bound) = .ok c') :
    c'.IsSendable := by
  refine hc.step (setRange_cases h) ?_ ?_
  · intro out hout
    exact forall_of_setSpan FormulaSegment.keptByRange hc.formula hout
  · intro out hout
    exact forall_of_setSpan BezierSegment.keptByRange hc.bezier hout

theorem withMode (hc : c.IsSendable) (useBezier : Bool) : (c.withMode useBezier).IsSendable :=
  ⟨hc.formula, hc.bezier, hc.scale⟩

theorem resetScale (hc : c.IsSendable) (h : c.resetScale = .ok c') : c'.IsSendable := by
  obtain ⟨scale, hscale, h⟩ := Outcome.bind_eq_ok_iff.1 h
  obtain rfl := Except.ok.inj h
  refine ⟨hc.formula, hc.bezier, ?_⟩
  intro d hd
  obtain rfl := Option.some.inj hd
  obtain ⟨x, rfl⟩ := isReal_autoScale (Outcome.liftM_eq_ok_iff.1 hscale)
  exact ⟨x, rfl⟩

end Curve.IsSendable

end ExperienceCurves
