import ExperienceCurves.Proofs.NamedSegments
import ExperienceCurves.Requirement

/-!
Edits of a curve leave requirements alone. The requirement at a level is that of the first active
segment that covers it. So an edit of one segment makes no difference at a level that an earlier one
covers, nor at a level that the segment covers neither before nor after the edit. Nothing else is
asked of the segments: they may overlap, leave gaps and have undefined formulas.
-/
namespace ExperienceCurves

open Editing

def Segment.Covers (s : Segment) (level : Number) : Prop := (Spanned.span s).covers level = true

namespace Curve

/-- At the level both curves have the same segment and require the same. -/
structure AgreesAt (c c' : Curve) (level : Number) : Prop where
  segment : c'.segmentAt? level = c.segmentAt? level
  requirement : Requirement.atLevel (some c') level = Requirement.atLevel (some c) level

/-- An edit of a segment makes no difference at the level: an earlier segment decides, or neither
the segment nor what becomes of it does. -/
def Spares (before : List Segment) (s s' : Segment) (level : Number) : Prop :=
  (∃ t ∈ before, t.Covers level) ∨ ¬s.Covers level ∧ ¬s'.Covers level

variable {c c' : Curve} {id : Datum} {before after : List Segment} {s s' : Segment} {level : Number}

/-- The requirement at a level depends on nothing but the segment there. -/
theorem agreesAt_of_segmentAt? (h : c'.segmentAt? level = c.segmentAt? level) :
    c.AgreesAt c' level := by
  have hstrict : Requirement.strict c' level = Requirement.strict c level := by
    unfold Requirement.strict
    rw [h]
  refine ⟨h, ?_⟩
  unfold Requirement.atLevel
  dsimp only
  rw [hstrict]

/-- What stands behind the first segments is only asked where none of them covers the level. -/
theorem agreesAt_of_append {rest rest' : List Segment} (hactive : c.active = before ++ rest)
    (hactive' : c'.active = before ++ rest')
    (h : (∃ t ∈ before, t.Covers level) ∨
      rest'.find? (fun t => (Spanned.span t).covers level) =
        rest.find? fun t => (Spanned.span t).covers level) : c.AgreesAt c' level := by
  apply agreesAt_of_segmentAt?
  unfold segmentAt?
  rw [hactive, hactive', List.find?_append, List.find?_append]
  rcases h with hcovered | hrest
  · obtain ⟨found, hfound⟩ := Option.isSome_iff_exists.1 (List.find?_isSome.2 hcovered)
    rw [hfound, Option.some_or, Option.some_or]
  · rw [hrest]

theorem find?_covers_cons_of_not (h : ¬s.Covers level) (rest : List Segment) :
    (s :: rest).find? (fun t => (Spanned.span t).covers level) =
      rest.find? fun t => (Spanned.span t).covers level := List.find?_cons_of_neg h

/-- A segment that covers the level without deciding there stands behind another that does. -/
theorem Locates.covered_of_segmentAt?_ne (h : c.Locates id before s after)
    (hother : c.segmentAt? level ≠ some s) :
    (∃ t ∈ before, t.Covers level) ∨ ¬s.Covers level := by
  by_contra hdecides
  obtain ⟨hbefore, hs⟩ := not_or.1 hdecides
  apply hother
  have hnone : before.find? (fun t => (Spanned.span t).covers level) = none :=
    List.find?_eq_none.2 fun t ht hcovers => hbefore ⟨t, ht, hcovers⟩
  unfold segmentAt?
  rw [h.active_eq, List.find?_append, hnone, Option.none_or]
  exact List.find?_cons_of_pos (not_not.1 hs)

theorem Locates.agreesAt_of_spares (h : c.Locates id before s after)
    (hreplaces : c.Replaces before after c' s') (hspares : Spares before s s' level) :
    c.AgreesAt c' level := by
  apply agreesAt_of_append h.active_eq hreplaces.active_eq
  apply hspares.imp_right
  rintro ⟨hs, hs'⟩
  rw [find?_covers_cons_of_not hs, find?_covers_cons_of_not hs']

theorem Locates.agreesAt_of_delete? (h : c.Locates id before s after)
    (hunique : ∀ t ∈ after, (Spanned.span t).isNamed id = false) (hdeleted : c.delete? id = some c')
    (hother : c.segmentAt? level ≠ some s) : c.AgreesAt c' level := by
  have hafter : after.filter (fun t => !(Spanned.span t).isNamed id) = after :=
    List.filter_eq_self.2 fun t ht => by rw [hunique t ht, Bool.not_false]
  have hactive : c'.active = before ++ after := by
    rw [active_of_delete? hdeleted, filter_of_locates h, hafter]
  apply agreesAt_of_append h.active_eq hactive
  apply (h.covered_of_segmentAt?_ne hother).imp_right
  intro hs
  rw [find?_covers_cons_of_not hs]

end Curve

namespace Editing

variable {maxLevel : Datum} {e : Extension} {segment : Option Segment}

theorem eq_append_of_push {α : Type} [Spanned α] {segments out : List α} {s : α}
    (h : push segments s maxLevel = .ok out) : out = segments ++ [s] := by
  obtain ⟨-, -, h⟩ := Outcome.bind_eq_ok_iff.1 h
  exact (Except.ok.inj h).symm

theorem exists_of_appendFormula {segments out : List FormulaSegment}
    (h : appendFormula segments maxLevel e segment = .ok out) : ∃ s, out = segments ++ [s] := by
  cases segment with
  | none =>
    obtain ⟨s, -, h⟩ := Outcome.bind_eq_ok_iff.1 h
    exact ⟨s, eq_append_of_push h⟩
  | some given =>
    obtain ⟨s, -, h⟩ := Outcome.bind_eq_ok_iff.1 h
    cases s with
    | formula s => exact ⟨s, eq_append_of_push h⟩
    | bezier s => cases h

theorem exists_of_appendBezier {segments out : List BezierSegment}
    (h : appendBezier segments maxLevel e segment = .ok out) : ∃ s, out = segments ++ [s] := by
  cases segment with
  | none =>
    obtain ⟨s, -, h⟩ := Outcome.bind_eq_ok_iff.1 h
    exact ⟨s, eq_append_of_push h⟩
  | some given =>
    obtain ⟨s, -, h⟩ := Outcome.bind_eq_ok_iff.1 h
    cases s with
    | formula s => cases h
    | bezier s => exact ⟨s, eq_append_of_push h⟩

variable {endpoint : Endpoint} {target : Target} {snap : Snap}

/-- Control points are dragged within the range of their segment. -/
theorem toSpan_of_dragBezier (hcontrol : endpoint = .control1 ∨ endpoint = .control2)
    {previous following : Option BezierSegment} {old new : BezierSegment}
    (h : dragBezier endpoint target maxLevel snap previous old following = .ok new) :
    new.toSpan = old.toSpan := by
  rcases hcontrol with rfl | rfl
  · obtain ⟨point, -, h⟩ := Outcome.bind_eq_ok_iff.1 h
    obtain rfl := Except.ok.inj h
    rfl
  · obtain ⟨point, -, h⟩ := Outcome.bind_eq_ok_iff.1 h
    obtain rfl := Except.ok.inj h
    rfl

/-- Formula segments have no control points. -/
theorem dragFormula_control_ne_ok (hcontrol : endpoint = .control1 ∨ endpoint = .control2)
    {previous following : Option FormulaSegment} {old new : FormulaSegment} :
    dragFormula endpoint target maxLevel snap previous old following ≠ .ok new := by
  rcases hcontrol with rfl | rfl <;> exact fun h => nomatch h

end Editing

namespace Curve

variable {c c' : Curve} {id maxLevel startLevel endLevel : Datum} {before after : List Segment}
  {s : Segment} {level : Number} {endpoint : Endpoint} {target : Target} {snap : Snap}

theorem exists_active_of_append? {segment : Option Segment} {e : Extension}
    (h : c.append? maxLevel segment e = .ok (some c')) : ∃ s, c'.active = c.active ++ [s] := by
  cases (append?_cases h).2 with
  | @formula segments hmode hstep =>
    obtain ⟨s, rfl⟩ := exists_of_appendFormula hstep
    refine ⟨.formula s, ?_⟩
    rw [active_eq_formula hmode, active_eq_formula (by exact hmode), List.map_append]
    rfl
  | @bezier bezierSegments hmode hstep =>
    obtain ⟨s, rfl⟩ := exists_of_appendBezier hstep
    refine ⟨.bezier s, ?_⟩
    rw [active_eq_bezier hmode, active_eq_bezier (by exact hmode), List.map_append]
    rfl

/-- Appended segments come last and decide only where no other one does. -/
theorem agreesAt_of_append? {segment : Option Segment} {e : Extension}
    (h : c.append? maxLevel segment e = .ok (some c')) (hcovered : ∃ t ∈ c.active, t.Covers level) :
    c.AgreesAt c' level := by
  obtain ⟨s, hactive⟩ := exists_active_of_append? h
  exact agreesAt_of_append (List.append_nil _).symm hactive (Or.inl hcovered)

theorem Locates.exists_drag (h : c.Locates id before s after)
    (hdragged : c.drag id endpoint target maxLevel snap = .ok c') :
    ∃ s', c.Replaces before after c' s' ∧
      (endpoint = .control1 ∨ endpoint = .control2 → Spanned.span s' = Spanned.span s) := by
  have hedit := drag_of_locates h endpoint target maxLevel snap
  rw [hdragged] at hedit
  obtain ⟨s', hspan, hreplaces⟩ := hedit.exists_replaces
    (R := fun old new => endpoint = .control1 ∨ endpoint = .control2 →
      Spanned.span new = Spanned.span old)
    (fun _ _ _ _ h hcontrol => absurd h (dragFormula_control_ne_ok hcontrol))
    fun _ _ _ _ h hcontrol => toSpan_of_dragBezier hcontrol h
  exact ⟨s', hreplaces, hspan⟩

theorem Locates.exists_setRange (h : c.Locates id before s after)
    (hset : c.setRange id startLevel endLevel maxLevel = .ok c') :
    ∃ s', c.Replaces before after c' s' := by
  have hedit := setRange_of_locates h startLevel endLevel maxLevel
  rw [hset] at hedit
  obtain ⟨s', -, hreplaces⟩ := hedit.exists_replaces (R := fun _ _ => True)
    (fun _ _ _ _ _ => trivial) fun _ _ _ _ _ => trivial
  exact ⟨s', hreplaces⟩

theorem Locates.agreesAt_of_control (h : c.Locates id before s after)
    (hcontrol : endpoint = .control1 ∨ endpoint = .control2)
    (hdragged : c.drag id endpoint target maxLevel snap = .ok c')
    (hother : c.segmentAt? level ≠ some s) : c.AgreesAt c' level := by
  obtain ⟨s', hreplaces, hspan⟩ := h.exists_drag hdragged
  apply h.agreesAt_of_spares hreplaces
  apply (h.covered_of_segmentAt?_ne hother).imp_right
  intro hs
  refine ⟨hs, ?_⟩
  unfold Segment.Covers
  rwa [hspan hcontrol]

/-- Where edits leave requirements alone: an append at all levels that are covered, a deletion of a
name that is given once at all levels that its segment does not decide, a drag or a new range at all
levels that it spares, and a drag of a control point at all levels that its segment does not
decide. -/
theorem edits_local (c : Curve) (level : Number) :
    (∀ maxLevel segment e c', c.append? maxLevel segment e = .ok (some c') →
      (∃ t ∈ c.active, t.Covers level) → c.AgreesAt c' level) ∧
    ∀ id before s after, c.Locates id before s after →
      (∀ c', (∀ t ∈ after, (Spanned.span t).isNamed id = false) → c.delete? id = some c' →
        c.segmentAt? level ≠ some s → c.AgreesAt c' level) ∧
      (∀ endpoint target maxLevel snap c', c.drag id endpoint target maxLevel snap = .ok c' →
        (∃ s', c.Replaces before after c' s' ∧
          (Spares before s s' level → c.AgreesAt c' level)) ∧
        (endpoint = .control1 ∨ endpoint = .control2 → c.segmentAt? level ≠ some s →
          c.AgreesAt c' level)) ∧
      ∀ startLevel endLevel maxLevel c', c.setRange id startLevel endLevel maxLevel = .ok c' →
        ∃ s', c.Replaces before after c' s' ∧
          (Spares before s s' level → c.AgreesAt c' level) := by
  refine ⟨fun _ _ _ _ h hcovered => agreesAt_of_append? h hcovered, ?_⟩
  intro id before s after hlocates
  refine ⟨fun c' hunique hdeleted hother =>
    hlocates.agreesAt_of_delete? hunique hdeleted hother, ?_, ?_⟩
  · intro endpoint target maxLevel snap c' hdragged
    obtain ⟨s', hreplaces, -⟩ := hlocates.exists_drag hdragged
    exact ⟨⟨s', hreplaces, hlocates.agreesAt_of_spares hreplaces⟩,
      fun hcontrol hother => hlocates.agreesAt_of_control hcontrol hdragged hother⟩
  · intro startLevel endLevel maxLevel c' hset
    obtain ⟨s', hreplaces⟩ := hlocates.exists_setRange hset
    exact ⟨s', hreplaces, hlocates.agreesAt_of_spares hreplaces⟩

theorem edits_local_usual :
    let c := usual.withMode true
    let id : Datum := .text "2"
    let target : Target := ⟨.int 15, .int 2000⟩
    ∃ appended deleted moved bent ranged,
      (c.append? (.int 100) none usualExtension = .ok (some appended) ∧ c.AgreesAt appended 5) ∧
      (c.delete? id = some deleted ∧ c.AgreesAt deleted 5) ∧
      (c.drag id .finish target (.int 100) usualSnap = .ok moved ∧ c.AgreesAt moved 10) ∧
      (c.drag id .control1 target (.int 100) usualSnap = .ok bent ∧ c.AgreesAt bent 5) ∧
      (c.setRange id (.int 12) (.int 30) (.int 100) = .ok ranged ∧ c.AgreesAt ranged 10) := by
  intro c id target
  let first : Segment := .bezier
    { id := "1", startLevel := 1, endLevel := 10, startExp := 100, endExp := 1500,
      control1 := .usual1, control2 := .usual2 }
  let second : Segment := .bezier
    { id := "2", startLevel := 10, endLevel := 20, startExp := 1500, endExp := 10000,
      control1 := .usual1, control2 := .usual2 }
  have hlocates : c.Locates id [first] second [] := ⟨rfl, rfl, List.forall_mem_singleton.2 rfl⟩
  have hother : c.segmentAt? 5 ≠ some second := by decide
  have hearlier : ∃ t ∈ [first], t.Covers 10 := ⟨first, List.mem_singleton_self first, rfl⟩
  obtain ⟨appended, happended⟩ : ∃ appended,
      c.append? (.int 100) none usualExtension = .ok (some appended) := ⟨_, rfl⟩
  obtain ⟨deleted, hdeleted⟩ : ∃ deleted, c.delete? id = some deleted := ⟨_, rfl⟩
  obtain ⟨moved, hmoved⟩ : ∃ moved, c.drag id .finish target (.int 100) usualSnap = .ok moved :=
    Outcome.exists_of_isOk (by decide +kernel)
  obtain ⟨bent, hbent⟩ : ∃ bent, c.drag id .control1 target (.int 100) usualSnap = .ok bent :=
    Outcome.exists_of_isOk (by decide +kernel)
  obtain ⟨ranged, hranged⟩ : ∃ ranged,
      c.setRange id (.int 12) (.int 30) (.int 100) = .ok ranged := ⟨_, rfl⟩
  obtain ⟨happend, hfifth⟩ := edits_local c 5
  obtain ⟨hdelete, hbend, -⟩ := hfifth id _ _ _ hlocates
  obtain ⟨-, hdrag, hrange⟩ := (edits_local c 10).2 id _ _ _ hlocates
  obtain ⟨⟨_, -, hmove⟩, -⟩ := hdrag _ _ _ _ moved hmoved
  obtain ⟨_, -, hset⟩ := hrange _ _ _ ranged hranged
  exact ⟨appended, deleted, moved, bent, ranged,
    ⟨happended, happend _ _ _ _ happended ⟨first, List.mem_cons_self, rfl⟩⟩,
    ⟨hdeleted, hdelete deleted (fun t ht => nomatch ht) hdeleted hother⟩,
    ⟨hmoved, hmove (Or.inl hearlier)⟩,
    ⟨hbent, (hbend _ _ _ _ bent hbent).2 (Or.inl rfl) hother⟩,
    ⟨hranged, hset (Or.inl hearlier)⟩⟩

end Curve

end ExperienceCurves
