import ExperienceCurves.Proofs.ActiveSteps
import ExperienceCurves.Proofs.Ranges
import ExperienceCurves.Preset

/-!
Active segments by name. A name stands for the first active segment that has it. A drag and a new
range replace that segment by one of the same name and leave every other one in its place. A
deletion removes it too, and with it all later ones of its name.
-/
namespace ExperienceCurves

open Editing

namespace Curve

/-- The curves have the same mode, the same scale and the same inactive sequence. -/
structure SameElsewhere (c c' : Curve) : Prop where
  useBezier : c'.useBezier = c.useBezier
  yAxisMax : c'.yAxisMax = c.yAxisMax
  inactive : c'.sequence (!c.useBezier) = c.sequence (!c.useBezier)

/-- The first active segment with the name, between the segments before and after it. -/
structure Locates (c : Curve) (id : Datum) (before : List Segment) (s : Segment)
    (after : List Segment) : Prop where
  active_eq : c.active = before ++ s :: after
  isNamed : (Spanned.span s).isNamed id = true
  others : ∀ t ∈ before, (Spanned.span t).isNamed id = false

theorem exists_locates {c : Curve} {id : Datum}
    (h : ∃ s ∈ c.active, (Spanned.span s).isNamed id = true) :
    ∃ before s after, c.Locates id before s after := by
  obtain ⟨before, s, after, happend, hnamed, hothers⟩ := exists_first h
  exact ⟨before, s, after, happend, hnamed, hothers⟩

theorem ActiveStep.sameElsewhere {formulaStep : List FormulaSegment → List FormulaSegment → Prop}
    {bezierStep : List BezierSegment → List BezierSegment → Prop} {c c' : Curve}
    (h : ActiveStep formulaStep bezierStep c c') : c.SameElsewhere c' := by
  have hinactive := h.inactive_eq
  cases h with
  | formula hmode hstep => exact ⟨rfl, rfl, hinactive⟩
  | bezier hmode hstep => exact ⟨rfl, rfl, hinactive⟩

end Curve

namespace Editing

variable {α : Type} [Spanned α] {id : Datum}

theorem split?_append {before after : List α} {s : α}
    (hnamed : (Spanned.span s).isNamed id = true)
    (hothers : ∀ t ∈ before, (Spanned.span t).isNamed id = false) :
    split? id (before ++ s :: after) = some (before, s, after) := by
  induction before with
  | nil => exact if_pos hnamed
  | cons t rest ih =>
    have hrest := ih fun u hu => hothers u (List.mem_cons_of_mem t hu)
    have ht : ¬(Spanned.span t).isNamed id = true :=
      Bool.eq_false_iff.1 (hothers t List.mem_cons_self)
    rw [List.cons_append, split?, if_neg ht, hrest]
    rfl

/-- An edit by name of the sequence of one kind, where the first segment with the name is known. -/
theorem editNamed_of_locates {c : Curve} {before after : List Segment} {s : Segment}
    {wrap : α → Segment} {segments : List α}
    (hactive : c.active = segments.map wrap) (hwrap : ∀ x, Spanned.span (wrap x) = Spanned.span x)
    (h : c.Locates id before s after) (edit : Option α → α → Option α → Outcome α) :
    ∃ earlier x later, before = earlier.map wrap ∧ s = wrap x ∧ after = later.map wrap ∧
      editNamed id edit segments =
        (fun edited => earlier ++ edited :: later) <$> edit earlier.getLast? x later.head? := by
  obtain ⟨happend, hnamed, hothers⟩ := h
  rw [hactive] at happend
  obtain ⟨earlier, rest, rfl, rfl, hrest⟩ := List.map_eq_append_iff.1 happend
  obtain ⟨x, later, rfl, rfl, rfl⟩ := List.map_eq_cons_iff.1 hrest
  rw [hwrap] at hnamed
  have hsplit : split? id (earlier ++ x :: later) = some (earlier, x, later) := by
    refine split?_append hnamed fun t ht => ?_
    rw [← hwrap]
    exact hothers _ (List.mem_map_of_mem ht)
  refine ⟨earlier, x, later, rfl, rfl, rfl, ?_⟩
  unfold editNamed
  rw [hsplit]
  dsimp only
  cases edit earlier.getLast? x later.head? <;> rfl

section Kept

variable {endpoint : Endpoint} {target : Target} {maxLevel : Datum} {snap : Snap}

theorem idOf_of_dragFormula {previous following : Option FormulaSegment} {old new : FormulaSegment}
    (h : dragFormula endpoint target maxLevel snap previous old following = .ok new) :
    idOf new = idOf old := by
  cases endpoint with
  | start | finish =>
    obtain ⟨room, -, h⟩ := Outcome.bind_eq_ok_iff.1 h
    obtain ⟨moved, -, h⟩ := Outcome.bind_eq_ok_iff.1 h
    obtain rfl := Except.ok.inj h
    rfl
  | control1 | control2 => cases h

theorem idOf_of_dragBezier {previous following : Option BezierSegment} {old new : BezierSegment}
    (h : dragBezier endpoint target maxLevel snap previous old following = .ok new) :
    idOf new = idOf old := by
  cases endpoint with
  | start | finish =>
    obtain ⟨room, -, h⟩ := Outcome.bind_eq_ok_iff.1 h
    obtain ⟨moved, -, h⟩ := Outcome.bind_eq_ok_iff.1 h
    obtain rfl := Except.ok.inj h
    rfl
  | control1 | control2 =>
    obtain ⟨point, -, h⟩ := Outcome.bind_eq_ok_iff.1 h
    obtain rfl := Except.ok.inj h
    rfl

theorem idOf_of_setSpan {startLevel endLevel : Datum} {previous following : Option α} {old new : α}
    (h : Curve.setSpan startLevel endLevel maxLevel previous old following = .ok new) :
    idOf new = idOf old := by
  obtain ⟨-, -, h⟩ := Outcome.bind_eq_ok_iff.1 h
  obtain ⟨first, -, h⟩ := Outcome.bind_eq_ok_iff.1 h
  obtain ⟨last, -, h⟩ := Outcome.bind_eq_ok_iff.1 h
  obtain rfl := Except.ok.inj h
  exact idOf_withRange old first last

end Kept

end Editing

namespace Curve

variable {c c' : Curve} {id : Datum} {before after : List Segment} {s : Segment}

theorem Locates.unique {before' after' : List Segment} {s' : Segment}
    (h : c.Locates id before s after) (h' : c.Locates id before' s' after') :
    before = before' ∧ s = s' ∧ after = after' := by
  have hsplit : split? id c.active = some (before, s, after) := by
    rw [h.active_eq, split?_append h.isNamed h.others]
  rw [h'.active_eq, split?_append h'.isNamed h'.others] at hsplit
  simpa only [Option.some.injEq, Prod.mk.injEq, eq_comm] using hsplit

/-- What comes of an edit of the segment between the others, which knows its neighbours. -/
inductive NamedEdit
    (formulaEdit : Option FormulaSegment → FormulaSegment → Option FormulaSegment →
      Outcome FormulaSegment)
    (bezierEdit : Option BezierSegment → BezierSegment → Option BezierSegment →
      Outcome BezierSegment) (c : Curve) :
    List Segment → Segment → List Segment → Outcome Curve → Prop
  | formula (hmode : c.useBezier = false) (earlier : List FormulaSegment) (s : FormulaSegment)
      (later : List FormulaSegment) :
      NamedEdit formulaEdit bezierEdit c (earlier.map .formula) (.formula s) (later.map .formula)
        ((fun edited => { c with segments := earlier ++ edited :: later }) <$>
          formulaEdit earlier.getLast? s later.head?)
  | bezier (hmode : c.useBezier = true) (earlier : List BezierSegment) (s : BezierSegment)
      (later : List BezierSegment) :
      NamedEdit formulaEdit bezierEdit c (earlier.map .bezier) (.bezier s) (later.map .bezier)
        ((fun edited => { c with bezierSegments := earlier ++ edited :: later }) <$>
          bezierEdit earlier.getLast? s later.head?)

theorem namedEdit_of_locates
    {formulaEdit : Option FormulaSegment → FormulaSegment → Option FormulaSegment →
      Outcome FormulaSegment}
    {bezierEdit : Option BezierSegment → BezierSegment → Option BezierSegment →
      Outcome BezierSegment} (h : c.Locates id before s after) :
    NamedEdit formulaEdit bezierEdit c before s after
      (if c.useBezier then do
        let bezierSegments ← editNamed id bezierEdit c.bezierSegments
        return { c with bezierSegments }
      else do
        let segments ← editNamed id formulaEdit c.segments
        return { c with segments }) := by
  by_cases hmode : c.useBezier = true
  · obtain ⟨earlier, x, later, rfl, rfl, rfl, hedit⟩ :=
      editNamed_of_locates (active_eq_bezier hmode) (fun _ => rfl) h bezierEdit
    have hstep := @NamedEdit.bezier formulaEdit bezierEdit c hmode earlier x later
    rw [hedit, if_pos hmode]
    cases hedited : bezierEdit earlier.getLast? x later.head? <;> rwa [hedited] at hstep
  · obtain ⟨earlier, x, later, rfl, rfl, rfl, hedit⟩ :=
      editNamed_of_locates (active_eq_formula (Bool.eq_false_iff.2 hmode)) (fun _ => rfl) h
        formulaEdit
    have hstep :=
      @NamedEdit.formula formulaEdit bezierEdit c (Bool.eq_false_iff.2 hmode) earlier x later
    rw [hedit, if_neg hmode]
    cases hedited : formulaEdit earlier.getLast? x later.head? <;> rwa [hedited] at hstep

theorem drag_of_locates (h : c.Locates id before s after) (endpoint : Endpoint) (target : Target)
    (maxLevel : Datum) (snap : Snap) :
    NamedEdit (dragFormula endpoint target maxLevel snap) (dragBezier endpoint target maxLevel snap)
      c before s after (c.drag id endpoint target maxLevel snap) := namedEdit_of_locates h

theorem setRange_of_locates (h : c.Locates id before s after)
    (startLevel endLevel maxLevel : Datum) :
    NamedEdit (setSpan startLevel endLevel maxLevel) (setSpan startLevel endLevel maxLevel)
      c before s after (c.setRange id startLevel endLevel maxLevel) := namedEdit_of_locates h

/-- Nothing but one segment, between the same segments as before, is another one. -/
structure Replaces (c : Curve) (before : List Segment) (after : List Segment) (c' : Curve)
    (s' : Segment) : Prop where
  elsewhere : c.SameElsewhere c'
  active_eq : c'.active = before ++ s' :: after

theorem replaces_formula (hmode : c.useBezier = false) (earlier : List FormulaSegment)
    (x : FormulaSegment) (later : List FormulaSegment) :
    c.Replaces (earlier.map .formula) (later.map .formula)
      { c with segments := earlier ++ x :: later } (.formula x) where
  elsewhere := ⟨rfl, rfl, by rw [hmode]; rfl⟩
  active_eq := by rw [active_eq_formula (by exact hmode), List.map_append, List.map_cons]

theorem replaces_bezier (hmode : c.useBezier = true) (earlier : List BezierSegment)
    (x : BezierSegment) (later : List BezierSegment) :
    c.Replaces (earlier.map .bezier) (later.map .bezier)
      { c with bezierSegments := earlier ++ x :: later } (.bezier x) where
  elsewhere := ⟨rfl, rfl, by rw [hmode]; rfl⟩
  active_eq := by rw [active_eq_bezier (by exact hmode), List.map_append, List.map_cons]

/-- An edit that succeeds replaces the segment by what the edit makes of it. -/
theorem NamedEdit.exists_replaces
    {formulaEdit : Option FormulaSegment → FormulaSegment → Option FormulaSegment →
      Outcome FormulaSegment}
    {bezierEdit : Option BezierSegment → BezierSegment → Option BezierSegment →
      Outcome BezierSegment} {R : Segment → Segment → Prop}
    (h : NamedEdit formulaEdit bezierEdit c before s after (.ok c'))
    (hformula : ∀ previous old following new, formulaEdit previous old following = .ok new →
      R (.formula old) (.formula new))
    (hbezier : ∀ previous old following new, bezierEdit previous old following = .ok new →
      R (.bezier old) (.bezier new)) :
    ∃ s', R s s' ∧ c.Replaces before after c' s' := by
  generalize houtcome : Except.ok c' = outcome at h
  cases h with
  | formula hmode earlier x later =>
    obtain ⟨y, hy, rfl⟩ := Outcome.map_eq_ok_iff.1 houtcome.symm
    exact ⟨.formula y, hformula _ _ _ _ hy, replaces_formula hmode earlier y later⟩
  | bezier hmode earlier x later =>
    obtain ⟨y, hy, rfl⟩ := Outcome.map_eq_ok_iff.1 houtcome.symm
    exact ⟨.bezier y, hbezier _ _ _ _ hy, replaces_bezier hmode earlier y later⟩

theorem active_of_delete? (h : c.delete? id = some c') :
    c'.active = c.active.filter fun t => !(Spanned.span t).isNamed id := by
  cases delete?_cases h with
  | @formula segments hmode hstep =>
    have hactive := @active_eq_formula { c with segments } hmode
    rw [hactive, active_eq_formula hmode, hstep, List.filter_map]
    rfl
  | @bezier bezierSegments hmode hstep =>
    have hactive := @active_eq_bezier { c with bezierSegments } hmode
    rw [hactive, active_eq_bezier hmode, hstep, List.filter_map]
    rfl

theorem exists_delete? (h : ∃ s ∈ c.active, (Spanned.span s).isNamed id = true) :
    ∃ c', c.delete? id = some c' := by
  unfold delete?
  rw [if_pos (List.any_eq_true.2 h)]
  exact ⟨_, rfl⟩

theorem filter_of_locates (h : c.Locates id before s after) :
    c.active.filter (fun t => !(Spanned.span t).isNamed id) =
      before ++ after.filter fun t => !(Spanned.span t).isNamed id := by
  have hbefore : before.filter (fun t => !(Spanned.span t).isNamed id) = before :=
    List.filter_eq_self.2 fun t ht => by rw [h.others t ht, Bool.not_false]
  rw [h.active_eq, List.filter_append, hbefore, List.filter_cons, h.isNamed]
  rfl

/-- A name in use stands for one segment, the first that has it. Drags and new ranges replace that
segment by one of the same name. A deletion removes it, and no other one just if no later segment has
the name. -/
theorem delete?_removes_first (hused : ∃ s ∈ c.active, (Spanned.span s).isNamed id = true) :
    ∃ before s after, c.Locates id before s after ∧
      (∃ c', c.delete? id = some c' ∧ c.SameElsewhere c' ∧
        c'.active = before ++ after.filter (fun t => !(Spanned.span t).isNamed id) ∧
        (c'.active = before ++ after ↔ ∀ t ∈ after, (Spanned.span t).isNamed id = false)) ∧
      (∀ endpoint target maxLevel snap c', c.drag id endpoint target maxLevel snap = .ok c' →
        ∃ s', idOf s' = idOf s ∧ c.Replaces before after c' s') ∧
      ∀ startLevel endLevel maxLevel c', c.setRange id startLevel endLevel maxLevel = .ok c' →
        ∃ s', idOf s' = idOf s ∧ c.Replaces before after c' s' := by
  obtain ⟨before, s, after, hlocates⟩ := exists_locates hused
  refine ⟨before, s, after, hlocates, ?_, ?_, ?_⟩
  · obtain ⟨c', hdeleted⟩ := exists_delete? hused
    have hactive : c'.active = before ++ after.filter fun t => !(Spanned.span t).isNamed id := by
      rw [active_of_delete? hdeleted, filter_of_locates hlocates]
    refine ⟨c', hdeleted, (delete?_cases hdeleted).sameElsewhere, hactive, ?_⟩
    rw [hactive, List.append_cancel_left_eq, List.filter_eq_self]
    simp only [Bool.not_eq_true']
  · intro endpoint target maxLevel snap c' hdragged
    have hedit := drag_of_locates hlocates endpoint target maxLevel snap
    rw [hdragged] at hedit
    exact hedit.exists_replaces (R := fun old new => idOf new = idOf old)
      (fun _ _ _ _ h => idOf_of_dragFormula h) fun _ _ _ _ h => idOf_of_dragBezier h
  · intro startLevel endLevel maxLevel c' hset
    have hedit := setRange_of_locates hlocates startLevel endLevel maxLevel
    rw [hset] at hedit
    exact hedit.exists_replaces (R := fun old new => idOf new = idOf old)
      (fun _ x _ y h => (idOf_of_setSpan h : idOf y = idOf x))
      fun _ x _ y h => (idOf_of_setSpan h : idOf y = idOf x)

theorem delete?_removes_first_usual :
    let id : Datum := .text "1"
    (∃ s ∈ usual.active, (Spanned.span s).isNamed id = true) ∧
      ∃ c', usual.delete? id = some c' ∧ usual.SameElsewhere c' ∧
        c'.active = [.formula ⟨⟨"2", 10, 20⟩, usualFormula⟩] := by
  intro id
  have hfirst : usual.Locates id [] (.formula ⟨⟨"1", 1, 10⟩, usualFormula⟩)
      [.formula ⟨⟨"2", 10, 20⟩, usualFormula⟩] := ⟨rfl, rfl, fun t ht => nomatch ht⟩
  have hused : ∃ s ∈ usual.active, (Spanned.span s).isNamed id = true :=
    ⟨_, List.mem_cons_self, hfirst.isNamed⟩
  refine ⟨hused, ?_⟩
  obtain ⟨before, s, after, hlocates, ⟨c', hdeleted, helsewhere, -, hunique⟩, -⟩ :=
    delete?_removes_first hused
  obtain ⟨rfl, rfl, rfl⟩ := hfirst.unique hlocates
  exact ⟨c', hdeleted, helsewhere, hunique.2 (List.forall_mem_singleton.2 rfl)⟩

/-- Segments of one name are read as they are. A new range is given to the first one, and a
deletion removes both. -/
theorem twins_deleted_together :
    let first : FormulaSegment := ⟨⟨"1", .int 1, .int 10⟩, "100"⟩
    let second : FormulaSegment := ⟨⟨"1", .int 10, .int 20⟩, "200"⟩
    let c : Curve := ⟨[first, second], [], false, none⟩
    Curve.ofDatum c.toDatum = .ok c ∧
      c.setRange (.text "1") (.int 1) (.int 5) (.int 100) =
        .ok { c with segments := [⟨⟨"1", .int 1, .int 5⟩, "100"⟩, second] } ∧
      c.delete? (.text "1") = some { c with segments := [] } := by
  refine ⟨by rfl, by rfl, by rfl⟩

end Curve

end ExperienceCurves
