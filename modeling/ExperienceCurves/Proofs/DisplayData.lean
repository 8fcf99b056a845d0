import ExperienceCurves.Proofs.ActiveSteps
import ExperienceCurves.Proofs.Ranges
import ExperienceCurves.Proofs.RequirementBounds
import ExperienceCurves.Preset
import ExperienceCurves.Table
import Mathlib.Data.List.Forall2

/-!
What progression reads of a curve. Two curves whose active segments agree in their levels and in
what they require there cannot be told apart by requirements, tables, new characters or grants. The
names of segments, the places of handles along the levels, the scale and the other sequence are
never read.
-/
namespace ExperienceCurves

/-- The same levels and the same formula. -/
structure FormulaSegment.AgreesWith (s t : FormulaSegment) : Prop where
  startLevel : s.startLevel = t.startLevel
  endLevel : s.endLevel = t.endLevel
  formula : s.formula = t.formula

/-- The same levels and the same requirements at the ends and at the control points. -/
structure BezierSegment.AgreesWith (s t : BezierSegment) : Prop where
  startLevel : s.startLevel = t.startLevel
  endLevel : s.endLevel = t.endLevel
  startExp : s.startExp = t.startExp
  endExp : s.endExp = t.endExp
  ratio1 : s.control1.y = t.control1.y
  ratio2 : s.control2.y = t.control2.y

/-- Segments of one kind that agree on what they require. -/
def Segment.AgreesWith : Segment → Segment → Prop
  | .formula s, .formula t => s.AgreesWith t
  | .bezier s, .bezier t => s.AgreesWith t
  | _, _ => False

theorem BezierSegment.AgreesWith.requiredExp_eq {s t : BezierSegment} (h : s.AgreesWith t)
    (level : Number) : s.requiredExp level = t.requiredExp level := by
  obtain ⟨⟨id, a, b⟩, startExp, endExp, ⟨x1, y1⟩, ⟨x2, y2⟩⟩ := s
  obtain ⟨⟨id', a', b'⟩, startExp', endExp', ⟨x1', y1'⟩, ⟨x2', y2'⟩⟩ := t
  obtain ⟨rfl, rfl, rfl, rfl, rfl, rfl⟩ := h
  rfl

namespace Segment.AgreesWith

theorem refl (s : Segment) : s.AgreesWith s := by
  cases s with
  | formula s => exact ⟨rfl, rfl, rfl⟩
  | bezier s => exact ⟨rfl, rfl, rfl, rfl, rfl, rfl⟩

variable {s t : Segment}

theorem covers_eq (h : s.AgreesWith t) (level : Number) :
    (Spanned.span s).covers level = (Spanned.span t).covers level := by
  cases s with
  | formula s =>
    cases t with
    | formula t => exact congrArg₂ (·.le level && level.le ·) h.startLevel h.endLevel
    | bezier t => exact h.elim
  | bezier s =>
    cases t with
    | formula t => exact h.elim
    | bezier t => exact congrArg₂ (·.le level && level.le ·) h.startLevel h.endLevel

theorem ofSegment_eq (h : s.AgreesWith t) (level : Number) :
    Requirement.ofSegment s level = Requirement.ofSegment t level := by
  cases s with
  | formula s =>
    cases t with
    | formula t =>
      unfold Requirement.ofSegment
      dsimp only
      rw [h.formula]
    | bezier t => exact h.elim
  | bezier s =>
    cases t with
    | formula t => exact h.elim
    | bezier t => exact congrArg Outcome.ofFault (BezierSegment.AgreesWith.requiredExp_eq h level)

end Segment.AgreesWith

/-- What is found in sequences of related elements is related. -/
theorem rel_find?_of_forall₂ {α β : Type} {R : α → β → Prop} {p : α → Bool} {q : β → Bool}
    {as : List α} {bs : List β} (h : List.Forall₂ R as bs) (hpq : ∀ a b, R a b → p a = q b) :
    Option.Rel R (as.find? p) (bs.find? q) := by
  induction h with
  | nil => exact .none
  | @cons a b as bs hab _ ih =>
    rw [List.find?_cons, List.find?_cons, ← hpq a b hab]
    cases p a with
    | false => exact ih
    | true => exact .some hab

namespace Curve

/-- Curves in the same mode whose active segments agree one by one. -/
structure AgreesWith (c c' : Curve) : Prop where
  useBezier : c.useBezier = c'.useBezier
  active : List.Forall₂ Segment.AgreesWith c.active c'.active

namespace AgreesWith

variable {c c' : Curve}

theorem strict_eq (h : c.AgreesWith c') (level : Number) :
    Requirement.strict c level = Requirement.strict c' level := by
  have hfound : Option.Rel Segment.AgreesWith (c.segmentAt? level) (c'.segmentAt? level) :=
    rel_find?_of_forall₂ h.active fun s t hst => hst.covers_eq level
  unfold Requirement.strict
  generalize c.segmentAt? level = found at hfound ⊢
  generalize c'.segmentAt? level = found' at hfound ⊢
  cases hfound with
  | none => rfl
  | some hst => exact hst.ofSegment_eq level

theorem atLevel_eq (h : c.AgreesWith c') (level : Number) :
    Requirement.atLevel (some c) level = Requirement.atLevel (some c') level := by
  unfold Requirement.atLevel
  dsimp only
  rw [h.strict_eq level]

theorem hasSegments_eq (h : c.AgreesWith c') : c.hasSegments = c'.hasSegments := by
  have hactive := h.active
  unfold hasSegments
  generalize c.active = segments at hactive ⊢
  generalize c'.active = segments' at hactive ⊢
  cases hactive with
  | nil => rfl
  | cons => rfl

theorem next_eq (h : c.AgreesWith c') (growth : Option Growth) (level : Number) :
    Requirement.next (some c) growth level = Requirement.next (some c') growth level := by
  unfold Requirement.next Requirement.effective
  dsimp only
  rw [h.hasSegments_eq, h.atLevel_eq level]

end AgreesWith

end Curve

namespace Progression

/-- What grants come to one after the other. One that fails leaves the state as it was. -/
def outcomes (c : Option Curve) (growth : Option Growth) (s : Progression) :
    List Number → List (Outcome LevelUp)
  | [] => []
  | amount :: rest =>
      match s.grant c growth amount with
      | .ok r => .ok r :: outcomes c growth r.state rest
      | .error failure => .error failure :: outcomes c growth s rest

end Progression

namespace Curve

/-- Progression cannot tell the curves apart. -/
structure SameProgression (c c' : Curve) : Prop where
  atLevel : ∀ level, Requirement.atLevel (some c) level = Requirement.atLevel (some c') level
  project : ∀ first last, Table.project (some c) first last = Table.project (some c') first last
  new : ∀ maxLevel growth,
    Progression.new (some c) maxLevel growth = Progression.new (some c') maxLevel growth
  outcomes : ∀ growth s amounts, Progression.outcomes (some c) growth s amounts =
    Progression.outcomes (some c') growth s amounts

variable {c c' : Curve}

theorem AgreesWith.grant_eq (h : c.AgreesWith c') (growth : Option Growth) (s : Progression)
    (amount : Number) : s.grant (some c) growth amount = s.grant (some c') growth amount := by
  have hnext : (fun level : Int => Requirement.next (some c) growth (.int level)) =
      fun level : Int => Requirement.next (some c') growth (.int level) :=
    funext fun level => h.next_eq growth (.int level)
  unfold Progression.grant
  dsimp only
  rw [hnext]

theorem AgreesWith.sameProgression (h : c.AgreesWith c') : c.SameProgression c' where
  atLevel := h.atLevel_eq
  project first last := by
    unfold Table.project
    rw [funext fun level : Int => h.atLevel_eq (.int level)]
  new maxLevel growth := by
    unfold Progression.new
    rw [h.next_eq growth]
  outcomes growth s amounts := by
    induction amounts generalizing s with
    | nil => rfl
    | cons amount rest ih =>
      unfold Progression.outcomes
      rw [h.grant_eq growth s amount, ih s]
      cases s.grant (some c') growth amount with
      | error failure => rfl
      | ok r => exact congrArg _ (ih r.state)

theorem AgreesWith.of_active_eq (hmode : c.useBezier = c'.useBezier)
    (hactive : c.active = c'.active) : c.AgreesWith c' :=
  ⟨hmode, hactive ▸ List.forall₂_same.2 fun s _ => .refl s⟩

end Curve

namespace Outcome

/-- A family of outcomes that all succeed or all fail for one reason. -/
def Uniform {ι α : Type} (f : ι → Outcome α) : Prop :=
  (∃ failure, ∀ i, f i = .error failure) ∨ ∀ i, ∃ a, f i = .ok a

variable {ι α β : Type} {f : ι → Outcome α} {g : α → Outcome β}

theorem Uniform.error (failure : Failure) : Uniform fun _ : ι => (.error failure : Outcome α) :=
  Or.inl ⟨failure, fun _ => rfl⟩

theorem Uniform.ok (a : ι → α) : Uniform fun i => (.ok (a i) : Outcome α) :=
  Or.inr fun i => ⟨a i, rfl⟩

theorem Uniform.bind (hf : Uniform f) (hg : Uniform g) : Uniform fun i => f i >>= g := by
  rcases hf with ⟨failure, hfailure⟩ | hf
  · exact Or.inl ⟨failure, fun i => congrArg (· >>= g) (hfailure i)⟩
  · rcases hg with ⟨failure, hfailure⟩ | hg
    · refine Or.inl ⟨failure, fun i => ?_⟩
      obtain ⟨a, ha⟩ := hf i
      exact (congrArg (· >>= g) ha).trans (hfailure a)
    · refine Or.inr fun i => ?_
      obtain ⟨a, ha⟩ := hf i
      obtain ⟨b, hb⟩ := hg a
      exact ⟨b, (congrArg (· >>= g) ha).trans hb⟩

end Outcome

namespace Editing

/-- Where a control point lies along the levels. -/
def placeAlong (s : BezierSegment) (level : Datum) (span : Number) (fallback : Binary64) :
    Outcome Binary64 :=
  if span.isZero then pure fallback else do
    let offset ← (← level.toNumber).sub s.startLevel
    (CubicBezier.clamp (.real 0) (.real 1) (← offset.div span)).toBinary64

/-- Where a control point lies along the requirements. -/
def placeUpward (s : BezierSegment) (exp : Datum) (range : Number) (fallback : Binary64) :
    Outcome Binary64 :=
  if range.isZero then pure fallback else do
    let offset ← (← exp.toNumber).sub s.startExp
    (CubicBezier.clamp leastRatio greatestRatio (← offset.div range)).toBinary64

theorem controlAt_eq (s : BezierSegment) (target : Target) (fallback : ControlPoint) :
    controlAt s target fallback = do
      let span ← s.endLevel.sub s.startLevel
      let range ← s.expRange
      let x ← placeAlong s target.level span fallback.x
      let y ← placeUpward s target.exp range fallback.y
      return ⟨x, y⟩ := by
  unfold controlAt placeAlong placeUpward
  refine bind_congr fun span => bind_congr fun range => ?_
  by_cases hspan : span.isZero
  · by_cases hrange : range.isZero
    · simp only [if_pos hspan, if_pos hrange, pure_bind]
    · simp only [if_pos hspan, if_neg hrange, pure_bind, bind_assoc]
  · by_cases hrange : range.isZero
    · simp only [if_neg hspan, if_pos hrange, pure_bind, bind_assoc]
    · simp only [if_neg hspan, if_neg hrange, bind_assoc]

/-- Whether a binary level can be placed does not depend on the level. -/
theorem uniform_placeAlong (s : BezierSegment) (span : Number) (fallback : Binary64) :
    Outcome.Uniform fun x => placeAlong s (.real x) span fallback := by
  by_cases hspan : span.isZero
  · exact Or.inr fun x => ⟨fallback, if_pos hspan⟩
  have hsub (x : Binary64) : (Number.real x).sub s.startLevel =
      s.startLevel.toBinary64 >>= fun start => .ok (.real (x - start)) :=
    Number.combine_eq (Or.inl ⟨x, rfl⟩)
  have hdiv (x : Binary64) : (Number.real x).div span = span.toBinary64 >>= fun length =>
      if length.isZero then .error .divisionByZero else .ok (.real (x / length)) :=
    Number.combine_eq (Or.inl ⟨x, rfl⟩)
  have hplace (x : Binary64) : placeAlong s (.real x) span fallback =
      liftM (s.startLevel.toBinary64 >>= fun start => (.ok (.real (x - start)) : Except Fault Number))
        >>= fun offset => liftM (offset.div span) >>= fun ratio =>
          liftM (CubicBezier.clamp (.real 0) (.real 1) ratio).toBinary64 := by
    rw [placeAlong, if_neg hspan, ← hsub]
    rfl
  simp only [hplace]
  cases s.startLevel.toBinary64 with
  | error fault => exact .error (.arithmetic fault)
  | ok start =>
    change Outcome.Uniform fun x => liftM ((Number.real (x - start)).div span) >>= fun ratio =>
      (liftM (CubicBezier.clamp (.real 0) (.real 1) ratio).toBinary64 : Outcome Binary64)
    simp only [hdiv]
    cases span.toBinary64 with
    | error fault => exact .error (.arithmetic fault)
    | ok length =>
      by_cases hzero : length.isZero
      · refine Or.inl ⟨.arithmetic .divisionByZero, fun x => ?_⟩
        simp only [bind, Except.bind, if_pos hzero]
        rfl
      · refine Or.inr fun x => ?_
        obtain ⟨place, hclamp⟩ := CubicBezier.isReal_clamp ⟨0, rfl⟩ ⟨1, rfl⟩
          (⟨_, rfl⟩ : (Number.real ((x - start) / length)).IsReal)
        refine ⟨place, ?_⟩
        simp only [bind, Except.bind, if_neg hzero]
        exact congrArg (fun n : Number => Outcome.ofFault n.toBinary64) hclamp

section Controls

variable {s : BezierSegment} {level level' exp : Datum} {fallback p p' : ControlPoint}

/-- The requirement of a dragged control point does not depend on the level it is dragged to. -/
theorem controlAt_y (h : controlAt s ⟨level, exp⟩ fallback = .ok p)
    (h' : controlAt s ⟨level', exp⟩ fallback = .ok p') : p.y = p'.y := by
  rw [controlAt_eq] at h h'
  obtain ⟨span, -, h⟩ := Outcome.bind_eq_ok_iff.1 h
  obtain ⟨range, hrange, h⟩ := Outcome.bind_eq_ok_iff.1 h
  obtain ⟨x, -, h⟩ := Outcome.bind_eq_ok_iff.1 h
  obtain ⟨y, hy, h⟩ := Outcome.bind_eq_ok_iff.1 h
  obtain ⟨span', -, h'⟩ := Outcome.bind_eq_ok_iff.1 h'
  obtain ⟨range', hrange', h'⟩ := Outcome.bind_eq_ok_iff.1 h'
  obtain ⟨x', -, h'⟩ := Outcome.bind_eq_ok_iff.1 h'
  obtain ⟨y', hy', h'⟩ := Outcome.bind_eq_ok_iff.1 h'
  obtain rfl := Except.ok.inj h
  obtain rfl := Except.ok.inj h'
  obtain rfl := Except.ok.inj (hrange.symm.trans hrange')
  exact Except.ok.inj (hy.symm.trans hy')

theorem uniform_controlAt (s : BezierSegment) (exp : Datum) (fallback : ControlPoint) :
    Outcome.Uniform fun x => controlAt s ⟨.real x, exp⟩ fallback := by
  simp only [controlAt_eq]
  cases s.endLevel.sub s.startLevel with
  | error fault => exact .error (.arithmetic fault)
  | ok span =>
    cases s.expRange with
    | error fault => exact .error (.arithmetic fault)
    | ok range =>
      refine (uniform_placeAlong s span fallback.x).bind ?_
      cases placeUpward s exp range fallback.y with
      | error failure => exact .error failure
      | ok y => exact .ok fun x => (⟨x, y⟩ : ControlPoint)

end Controls

/-- The handles of the control points. -/
def Endpoint.IsControl (endpoint : Endpoint) : Prop := endpoint = .control1 ∨ endpoint = .control2

section Drags

variable {endpoint : Endpoint} {exp maxLevel : Datum} {snap : Snap}

/-- A dragged control point is put in its place, where only its requirement counts. -/
theorem exists_put (hcontrol : endpoint.IsControl) (maxLevel : Datum) (snap : Snap)
    (s : BezierSegment) : ∃ (fallback : ControlPoint) (put : ControlPoint → BezierSegment),
      (∀ target previous following, dragBezier endpoint target maxLevel snap previous s following =
        put <$> controlAt s target fallback) ∧
      ∀ p p', p.y = p'.y → (put p).AgreesWith (put p') := by
  rcases hcontrol with rfl | rfl
  · exact ⟨_, fun p => { s with control1 := p }, fun target previous following => rfl,
      fun p p' hy => ⟨rfl, rfl, rfl, rfl, hy, rfl⟩⟩
  · exact ⟨_, fun p => { s with control2 := p }, fun target previous following => rfl,
      fun p p' hy => ⟨rfl, rfl, rfl, rfl, rfl, hy⟩⟩

/-- Segments whose control point is dragged to one requirement agree, whatever the levels are. -/
theorem agreesWith_of_dragBezier (hcontrol : endpoint.IsControl) {level level' : Datum}
    {previous following : Option BezierSegment} {s t t' : BezierSegment}
    (h : dragBezier endpoint ⟨level, exp⟩ maxLevel snap previous s following = .ok t)
    (h' : dragBezier endpoint ⟨level', exp⟩ maxLevel snap previous s following = .ok t') :
    t.AgreesWith t' := by
  obtain ⟨fallback, put, hdrag, hagree⟩ := exists_put hcontrol maxLevel snap s
  rw [hdrag] at h h'
  obtain ⟨p, hp, rfl⟩ := Outcome.map_eq_ok_iff.1 h
  obtain ⟨p', hp', rfl⟩ := Outcome.map_eq_ok_iff.1 h'
  exact hagree p p' (controlAt_y hp hp')

theorem uniform_dragBezier (hcontrol : endpoint.IsControl) (exp maxLevel : Datum) (snap : Snap)
    (previous : Option BezierSegment) (s : BezierSegment) (following : Option BezierSegment) :
    Outcome.Uniform fun x =>
      dragBezier endpoint ⟨.real x, exp⟩ maxLevel snap previous s following := by
  obtain ⟨fallback, put, hdrag, -⟩ := exists_put hcontrol maxLevel snap s
  simp only [hdrag, map_eq_pure_bind]
  exact (uniform_controlAt s exp fallback).bind (.ok put)

theorem dragFormula_control (hcontrol : endpoint.IsControl) (target : Target) (maxLevel : Datum)
    (snap : Snap) (previous : Option FormulaSegment) (s : FormulaSegment)
    (following : Option FormulaSegment) :
    dragFormula endpoint target maxLevel snap previous s following =
      .error (.range ⟨.noControlPoints, s.startLevel, s.endLevel⟩) := by
  rcases hcontrol with rfl | rfl <;> rfl

end Drags

section Named

variable {α : Type} [Spanned α] {id : Datum} {segments : List α}

/-- Two edits of the same segment give sequences that are related as the edited segments are. -/
theorem forall₂_of_editNamed {R : α → α → Prop} {edit edit' : Option α → α → Option α → Outcome α}
    {out out' : List α} (hrefl : ∀ s, R s s)
    (hedit : ∀ previous s following t t', edit previous s following = .ok t →
      edit' previous s following = .ok t' → R t t')
    (h : editNamed id edit segments = .ok out) (h' : editNamed id edit' segments = .ok out') :
    List.Forall₂ R out out' := by
  unfold editNamed at h h'
  cases hsplit : split? id segments with
  | none =>
    rw [hsplit] at h
    cases h
  | some parts =>
    obtain ⟨before, s, after⟩ := parts
    rw [hsplit] at h h'
    obtain ⟨t, ht, h⟩ := Outcome.bind_eq_ok_iff.1 h
    obtain ⟨t', ht', h'⟩ := Outcome.bind_eq_ok_iff.1 h'
    obtain rfl := Except.ok.inj h
    obtain rfl := Except.ok.inj h'
    have hsame (others : List α) : List.Forall₂ R others others :=
      List.forall₂_same.2 fun s _ => hrefl s
    exact List.rel_append (hsame before) (.cons (hedit _ _ _ _ _ ht ht') (hsame after))

theorem uniform_editNamed {ι : Type} {edit : ι → Option α → α → Option α → Outcome α} (id : Datum)
    (segments : List α)
    (hedit : ∀ previous s following, Outcome.Uniform fun i => edit i previous s following) :
    Outcome.Uniform fun i => editNamed id (edit i) segments := by
  unfold editNamed
  cases split? id segments with
  | none => exact .error (Failure.unknownSegment id).written
  | some parts =>
    obtain ⟨before, s, after⟩ := parts
    exact (hedit before.getLast? s after.head?).bind (.ok fun t => before ++ t :: after)

end Named

end Editing

namespace Curve

open Editing

variable {c : Curve} {id exp maxLevel : Datum} {endpoint : Endpoint} {snap : Snap}

theorem agreesWith_of_drag (hcontrol : endpoint.IsControl) {level level' : Datum} {c₁ c₂ : Curve}
    (h₁ : c.drag id endpoint ⟨level, exp⟩ maxLevel snap = .ok c₁)
    (h₂ : c.drag id endpoint ⟨level', exp⟩ maxLevel snap = .ok c₂) : c₁.AgreesWith c₂ := by
  obtain ⟨segments, bezierSegments, useBezier, yAxisMax⟩ := c
  cases useBezier with
  | false =>
    obtain ⟨out, hout, -⟩ := Outcome.bind_eq_ok_iff.1 h₁
    obtain ⟨before, old, new, after, -, -, hnew⟩ := editNamed_spec hout
    rw [dragFormula_control hcontrol] at hnew
    cases hnew
  | true =>
    obtain ⟨out₁, hout₁, h₁⟩ := Outcome.bind_eq_ok_iff.1 h₁
    obtain ⟨out₂, hout₂, h₂⟩ := Outcome.bind_eq_ok_iff.1 h₂
    obtain rfl := Except.ok.inj h₁
    obtain rfl := Except.ok.inj h₂
    refine ⟨rfl, ?_⟩
    rw [active_eq_bezier rfl, active_eq_bezier rfl, List.forall₂_map_left_iff,
      List.forall₂_map_right_iff]
    exact forall₂_of_editNamed (fun s => ⟨rfl, rfl, rfl, rfl, rfl, rfl⟩)
      (fun previous s following t t' ht ht' => agreesWith_of_dragBezier hcontrol ht ht') hout₁ hout₂

/-- Whether a control point can be dragged to a binary level does not depend on the level. -/
theorem uniform_drag (hcontrol : endpoint.IsControl) (c : Curve) (id exp maxLevel : Datum)
    (snap : Snap) : Outcome.Uniform fun x => c.drag id endpoint ⟨.real x, exp⟩ maxLevel snap := by
  unfold drag
  cases c.useBezier with
  | false =>
    refine (uniform_editNamed id c.segments fun previous s following => ?_).bind (.ok fun _ => _)
    simp only [dragFormula_control hcontrol]
    exact .error _
  | true =>
    exact (uniform_editNamed id c.bezierSegments
      (uniform_dragBezier hcontrol exp maxLevel snap)).bind (.ok fun _ => _)

/-- Progression cannot tell curves apart that agree on what their active segments require. In
particular a new scale changes nothing for it, and neither does the level to which a control point is
dragged, on which it does not even depend whether the drag succeeds. -/
theorem display_never_counts (c : Curve) :
    (∀ c', c.AgreesWith c' → c.SameProgression c') ∧
    (∀ c', c.resetScale = .ok c' → c.SameProgression c') ∧
    ∀ (id exp maxLevel : Datum) (endpoint : Endpoint) (snap : Snap), endpoint.IsControl →
      (Outcome.Uniform fun x => c.drag id endpoint ⟨.real x, exp⟩ maxLevel snap) ∧
      ∀ level level' c₁ c₂, c.drag id endpoint ⟨level, exp⟩ maxLevel snap = .ok c₁ →
        c.drag id endpoint ⟨level', exp⟩ maxLevel snap = .ok c₂ → c₁.SameProgression c₂ := by
  refine ⟨fun c' h => h.sameProgression, fun c' hreset => ?_,
    fun id exp maxLevel endpoint snap hcontrol =>
      ⟨uniform_drag hcontrol c id exp maxLevel snap, fun level level' c₁ c₂ h₁ h₂ =>
        (agreesWith_of_drag hcontrol h₁ h₂).sameProgression⟩⟩
  obtain ⟨scale, -, h⟩ := Outcome.bind_eq_ok_iff.1 hreset
  obtain rfl := Except.ok.inj h
  have hagree : c.AgreesWith { c with yAxisMax := some (.number scale) } := .of_active_eq rfl rfl
  exact hagree.sameProgression

/-- The usual curve under other names, with another scale and without its Bezier segments. -/
theorem display_never_counts_usual :
    let other : Curve := ⟨[⟨⟨"low", .int 1, .int 10⟩, usualFormula⟩,
      ⟨⟨"high", .int 10, .int 20⟩, usualFormula⟩], [], false, some (.int 7)⟩
    let smooth : Curve := usual.withMode true
    usual.AgreesWith other ∧ usual.SameProgression other ∧
      (∃ c', usual.resetScale = .ok c' ∧ usual.SameProgression c') ∧
      Endpoint.control1.IsControl ∧
      ∃ c₁ c₂, smooth.drag (.text "1") .control1 ⟨.int 4, .int 800⟩ (.int 20) usualSnap = .ok c₁ ∧
        smooth.drag (.text "1") .control1 ⟨.int 7, .int 800⟩ (.int 20) usualSnap = .ok c₂ ∧
        c₁.SameProgression c₂ := by
  intro other smooth
  have hagree : usual.AgreesWith other :=
    ⟨rfl, .cons ⟨rfl, rfl, rfl⟩ (.cons ⟨rfl, rfl, rfl⟩ .nil)⟩
  have hreset : usual.resetScale.isOk = true := by decide +kernel
  obtain ⟨c', hc'⟩ := Outcome.exists_of_isOk hreset
  have hfirst : (smooth.drag (.text "1") .control1 ⟨.int 4, .int 800⟩ (.int 20) usualSnap).isOk =
    true := by decide +kernel
  obtain ⟨c₁, h₁⟩ := Outcome.exists_of_isOk hfirst
  have hsecond : (smooth.drag (.text "1") .control1 ⟨.int 7, .int 800⟩ (.int 20) usualSnap).isOk =
    true := by decide +kernel
  obtain ⟨c₂, h₂⟩ := Outcome.exists_of_isOk hsecond
  exact ⟨hagree, (display_never_counts usual).1 other hagree,
    ⟨c', hc', (display_never_counts usual).2.1 c' hc'⟩, Or.inl rfl, c₁, c₂, h₁, h₂,
    ((display_never_counts smooth).2.2 _ _ _ _ _ (Or.inl rfl)).2 _ _ c₁ c₂ h₁ h₂⟩

end Curve

end ExperienceCurves
