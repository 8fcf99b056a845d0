import ExperienceCurves.Proofs.EvenDivision
import ExperienceCurves.Proofs.NamedSegments
import ExperienceCurves.Proofs.NearestRounding

/-!
Shapes of Bezier segments. A segment is moved and stretched by giving it another range. The quotient
that places a level in its segment is rounded from its exact value, so fractions of one value place
their levels alike, in lowest terms or not. Everything else that the requirement depends on is the
shape, which edits of the range keep.
-/
namespace ExperienceCurves

namespace BezierSegment

/-- The segments have the same requirements at their ends and the same ratios in between. -/
structure SameShape (s s' : BezierSegment) : Prop where
  startExp : s'.startExp = s.startExp
  endExp : s'.endExp = s.endExp
  control1 : s'.control1.y = s.control1.y
  control2 : s'.control2.y = s.control2.y

/-- Whole levels in order. -/
structure HasLevels (s : BezierSegment) (first last : Int) : Prop where
  startLevel : s.startLevel = .int first
  endLevel : s.endLevel = .int last
  first_lt_last : first < last

/-- A level of one segment and a level of another one stand at the same fraction of their ranges. -/
def SameFraction (s s' : BezierSegment) (level level' : Int) : Prop :=
  ∃ first last first' last', s.HasLevels first last ∧ s'.HasLevels first' last' ∧
    (level - first) * (last' - first') = (level' - first') * (last - first)

variable {s s' : BezierSegment} {level level' first last : Int}

theorem SameShape.curve_eq (h : s.SameShape s') : s'.curve = s.curve := by
  unfold curve expRange controlExp
  rw [h.startExp, h.endExp, h.control1, h.control2]

theorem HasLevels.parameter_eq_quotient (h : s.HasLevels first last) (level : Int) :
    s.parameter (.int level) = Number.quotient (level - first) (last - first) >>= fun ratio =>
      .ok (CubicBezier.clamp (.real 0) (.real 1) ratio) :=
  parameter_eq h.startLevel h.endLevel h.first_lt_last (Number.sub_int level first)

/-- Levels at the same fraction are placed alike. -/
theorem SameFraction.parameter_eq (h : s.SameFraction s' level level') :
    s'.parameter (.int level') = s.parameter (.int level) := by
  obtain ⟨first, last, first', last', hlevels, hlevels', hfraction⟩ := h
  have hspan : 0 < last - first := Int.sub_pos_of_lt hlevels.first_lt_last
  have hspan' : 0 < last' - first' := Int.sub_pos_of_lt hlevels'.first_lt_last
  rw [hlevels.parameter_eq_quotient, hlevels'.parameter_eq_quotient,
    Number.quotient_eq_of_mul_eq hspan' hspan hfraction.symm]

/-- The requirement, or the fault in its place, is decided by the shape and the fraction. -/
theorem SameShape.requiredExp_eq (hshape : s.SameShape s')
    (hfraction : s.SameFraction s' level level') :
    s'.requiredExp (.int level') = s.requiredExp (.int level) := by
  unfold requiredExp
  rw [hfraction.parameter_eq, hshape.curve_eq]

theorem sameShape_withRange (s : BezierSegment) (startLevel endLevel : Number) :
    s.SameShape (Editing.withRange s startLevel endLevel) := ⟨rfl, rfl, rfl, rfl⟩

end BezierSegment

namespace Editing

variable {α : Type} [Spanned α] {segments out : List α}

theorem forall₂_of_spread {base firstLong start : Number} {index : ℕ}
    (h : spread base firstLong index start segments = .ok out) :
    List.Forall₂ (fun old new => ∃ a b, new = withRange old a b) segments out := by
  induction segments generalizing index start out with
  | nil =>
    obtain rfl := Except.ok.inj h
    exact .nil
  | cons segment rest ih =>
    obtain ⟨span, -, h⟩ := Outcome.bind_eq_ok_iff.1 h
    obtain ⟨finish, -, h⟩ := Outcome.bind_eq_ok_iff.1 h
    obtain ⟨others, hothers, h⟩ := Outcome.bind_eq_ok_iff.1 h
    obtain rfl := Except.ok.inj h
    exact .cons ⟨start, finish, rfl⟩ (ih hothers)

/-- Whatever maximum the levels are divided up to, each segment gets another range and no more. -/
theorem forall₂_of_redistribute {maxLevel : Datum} (h : redistribute maxLevel segments = .ok out) :
    List.Forall₂ (fun old new => ∃ a b, new = withRange old a b) segments out := by
  obtain ⟨total, -, h⟩ := Outcome.bind_eq_ok_iff.1 h
  split at h
  · cases h
  · obtain ⟨⟨base, remainder⟩, -, h⟩ := Outcome.bind_eq_ok_iff.1 h
    obtain ⟨firstLong, -, h⟩ := Outcome.bind_eq_ok_iff.1 h
    exact forall₂_of_spread (Outcome.ofFault_eq_ok_iff.1 h)

/-- The named segment gets another range, and the others stay. -/
theorem forall₂_of_setSpan {id startLevel endLevel maxLevel : Datum}
    (h : editNamed id (Curve.setSpan startLevel endLevel maxLevel) segments = .ok out) :
    List.Forall₂ (fun old new => new = old ∨ ∃ a b, new = withRange old a b) segments out := by
  obtain ⟨before, old, new, after, rfl, rfl, hnew⟩ := editNamed_spec h
  have hkept : ∀ kept : List α,
      List.Forall₂ (fun old new => new = old ∨ ∃ a b, new = withRange old a b) kept kept :=
    fun kept => List.forall₂_same.2 fun _ _ => Or.inl rfl
  obtain ⟨-, -, hnew⟩ := Outcome.bind_eq_ok_iff.1 hnew
  obtain ⟨a, -, hnew⟩ := Outcome.bind_eq_ok_iff.1 hnew
  obtain ⟨b, -, hnew⟩ := Outcome.bind_eq_ok_iff.1 hnew
  obtain rfl := Except.ok.inj hnew
  exact List.rel_append (hkept before) (.cons (Or.inr ⟨a, b, rfl⟩) (hkept after))

end Editing

namespace Curve

open Editing

/-- What becomes of a segment in an edit of ranges: it keeps its name and its shape. A level of the
new range requires what a level of the old range at the same fraction did, also on the curve if the
segment decides there. -/
structure Stretches (c c' : Curve) (s s' : BezierSegment) : Prop where
  id : s'.id = s.id
  shape : s.SameShape s'
  requiredExp : ∀ level level', s.SameFraction s' level level' →
    s'.requiredExp (.int level') = s.requiredExp (.int level)
  atLevel : ∀ level level', s.SameFraction s' level level' →
    c.segmentAt? (.int level) = some (.bezier s) →
    c'.segmentAt? (.int level') = some (.bezier s') →
    Requirement.atLevel (some c') (.int level') = Requirement.atLevel (some c) (.int level)

variable {c c' : Curve} {s s' : BezierSegment}

theorem stretches_of_sameShape (hid : s'.id = s.id) (hshape : s.SameShape s') :
    c.Stretches c' s s' where
  id := hid
  shape := hshape
  requiredExp _ _ := hshape.requiredExp_eq
  atLevel level level' hfraction hs hs' := by
    rw [Requirement.atLevel_of_segmentAt? hs, Requirement.atLevel_of_segmentAt? hs']
    unfold Requirement.bySegment Requirement.ofSegment
    dsimp only
    rw [hshape.requiredExp_eq hfraction]

theorem stretches_withRange (s : BezierSegment) (startLevel endLevel : Number) :
    c.Stretches c' s (withRange s startLevel endLevel) :=
  stretches_of_sameShape rfl (s.sameShape_withRange startLevel endLevel)

/-- A redistribution stretches every segment. -/
theorem forall₂_stretches_of_redistribute? {maxLevel : Datum} (hmode : c.useBezier = true)
    (h : c.redistribute? maxLevel = .ok (some c')) :
    List.Forall₂ (c.Stretches c') c.bezierSegments c'.bezierSegments := by
  cases redistribute?_cases h with
  | formula hformula hstep => simp [hmode] at hformula
  | bezier _ hstep =>
    refine (forall₂_of_redistribute hstep.2).imp ?_
    rintro s s' ⟨a, b, rfl⟩
    exact stretches_withRange s a b

/-- A new range stretches the segment that it is for. -/
theorem forall₂_stretches_of_setRange {id startLevel endLevel maxLevel : Datum}
    (hmode : c.useBezier = true) (h : c.setRange id startLevel endLevel maxLevel = .ok c') :
    List.Forall₂ (c.Stretches c') c.bezierSegments c'.bezierSegments := by
  cases setRange_cases h with
  | formula hformula hstep => simp [hmode] at hformula
  | bezier _ hstep =>
    refine (forall₂_of_setSpan hstep).imp ?_
    rintro s s' (rfl | ⟨a, b, rfl⟩)
    · exact stretches_of_sameShape rfl ⟨rfl, rfl, rfl, rfl⟩
    · exact stretches_withRange s a b

/-- Up to a whole maximum the new ranges are ranges of whole levels. -/
theorem hasLevels_of_redistribute? {maxLevel : Int} (hmode : c.useBezier = true)
    (h : c.redistribute? (.int maxLevel) = .ok (some c')) :
    ∀ s' ∈ c'.bezierSegments, ∃ first last, s'.HasLevels first last := by
  cases redistribute?_cases h with
  | formula hformula hstep => simp [hmode] at hformula
  | bezier _ hstep =>
    intro s' hs'
    obtain ⟨a, b, hstart, hend, -, hlt, -⟩ := (redistribute_spec hstep.1 hstep.2).2 s' hs'
    exact ⟨a, b, hstart, hend, hlt⟩

/-- Segments of one shape require the same at levels that stand at the same fraction of their ranges,
and so do the segments of a curve before and after a redistribution or a new range. -/
theorem stretching_keeps_shape :
    (∀ (s s' : BezierSegment) (level level' : Int), s.SameShape s' →
      s.SameFraction s' level level' →
      s'.requiredExp (.int level') = s.requiredExp (.int level)) ∧
    ∀ c c' : Curve, c.useBezier = true →
      (∀ maxLevel, c.redistribute? maxLevel = .ok (some c') →
        List.Forall₂ (c.Stretches c') c.bezierSegments c'.bezierSegments) ∧
      (∀ maxLevel : Int, c.redistribute? (.int maxLevel) = .ok (some c') →
        ∀ s' ∈ c'.bezierSegments, ∃ first last, s'.HasLevels first last) ∧
      ∀ id startLevel endLevel maxLevel, c.setRange id startLevel endLevel maxLevel = .ok c' →
        List.Forall₂ (c.Stretches c') c.bezierSegments c'.bezierSegments := by
  refine ⟨fun s s' level level' hshape => hshape.requiredExp_eq, ?_⟩
  intro c c' hmode
  refine ⟨?_, ?_, ?_⟩
  · intro maxLevel h
    exact forall₂_stretches_of_redistribute? hmode h
  · intro maxLevel h
    exact hasLevels_of_redistribute? hmode h
  · intro id startLevel endLevel maxLevel h
    exact forall₂_stretches_of_setRange hmode h

/-- Three levels of nine and four levels of twelve are the same third of a range. -/
theorem stretching_keeps_shape_thirds :
    let a : BezierSegment := ⟨⟨"a", .int 1, .int 10⟩, .real (.ofNat 100), .real (.ofNat 1500),
      .usual1, .usual2⟩
    let b : BezierSegment := ⟨⟨"b", .int 10, .int 22⟩, .real (.ofNat 1500), .real (.ofNat 9000),
      .usual1, .usual2⟩
    let c : Curve := ⟨[], [a, b], true, none⟩
    let a' : BezierSegment := withRange a (.int 1) (.int 13)
    let b' : BezierSegment := withRange b (.int 13) (.int 25)
    let b'' : BezierSegment := withRange b (.int 12) (.int 16)
    let divided : Curve := ⟨[], [a', b'], true, none⟩
    let ranged : Curve := ⟨[], [a, b''], true, none⟩
    (a.SameShape a' ∧ a.SameFraction a' 4 5 ∧ a.requiredExp (.int 4) = .ok 494 ∧
      a'.requiredExp (.int 5) = .ok 494) ∧
    (c.redistribute? (.int 25) = .ok (some divided) ∧ a'.HasLevels 1 13 ∧
      c.Stretches divided a a' ∧ c.Stretches divided b b') ∧
    c.setRange (.text "b") (.int 12) (.int 16) (.int 100) = .ok ranged ∧
      c.Stretches ranged b b'' := by
  intro a b c a' b' b'' divided ranged
  obtain ⟨hsegments, hcurves⟩ := stretching_keeps_shape
  have hshape : a.SameShape a' := ⟨rfl, rfl, rfl, rfl⟩
  have hfraction : a.SameFraction a' 4 5 :=
    ⟨1, 10, 1, 13, ⟨rfl, rfl, by decide⟩, ⟨rfl, rfl, by decide⟩, by decide⟩
  have hold : a.requiredExp (.int 4) = .ok 494 := Outcome.eq_ok_of_toOption (by decide +kernel)
  have hparts : Editing.divided 25 c.bezierSegments = [a', b'] := by decide +kernel
  have hdivided : c.redistribute? (.int 25) = .ok (some divided) := by
    rw [redistribute?_int, if_neg (by decide), if_neg (by decide), Curve.divided, if_pos rfl,
      hparts]
  have hranged : c.setRange (.text "b") (.int 12) (.int 16) (.int 100) = .ok ranged := rfl
  obtain ⟨hstretches, hlevels, -⟩ := hcurves c divided rfl
  obtain ⟨first, last, hfirst⟩ := hlevels 25 hdivided a' List.mem_cons_self
  obtain rfl : 1 = first := Number.int.inj hfirst.startLevel
  obtain rfl : 13 = last := Number.int.inj hfirst.endLevel
  have hboth := hstretches (.int 25) hdivided
  have hone := (hcurves c ranged rfl).2.2 _ _ _ _ hranged
  simp only [c, divided, ranged, List.forall₂_cons] at hboth hone
  exact ⟨⟨hshape, hfraction, hold, (hsegments a a' 4 5 hshape hfraction).trans hold⟩,
    ⟨hdivided, hfirst, hboth.1, hboth.2.1⟩, hranged, hone.2.1⟩

end Curve

end ExperienceCurves
