import ExperienceCurves.Proofs.Names
import Mathlib.Tactic.Common

/-!
Level ranges of edited segments. Between whole levels the check of a range is a matter of whole
numbers, and a segment that is appended lies between level one and the maximum.
-/
namespace ExperienceCurves

namespace Span

/-- Both levels are whole numbers. -/
def IsWhole (s : Span) : Prop := ∃ a b : Int, s.startLevel = .int a ∧ s.endLevel = .int b

/-- Whole levels in order, from one to the maximum. -/
def Within (s : Span) (maxLevel : Int) : Prop :=
  ∃ a b : Int, s.startLevel = .int a ∧ s.endLevel = .int b ∧ 1 ≤ a ∧ a < b ∧ b ≤ maxLevel

variable {s : Span} {maxLevel : Int}

theorem Within.isWhole (h : s.Within maxLevel) : s.IsWhole := by
  obtain ⟨a, b, hstart, hend, -⟩ := h
  exact ⟨a, b, hstart, hend⟩

theorem Within.mono {lower : Int} (h : s.Within lower) (hle : lower ≤ maxLevel) :
    s.Within maxLevel := by
  obtain ⟨a, b, hstart, hend, hone, hlt, hmax⟩ := h
  exact ⟨a, b, hstart, hend, hone, hlt, by omega⟩

/-- Why two levels are no range from one to the maximum. -/
def refusal? (a b maxLevel : Int) : Option RangeError :=
  if b ≤ a then some ⟨.reversed, .int a, .int b⟩
  else if a < 1 ∨ maxLevel < b then some ⟨.outside (.int maxLevel), .int a, .int b⟩
  else none

theorem refusal?_eq_none_iff {a b : Int} :
    refusal? a b maxLevel = none ↔ 1 ≤ a ∧ a < b ∧ b ≤ maxLevel := by
  unfold refusal?
  split
  · simp only [reduceCtorEq, false_iff]
    omega
  · split
    · simp only [reduceCtorEq, false_iff]
      omega
    · simp only [true_iff]
      omega

theorem checkRange_int (a b maxLevel : Int) :
    checkRange (.int a) (.int b) (.int maxLevel) =
      match refusal? a b maxLevel with
      | none => .ok ()
      | some r => .error (Failure.range r).written := by
  simp only [checkRange, refusal?, Datum.holds_atLeast_int, Datum.holds_below_int,
    Datum.holds_above_int, Outcome.liftM_ok, bind, Except.bind, decide_eq_true_eq]
  by_cases hreversed : b ≤ a
  · rw [if_pos hreversed, if_pos hreversed]
    rfl
  · rw [if_neg hreversed, if_neg hreversed]
    by_cases hlow : a < 1
    · rw [if_pos hlow, if_pos (Or.inl hlow)]
      rfl
    · rw [if_neg hlow]
      by_cases hhigh : maxLevel < b
      · rw [if_pos hhigh, if_pos (Or.inr hhigh)]
        rfl
      · rw [if_neg hhigh, if_neg (by omega)]
        rfl

theorem checkRange_int_eq_ok_iff (a b maxLevel : Int) :
    checkRange (.int a) (.int b) (.int maxLevel) = .ok () ↔ 1 ≤ a ∧ a < b ∧ b ≤ maxLevel := by
  rw [checkRange_int, ← refusal?_eq_none_iff]
  cases refusal? a b maxLevel <;> simp

/-- The check of a range accepts just the ranges from one to the maximum. -/
theorem check_eq_ok_iff (h : s.IsWhole) : s.check (.int maxLevel) = .ok () ↔ s.Within maxLevel := by
  obtain ⟨a, b, hstart, hend⟩ := h
  unfold check
  rw [hstart, hend]
  constructor
  · intro hcheck
    obtain ⟨hone, hlt, hmax⟩ := (checkRange_int_eq_ok_iff a b maxLevel).1 hcheck
    exact ⟨a, b, hstart, hend, hone, hlt, hmax⟩
  · rintro ⟨a', b', hstart', hend', hone, hlt, hmax⟩
    obtain rfl := Number.int.inj (hstart.symm.trans hstart')
    obtain rfl := Number.int.inj (hend.symm.trans hend')
    exact (checkRange_int_eq_ok_iff a b maxLevel).2 ⟨hone, hlt, hmax⟩

end Span

namespace Editing

section Spanned

variable {α : Type} [Spanned α]

theorem span_withRange (segment : α) (startLevel endLevel : Number) :
    Spanned.span (withRange segment startLevel endLevel) =
      { Spanned.span segment with startLevel, endLevel } :=
  Spanned.span_withSpan segment _

theorem within_withRange {segment : α} {a b maxLevel : Int} (hone : 1 ≤ a) (hlt : a < b)
    (hmax : b ≤ maxLevel) :
    (Spanned.span (withRange segment (.int a) (.int b))).Within maxLevel := by
  rw [span_withRange]
  exact ⟨a, b, rfl, rfl, hone, hlt, hmax⟩

theorem isWhole_withId {segment : α} {id : String} (h : (Spanned.span segment).IsWhole) :
    (Spanned.span (withId segment id)).IsWhole := by
  rw [withId, Spanned.span_withSpan]
  exact h

theorem push_spec {segments out : List α} {segment : α} {maxLevel : Int}
    (hwhole : (Spanned.span segment).IsWhole)
    (h : push segments segment (.int maxLevel) = .ok out) :
    out = segments ++ [segment] ∧ (Spanned.span segment).Within maxLevel := by
  obtain ⟨⟨⟩, hcheck, h⟩ := Outcome.bind_eq_ok_iff.1 h
  obtain rfl := Except.ok.inj h
  exact ⟨rfl, (Span.check_eq_ok_iff hwhole).1 hcheck⟩

/-- A span that continues from a whole level by a whole step, cut off at the maximum. -/
theorem continuation_int {last : Option Span} {ids : List String} {a step maxLevel : Int}
    (hlast : (last.map Span.endLevel).getD 1 = .int a) :
    continuation last ids (.int step) (.int maxLevel) =
      nextId ids >>= fun id => .ok ⟨id, .int a, .int (min (a + step) maxLevel)⟩ := by
  cases last with
  | none =>
    obtain rfl : 1 = a := Number.int.inj hlast
    simp only [continuation, Number.one_eq, Datum.addTo_int, Datum.number_int, Datum.min_int,
      Outcome.liftM_ok, bind, Except.bind]
    rfl
  | some previous =>
    have hend : previous.endLevel = .int a := hlast
    simp only [continuation, hend, Datum.addTo_int, Datum.number_int, Datum.min_int,
      Outcome.liftM_ok, bind, Except.bind]
    rfl

/-- Whole segments are continued from a whole level. -/
theorem exists_lastLevel {segments : List α} (h : ∀ s ∈ segments, (Spanned.span s).IsWhole) :
    ∃ a : Int, ((segments.getLast?.map Spanned.span).map Span.endLevel).getD 1 = .int a := by
  cases hlast : segments.getLast? with
  | none => exact ⟨1, rfl⟩
  | some last =>
    obtain ⟨-, b, -, hend⟩ := h last (List.mem_of_getLast? hlast)
    exact ⟨b, hend⟩

theorem continuation_spec {segments : List α} {step maxLevel : Int} {s : Span}
    (hwhole : ∀ s ∈ segments, (Spanned.span s).IsWhole)
    (h : continuation (segments.getLast?.map Spanned.span) (segments.map idOf) (.int step)
      (.int maxLevel) = .ok s) :
    s.IsWhole ∧ nextId (segments.map idOf) = .ok s.id := by
  obtain ⟨a, hlast⟩ := exists_lastLevel hwhole
  rw [continuation_int hlast] at h
  obtain ⟨id, hid, h⟩ := Outcome.bind_eq_ok_iff.1 h
  obtain rfl := Except.ok.inj h
  exact ⟨⟨_, _, rfl, rfl⟩, hid⟩

end Spanned

variable {step maxLevel : Int}

theorem nextFormula_spec {segments : List FormulaSegment} {s : FormulaSegment}
    (hwhole : ∀ s ∈ segments, s.toSpan.IsWhole)
    (h : nextFormula segments (.int step) (.int maxLevel) = .ok s) :
    s.toSpan.IsWhole ∧ nextId (segments.map idOf) = .ok s.id ∧
      s.formula = (segments.getLast?.map (·.formula)).getD usualFormula := by
  obtain ⟨span, hspan, h⟩ := Outcome.bind_eq_ok_iff.1 h
  obtain rfl := Except.ok.inj h
  obtain ⟨hspanWhole, hid⟩ := continuation_spec hwhole hspan
  exact ⟨hspanWhole, hid, rfl⟩

theorem nextBezier_spec {segments : List BezierSegment} {expGrowth : Datum} {s : BezierSegment}
    (hwhole : ∀ s ∈ segments, s.toSpan.IsWhole)
    (h : nextBezier segments (.int step) (.int maxLevel) expGrowth = .ok s) :
    s.toSpan.IsWhole ∧ nextId (segments.map idOf) = .ok s.id ∧
      s.startExp = (segments.getLast?.map (·.endExp)).getD (.real 100) ∧
      ∃ product, (Datum.number s.startExp).mul expGrowth = .ok product ∧
        product.toNumber = .ok s.endExp := by
  obtain ⟨span, hspan, h⟩ := Outcome.bind_eq_ok_iff.1 h
  obtain ⟨product, hproduct, h⟩ := Outcome.bind_eq_ok_iff.1 h
  obtain ⟨endExp, hend, h⟩ := Outcome.bind_eq_ok_iff.1 h
  obtain rfl := Except.ok.inj h
  obtain ⟨hspanWhole, hid⟩ := continuation_spec hwhole hspan
  exact ⟨hspanWhole, hid, rfl, product, Outcome.liftM_eq_ok_iff.1 hproduct, hend⟩

/-- One segment more at the end, within the maximum and with a name of its own. -/
structure Extends {α : Type} [Spanned α] (maxLevel : Int) (segments out : List α) (segment : α) :
    Prop where
  eq_append : out = segments ++ [segment]
  within : (Spanned.span segment).Within maxLevel
  unused : idOf segment ∉ segments.map idOf

/-- The segment that is given, up to its name. -/
def IsRenamed {α : Type} [Spanned α] (ids : List String) (given segment : α) : Prop :=
  segment = given ∨ ∃ id, nextId ids = .ok id ∧ segment = withId given id

theorem IsRenamed.isWhole {α : Type} [Spanned α] {ids : List String} {given segment : α}
    (h : IsRenamed ids given segment) (hgiven : (Spanned.span given).IsWhole) :
    (Spanned.span segment).IsWhole := by
  rcases h with rfl | ⟨id, -, rfl⟩
  · exact hgiven
  · exact isWhole_withId hgiven

theorem appendFormula_default {segments out : List FormulaSegment} {maxSegments expGrowth : Datum}
    (hwhole : ∀ s ∈ segments, s.toSpan.IsWhole)
    (h : appendFormula segments (.int maxLevel) ⟨maxSegments, .int step, expGrowth⟩ none = .ok out) :
    ∃ s, Extends maxLevel segments out s ∧
      nextFormula segments (.int step) (.int maxLevel) = .ok s := by
  obtain ⟨s, hs, hpush⟩ := Outcome.bind_eq_ok_iff.1 h
  obtain ⟨hspan, hid, -⟩ := nextFormula_spec hwhole hs
  obtain ⟨hout, hwithin⟩ := push_spec hspan hpush
  exact ⟨s, ⟨hout, hwithin, (nextId_spec hid).1⟩, hs⟩

theorem appendBezier_default {segments out : List BezierSegment} {maxSegments expGrowth : Datum}
    (hwhole : ∀ s ∈ segments, s.toSpan.IsWhole)
    (h : appendBezier segments (.int maxLevel) ⟨maxSegments, .int step, expGrowth⟩ none = .ok out) :
    ∃ s, Extends maxLevel segments out s ∧
      nextBezier segments (.int step) (.int maxLevel) expGrowth = .ok s := by
  obtain ⟨s, hs, hpush⟩ := Outcome.bind_eq_ok_iff.1 h
  obtain ⟨hspan, hid, -⟩ := nextBezier_spec hwhole hs
  obtain ⟨hout, hwithin⟩ := push_spec hspan hpush
  exact ⟨s, ⟨hout, hwithin, (nextId_spec hid).1⟩, hs⟩

/-- A given segment is only appended to a sequence of its own kind. -/
theorem appendFormula_given {segments out : List FormulaSegment} {e : Extension} {given : Segment}
    (hwhole : (Spanned.span given).IsWhole)
    (h : appendFormula segments (.int maxLevel) e (some given) = .ok out) :
    ∃ s original, given = .formula original ∧ Extends maxLevel segments out s ∧
      IsRenamed (segments.map idOf) original s := by
  obtain ⟨renamed, hrenamed, hpush⟩ := Outcome.bind_eq_ok_iff.1 h
  obtain ⟨hunused, hsame⟩ := renamed_spec hrenamed
  cases renamed with
  | bezier s => cases hpush
  | formula s =>
    cases given with
    | bezier original => rcases hsame with h | ⟨id, hid, h⟩ <;> cases h
    | formula original =>
      have hs : IsRenamed (segments.map idOf) original s := by
        rcases hsame with h | ⟨id, hid, h⟩
        · exact Or.inl (Segment.formula.inj h)
        · exact Or.inr ⟨id, hid, Segment.formula.inj h⟩
      obtain ⟨hout, hwithin⟩ := push_spec (hs.isWhole hwhole) hpush
      exact ⟨s, original, rfl, ⟨hout, hwithin, hunused⟩, hs⟩

theorem appendBezier_given {segments out : List BezierSegment} {e : Extension} {given : Segment}
    (hwhole : (Spanned.span given).IsWhole)
    (h : appendBezier segments (.int maxLevel) e (some given) = .ok out) :
    ∃ s original, given = .bezier original ∧ Extends maxLevel segments out s ∧
      IsRenamed (segments.map idOf) original s := by
  obtain ⟨renamed, hrenamed, hpush⟩ := Outcome.bind_eq_ok_iff.1 h
  obtain ⟨hunused, hsame⟩ := renamed_spec hrenamed
  cases renamed with
  | formula s => cases hpush
  | bezier s =>
    cases given with
    | formula original => rcases hsame with h | ⟨id, hid, h⟩ <;> cases h
    | bezier original =>
      have hs : IsRenamed (segments.map idOf) original s := by
        rcases hsame with h | ⟨id, hid, h⟩
        · exact Or.inl (Segment.bezier.inj h)
        · exact Or.inr ⟨id, hid, Segment.bezier.inj h⟩
      obtain ⟨hout, hwithin⟩ := push_spec (hs.isWhole hwhole) hpush
      exact ⟨s, original, rfl, ⟨hout, hwithin, hunused⟩, hs⟩

/-- Where something passes a test, there is a first that does. -/
theorem exists_first {α : Type} {test : α → Bool} {xs : List α} (h : ∃ x ∈ xs, test x = true) :
    ∃ before x after, xs = before ++ x :: after ∧ test x = true ∧ ∀ y ∈ before, test y = false := by
  obtain ⟨x, hfound⟩ := Option.isSome_iff_exists.1 (List.find?_isSome.2 h)
  obtain ⟨hx, before, after, happend, hothers⟩ := List.find?_eq_some_iff_append.1 hfound
  exact ⟨before, x, after, happend, hx, fun y hy => Bool.not_eq_true' _ ▸ hothers y hy⟩

section Named

variable {α : Type} [Spanned α]

theorem split?_eq_some {id : Datum} {segments before after : List α} {found : α}
    (h : split? id segments = some (before, found, after)) :
    segments = before ++ found :: after := by
  induction segments generalizing before with
  | nil => cases h
  | cons segment rest ih =>
    unfold split? at h
    split at h
    · obtain ⟨rfl, rfl, rfl⟩ : [] = before ∧ segment = found ∧ rest = after := by
        simpa only [Option.some.injEq, Prod.mk.injEq] using h
      rfl
    · obtain ⟨⟨earlier, hit, later⟩, hrest, h⟩ := Option.map_eq_some_iff.1 h
      obtain ⟨rfl, rfl, rfl⟩ : segment :: earlier = before ∧ hit = found ∧ later = after := by
        simpa only [Prod.mk.injEq] using h
      rw [ih hrest]
      rfl

/-- An edit by name replaces one segment, knowing its neighbours. -/
theorem editNamed_spec {id : Datum} {edit : Option α → α → Option α → Outcome α}
    {segments out : List α} (h : editNamed id edit segments = .ok out) :
    ∃ before old new after, segments = before ++ old :: after ∧
      out = before ++ new :: after ∧ edit before.getLast? old after.head? = .ok new := by
  unfold editNamed at h
  split at h
  · cases h
  · next before old after hsplit =>
    obtain ⟨new, hnew, h⟩ := Outcome.bind_eq_ok_iff.1 h
    exact ⟨before, old, new, after, split?_eq_some hsplit, (Except.ok.inj h).symm, hnew⟩

end Named

end Editing
end ExperienceCurves
