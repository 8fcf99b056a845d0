import ExperienceCurves.Proofs.Coverage
import ExperienceCurves.Proofs.DragFailures
import ExperienceCurves.Proofs.Joins
import ExperienceCurves.Proofs.NamedSegments
import ExperienceCurves.Proofs.NumberedNames

/-!
Appends without a given segment. Such an append continues the curve from the level and requirement
that its last segment ends with, and fails only for lack of room or because the names are used up.
Repeated from an empty sequence, it builds a chain of segments, numbered from one, that covers all
levels from one on without a break, until the maximal level or the maximal number of segments is
reached.
-/
namespace ExperienceCurves

-- Powers of whole numbers are those of the core library, whatever else is imported.
attribute [local instance (high)] instPowNat

open Editing

namespace Number

/-- A product with a binary number is one, unless it fails. -/
theorem exists_real_of_mul {x : Binary64} {n product : Number} (hn : ¬n.OutOfRange)
    (h : (real x).mul n = .ok product) : ∃ y, product = real y := by
  obtain ⟨y, hy⟩ := n.toBinary64_cases.resolve_left hn
  have hproduct : (real x).mul n = .ok (real (x * y)) := combine_binary rfl hy (Or.inl rfl)
  exact ⟨x * y, Except.ok.inj (h.symm.trans hproduct)⟩

end Number

namespace Editing

theorem not_exhausted {ids : List String} {id : String} (hid : nextId ids = .ok id) :
    ¬Exhausted ids := (nextId_succeeds_iff ids).1 ⟨id, hid⟩

section Spanned

variable {α : Type} [Spanned α] {segments : List α} {segment : α} {id : String}
  {a b maxLevel : Int}

/-- What it comes to when a segment with the next name is pushed: the names are used up, the levels
are no range, or the segment is the last one. -/
inductive PushResult (ids : List String) (segments : List α) (make : String → α)
    (a b maxLevel : Int) : Outcome (List α) → Prop
  | exhausted {refusal : Refusal} (h : Exhausted ids) :
      PushResult ids segments make a b maxLevel (.error (.refused refusal))
  | noRange {r : RangeError} (hids : ¬Exhausted ids) (h : Span.refusal? a b maxLevel = some r) :
      PushResult ids segments make a b maxLevel (.error (Failure.range r).written)
  | pushed {id : String} (hid : nextId ids = .ok id) (h : Span.refusal? a b maxLevel = none) :
      PushResult ids segments make a b maxLevel (.ok (segments ++ [make id]))

theorem push_eq (hspan : Spanned.span segment = ⟨id, .int a, .int b⟩) (maxLevel : Int) :
    push segments segment (.int maxLevel) =
      Span.checkRange (.int a) (.int b) (.int maxLevel) >>= fun _ => .ok (segments ++ [segment]) := by
  unfold push Span.check
  rw [hspan]
  rfl

theorem pushResult {ids : List String} {make : String → α}
    (hspan : ∀ id, Spanned.span (make id) = ⟨id, .int a, .int b⟩) :
    PushResult ids segments make a b maxLevel
      (nextId ids >>= fun id => push segments (make id) (.int maxLevel)) := by
  cases hid : nextId ids with
  | error failure =>
    obtain ⟨refusal, rfl⟩ := nextId_error hid
    exact .exhausted ((nextId_fails_iff ids).1 ⟨_, hid⟩)
  | ok id =>
    have hids := not_exhausted hid
    change PushResult ids segments make a b maxLevel (push segments (make id) (.int maxLevel))
    rw [push_eq (hspan id), Span.checkRange_int]
    cases hrange : Span.refusal? a b maxLevel with
    | none => exact .pushed hid hrange
    | some r => exact .noRange hids hrange

end Spanned

variable {a span maxLevel maxSegments : Int} {growth : Number}

/-- The formula segment that continues the sequence. -/
def continuedFormula (segments : List FormulaSegment) (a b : Int) (id : String) : FormulaSegment :=
  { id, startLevel := .int a, endLevel := .int b,
    formula := (segments.getLast?.map (·.formula)).getD usualFormula }

/-- The requirement that the next Bezier segment starts with. -/
def lastExp (segments : List BezierSegment) : Number :=
  (segments.getLast?.map (·.endExp)).getD (.real 100)

/-- The Bezier segment that continues the sequence, up to a requirement. -/
def continuedBezier (segments : List BezierSegment) (endExp : Number) (a b : Int) (id : String) :
    BezierSegment :=
  { id, startLevel := .int a, endLevel := .int b, startExp := lastExp segments, endExp
    control1 := ⟨decimal 33 2, decimal 5 2⟩, control2 := ⟨decimal 67 2, decimal 5 2⟩ }

theorem appendFormula_continued {segments : List FormulaSegment}
    (hlast : ((segments.getLast?.map Spanned.span).map Span.endLevel).getD 1 = .int a) :
    appendFormula segments (.int maxLevel) ⟨.int maxSegments, .int span, .number growth⟩ none =
      nextId (segments.map idOf) >>= fun id =>
        push segments (continuedFormula segments a (min (a + span) maxLevel) id)
          (.int maxLevel) := by
  unfold appendFormula nextFormula
  dsimp only
  rw [continuation_int hlast]
  cases nextId (segments.map idOf) <;> rfl

theorem appendBezier_continued {segments : List BezierSegment} {endExp : Number}
    (hlast : ((segments.getLast?.map Spanned.span).map Span.endLevel).getD 1 = .int a)
    (hexp : (lastExp segments).mul growth = .ok endExp) :
    appendBezier segments (.int maxLevel) ⟨.int maxSegments, .int span, .number growth⟩ none =
      nextId (segments.map idOf) >>= fun id =>
        push segments (continuedBezier segments endExp a (min (a + span) maxLevel) id)
          (.int maxLevel) := by
  have hproduct : (Datum.number (lastExp segments)).mul (.number growth) =
      .ok (.number endExp) := congrArg (Datum.number <$> ·) hexp
  unfold lastExp at hproduct
  unfold appendBezier nextBezier
  dsimp only
  rw [continuation_int hlast, hproduct]
  cases nextId (segments.map idOf) <;> rfl

end Editing

namespace Curve

/-- Append a segment that continues the curve. -/
def extend? (c : Curve) (maxLevel maxSegments span : Int) (growth : Number) :
    Outcome (Option Curve) :=
  c.append? (.int maxLevel) none ⟨.int maxSegments, .int span, .number growth⟩

/-- The level that the next segment starts at. -/
def lastLevel (c : Curve) : Number :=
  (c.active.getLast?.map fun s => (Spanned.span s).endLevel).getD 1

/-- The curve is longer by a segment with the name and range that starts as the curve ends. -/
structure Extended (c : Curve) (id : String) (a b : Int) (growth : Number) (c' : Curve)
    (s : Segment) : Prop where
  elsewhere : c.SameElsewhere c'
  active_eq : c'.active = c.active ++ [s]
  span_eq : Spanned.span s = ⟨id, .int a, .int b⟩
  joins : ∀ last ∈ c.active.getLast?, last.Joins s
  lastExp_eq : c.useBezier = true →
    (lastExp c.bezierSegments).mul growth = .ok (lastExp c'.bezierSegments)

/-- What an extension from one level to another comes to: the names are used up, the levels are no
range, or there is one segment more. -/
inductive ExtensionResult (c : Curve) (a b maxLevel : Int) (growth : Number) :
    Outcome (Option Curve) → Prop
  | exhausted {refusal : Refusal} (h : Exhausted (c.active.map idOf)) :
      ExtensionResult c a b maxLevel growth (.error (.refused refusal))
  | noRange {r : RangeError} (hids : ¬Exhausted (c.active.map idOf))
      (h : Span.refusal? a b maxLevel = some r) :
      ExtensionResult c a b maxLevel growth (.error (Failure.range r).written)
  | extended {id : String} {c' : Curve} {s : Segment} (hid : nextId (c.active.map idOf) = .ok id)
      (hrange : Span.refusal? a b maxLevel = none) (h : c.Extended id a b growth c' s) :
      ExtensionResult c a b maxLevel growth (.ok (some c'))

variable {c c' : Curve} {a b maxLevel maxSegments span : Int} {growth : Number}

theorem extend?_of_room (hroom : (c.active.length : Int) < maxSegments) :
    c.extend? maxLevel maxSegments span growth =
      if c.useBezier then do
        let bezierSegments ← appendBezier c.bezierSegments (.int maxLevel)
          ⟨.int maxSegments, .int span, .number growth⟩ none
        return some { c with bezierSegments }
      else do
        let segments ← appendFormula c.segments (.int maxLevel)
          ⟨.int maxSegments, .int span, .number growth⟩ none
        return some { c with segments } := by
  have hless : decide (maxSegments ≤ (c.active.length : Int)) = false :=
    decide_eq_false (by omega)
  unfold extend? append?
  simp only [Datum.holds_atLeast_int, hless, Outcome.liftM_ok]
  rfl

theorem extend?_of_full (hfull : maxSegments ≤ (c.active.length : Int)) :
    c.extend? maxLevel maxSegments span growth = .ok none := by
  unfold extend? append?
  simp only [Datum.holds_atLeast_int, decide_eq_true hfull, Outcome.liftM_ok]
  rfl

/-- The last level, read from the active sequence of one kind. -/
theorem endLevel_getD_eq {α : Type} [Spanned α] {segments : List α} {wrap : α → Segment}
    (hactive : c.active = segments.map wrap)
    (hwrap : ∀ x, Spanned.span (wrap x) = Spanned.span x) :
    ((segments.getLast?.map Spanned.span).map Span.endLevel).getD 1 = c.lastLevel := by
  have hspan : Spanned.span ∘ wrap = Spanned.span := funext hwrap
  rw [lastLevel, hactive, List.getLast?_map, Option.map_map, Option.map_map, ← hspan]
  rfl

theorem endLevel_of_lastLevel {last : Segment} (hlevel : c.lastLevel = .int a)
    (hlast : c.active.getLast? = some last) : (Spanned.span last).endLevel = .int a := by
  rwa [lastLevel, hlast] at hlevel

theorem extended_formula (hmode : c.useBezier = false) (hlevel : c.lastLevel = .int a)
    (id : String) :
    c.Extended id a b growth
      { c with segments := c.segments ++ [continuedFormula c.segments a b id] }
      (.formula (continuedFormula c.segments a b id)) where
  elsewhere := ⟨rfl, rfl, by rw [hmode]; rfl⟩
  active_eq := by
    rw [active_eq_formula hmode, active_eq_formula (by exact hmode), List.map_append]
    rfl
  span_eq := rfl
  joins last hlast := ⟨(endLevel_of_lastLevel hlevel hlast).symm, fun p n _ hn => nomatch hn⟩
  lastExp_eq hbezier := by cases hmode.symm.trans hbezier

theorem extended_bezier {endExp : Number} (hmode : c.useBezier = true)
    (hlevel : c.lastLevel = .int a) (hexp : (lastExp c.bezierSegments).mul growth = .ok endExp)
    (id : String) :
    c.Extended id a b growth
      { c with bezierSegments :=
          c.bezierSegments ++ [continuedBezier c.bezierSegments endExp a b id] }
      (.bezier (continuedBezier c.bezierSegments endExp a b id)) where
  elsewhere := ⟨rfl, rfl, by rw [hmode]; rfl⟩
  active_eq := by
    rw [active_eq_bezier hmode, active_eq_bezier (by exact hmode), List.map_append]
    rfl
  span_eq := rfl
  joins last hlast := by
    refine ⟨(endLevel_of_lastLevel hlevel hlast).symm, fun p n hp hn => ?_⟩
    obtain rfl := Segment.bezier.inj hn
    rw [active_eq_bezier hmode, List.getLast?_map, hp] at hlast
    obtain ⟨t, ht, heq⟩ := Option.map_eq_some_iff.1 hlast
    obtain rfl := Segment.bezier.inj heq
    change lastExp c.bezierSegments = t.endExp
    rw [lastExp, ht]
    rfl
  lastExp_eq _ := by
    rw [hexp, lastExp, List.getLast?_concat]
    rfl

/-- A push of the active sequence is an extension of the curve. -/
theorem extensionResult_of_push {α : Type} [Spanned α] {segments : List α} {make : String → α}
    {rebuild : List α → Curve} {outcome : Outcome (List α)} (wrap : α → Segment)
    (hids : c.active.map idOf = segments.map idOf)
    (h : PushResult (segments.map idOf) segments make a b maxLevel outcome)
    (hextended : ∀ id, c.Extended id a b growth (rebuild (segments ++ [make id]))
      (wrap (make id))) :
    ExtensionResult c a b maxLevel growth (outcome >>= fun out => pure (some (rebuild out))) := by
  cases h with
  | exhausted h => exact .exhausted (hids ▸ h)
  | noRange hused h => exact .noRange (hids ▸ hused) h
  | pushed hid h => exact .extended (hids ▸ hid) h (hextended _)

theorem extensionResult (hlevel : c.lastLevel = .int a)
    (hroom : (c.active.length : Int) < maxSegments)
    (hexp : c.useBezier = true → ¬(lastExp c.bezierSegments).OutOfRange)
    (hgrowth : ¬growth.OutOfRange) :
    ExtensionResult c a (min (a + span) maxLevel) maxLevel growth
      (c.extend? maxLevel maxSegments span growth) := by
  rw [extend?_of_room hroom]
  by_cases hmode : c.useBezier = true
  · have hactive := active_eq_bezier hmode
    have hlast := (endLevel_getD_eq hactive fun _ => rfl).trans hlevel
    obtain ⟨endExp, hendExp⟩ : ∃ endExp, (lastExp c.bezierSegments).mul growth = .ok endExp :=
      Number.exists_combine (fun _ _ => ⟨_, rfl⟩) (fun _ _ => ⟨_, rfl⟩) (hexp hmode) hgrowth
    rw [if_pos hmode, appendBezier_continued hlast hendExp]
    refine extensionResult_of_push .bezier ?_ (pushResult fun _ => rfl)
      (extended_bezier hmode hlevel hendExp)
    rw [hactive, List.map_map]
    rfl
  · have hformula := Bool.eq_false_iff.2 hmode
    have hactive := active_eq_formula hformula
    have hlast := (endLevel_getD_eq hactive fun _ => rfl).trans hlevel
    rw [if_neg hmode, appendFormula_continued hlast]
    refine extensionResult_of_push .formula ?_ (pushResult fun _ => rfl)
      (extended_formula hformula hlevel)
    rw [hactive, List.map_map]
    rfl

/-- The curve goes on after its last segment: one more segment joins it, up to a level, under an
unused name, and there is no new break. -/
structure GoesOn (c : Curve) (last : Segment) (reach : Int) (c' : Curve) (s : Segment) : Prop where
  elsewhere : c.SameElsewhere c'
  active_eq : c'.active = c.active ++ [s]
  joins : last.Joins s
  endLevel_eq : (Spanned.span s).endLevel = .int reach
  unused : idOf s ∉ c.active.map idOf
  issues_eq : ∀ tolerance, (Number.int 0).le tolerance = true →
    c'.continuityIssues (.number tolerance) = c.continuityIssues (.number tolerance)

theorem Extended.goesOn {id : String} {s last : Segment} (h : c.Extended id a b growth c' s)
    (hid : nextId (c.active.map idOf) = .ok id) (hlast : c.active.getLast? = some last) :
    c.GoesOn last b c' s where
  elsewhere := h.elsewhere
  active_eq := h.active_eq
  joins := h.joins last hlast
  endLevel_eq := by rw [h.span_eq]
  unused := by
    rw [idOf, h.span_eq]
    exact (nextId_spec hid).1
  issues_eq tolerance htolerance := by
    unfold continuityIssues
    rw [h.active_eq]
    exact issuesAlong_append_of_joins hlast (h.joins last hlast) htolerance

/-- An extension of a curve that has a last segment succeeds just if the levels after it are a range
and a name is left. Otherwise it fails with the refused range, as far as that can be written. -/
structure Continues (c : Curve) (last : Segment) (b reach maxLevel : Int)
    (outcome : Outcome (Option Curve)) : Prop where
  refused : Exhausted (c.active.map idOf) → ∃ refusal, outcome = .error (.refused refusal)
  succeeds_iff : ¬Exhausted (c.active.map idOf) →
    ((∃ c', outcome = .ok (some c')) ↔ 1 ≤ b ∧ b < reach)
  fails_iff : ¬Exhausted (c.active.map idOf) → ∀ failure, outcome = .error failure ↔
    ∃ r, Span.refusal? b reach maxLevel = some r ∧ failure = (Failure.range r).written
  goesOn : ∀ c', outcome = .ok (some c') → ∃ s, c.GoesOn last reach c' s

namespace ExtensionResult

variable {outcome : Outcome (Option Curve)}

theorem refused (h : ExtensionResult c a b maxLevel growth outcome)
    (hids : Exhausted (c.active.map idOf)) : ∃ refusal, outcome = .error (.refused refusal) := by
  cases h with
  | exhausted => exact ⟨_, rfl⟩
  | noRange hleft => exact absurd hids hleft
  | extended hid => exact absurd hids (not_exhausted hid)

theorem succeeds_iff (h : ExtensionResult c a b maxLevel growth outcome) (hmax : b ≤ maxLevel)
    (hids : ¬Exhausted (c.active.map idOf)) :
    (∃ c', outcome = .ok (some c')) ↔ 1 ≤ a ∧ a < b := by
  have hnone : Span.refusal? a b maxLevel = none ↔ 1 ≤ a ∧ a < b := by
    rw [Span.refusal?_eq_none_iff]
    omega
  rw [← hnone]
  cases h with
  | exhausted hused => exact absurd hused hids
  | noRange _ hrange =>
    exact iff_of_false (fun ⟨c', hc'⟩ => nomatch hc') fun h => by cases hrange.symm.trans h
  | extended _ hrange _ => exact iff_of_true ⟨_, rfl⟩ hrange

theorem fails_iff (h : ExtensionResult c a b maxLevel growth outcome)
    (hids : ¬Exhausted (c.active.map idOf)) (failure : Failure) :
    outcome = .error failure ↔
      ∃ r, Span.refusal? a b maxLevel = some r ∧ failure = (Failure.range r).written := by
  cases h with
  | exhausted hused => exact absurd hused hids
  | noRange _ hrange => simp [hrange, eq_comm]
  | extended _ hrange _ => simp [hrange]

theorem goesOn {last : Segment} (h : ExtensionResult c a b maxLevel growth (.ok (some c')))
    (hlast : c.active.getLast? = some last) : ∃ s, c.GoesOn last b c' s := by
  cases h with
  | extended hid _ hextended => exact ⟨_, hextended.goesOn hid hlast⟩

end ExtensionResult

/-- The curve after a number of extensions. -/
inductive Grown (maxLevel maxSegments span : Int) (growth : Number) (c : Curve) : ℕ → Curve → Prop
  | start : Grown maxLevel maxSegments span growth c 0 c
  | step {k : ℕ} {c' c'' : Curve} (h : Grown maxLevel maxSegments span growth c k c')
      (hnext : c'.extend? maxLevel maxSegments span growth = .ok (some c'')) :
      Grown maxLevel maxSegments span growth c (k + 1) c''

/-- A chain of numbered segments from level one on, as long as it has been extended. -/
structure Chained (maxLevel span : Int) (c : Curve) (k : ℕ) (c' : Curve) : Prop where
  elsewhere : c.SameElsewhere c'
  ids_eq : c'.active.map idOf = numeralsTo k
  touching : Touching c'.spans
  startLevel_eq : ∀ s ∈ c'.active.head?, (Spanned.span s).startLevel = .int 1
  lastLevel_eq : c'.lastLevel = .int (min (1 + k * span) maxLevel)
  lastExp_eq : c'.useBezier = true → ∃ x, lastExp c'.bezierSegments = .real x
  issues_eq : ∀ tolerance, (Number.int 0).le tolerance = true →
    c'.continuityIssues (.number tolerance) = .ok []

theorem SameElsewhere.trans {c'' : Curve} (h : c.SameElsewhere c') (h' : c'.SameElsewhere c'') :
    c.SameElsewhere c'' where
  useBezier := h'.useBezier.trans h.useBezier
  yAxisMax := h'.yAxisMax.trans h.yAxisMax
  inactive := by
    have hinactive := h'.inactive
    rw [h.useBezier] at hinactive
    exact hinactive.trans h.inactive

theorem Touching.concat {spans : List Span} {s : Span} (h : Touching spans) (hwhole : s.IsWhole)
    (hrising : s.first < s.last) (hmeets : ∀ t ∈ spans.getLast?, t.last = s.first) :
    Touching (spans ++ [s]) where
  whole := List.forall_mem_append.2 ⟨h.whole, List.forall_mem_singleton.2 hwhole⟩
  rising := List.forall_mem_append.2 ⟨h.rising, List.forall_mem_singleton.2 hrising⟩
  touches := by
    refine List.isChain_append.2 ⟨h.touches, List.isChain_singleton s, fun t ht u hu => ?_⟩
    obtain rfl := Option.some.inj hu
    exact hmeets t ht

theorem chained_start (hempty : c.active = []) (hmax : 1 ≤ maxLevel) :
    Chained maxLevel span c 0 c where
  elsewhere := ⟨rfl, rfl, rfl⟩
  ids_eq := by
    rw [hempty]
    rfl
  touching := by
    rw [spans, hempty]
    exact ⟨fun s hs => (nomatch hs), fun s hs => (nomatch hs), List.isChain_nil⟩
  startLevel_eq s hs := by
    rw [hempty] at hs
    cases hs
  lastLevel_eq := by
    rw [lastLevel, hempty, Int.natCast_zero, Int.zero_mul, Int.add_zero, min_eq_left hmax]
    rfl
  lastExp_eq hmode := by
    rw [active_eq_bezier hmode, List.map_eq_nil_iff] at hempty
    rw [hempty]
    exact ⟨100, rfl⟩
  issues_eq tolerance htolerance := by
    rw [continuityIssues, hempty]
    rfl

theorem Chained.length_eq {k : ℕ} (h : Chained maxLevel span c k c') : c'.active.length = k := by
  have hlength := congrArg List.length h.ids_eq
  rwa [List.length_map, numeralsTo, List.length_map, List.length_range] at hlength

/-- What an extension of a chain comes to. -/
theorem Chained.extensionResult {k : ℕ} (h : Chained maxLevel span c k c')
    (hroom : (k : Int) < maxSegments) (hgrowth : ¬growth.OutOfRange) :
    ExtensionResult c' (min (1 + k * span) maxLevel)
      (min (min (1 + k * span) maxLevel + span) maxLevel) maxLevel growth
      (c'.extend? maxLevel maxSegments span growth) := by
  refine Curve.extensionResult h.lastLevel_eq (by rwa [h.length_eq]) (fun hmode => ?_) hgrowth
  obtain ⟨x, hx⟩ := h.lastExp_eq hmode
  rw [hx]
  exact Number.not_outOfRange rfl

theorem Extended.spans_eq {id : String} {s : Segment} (h : c.Extended id a b growth c' s) :
    c'.spans = c.spans ++ [⟨id, .int a, .int b⟩] := by
  rw [spans, h.active_eq, List.map_append, List.map_singleton, h.span_eq]
  rfl

theorem Extended.lastLevel_eq {id : String} {s : Segment} (h : c.Extended id a b growth c' s) :
    c'.lastLevel = .int b := by
  rw [lastLevel, h.active_eq, List.getLast?_concat, Option.map_some, h.span_eq]
  rfl

/-- An extension of an empty sequence starts at level one, and one of another sequence joins it. -/
theorem Extended.cases {id : String} {s : Segment} (h : c.Extended id a b growth c' s)
    (hlevel : c.lastLevel = .int a) :
    c.active = [] ∧ c'.active = [s] ∧ a = 1 ∨
      ∃ last, c.active.getLast? = some last ∧ last.Joins s ∧
        (Spanned.span last).endLevel = .int a ∧ c'.active.head? = c.active.head? := by
  cases hlast : c.active.getLast? with
  | none =>
    have hempty := List.getLast?_eq_none_iff.1 hlast
    refine Or.inl ⟨hempty, by rw [h.active_eq, hempty]; rfl, ?_⟩
    rw [lastLevel, hlast] at hlevel
    exact (Number.int.inj hlevel).symm
  | some last =>
    refine Or.inr ⟨last, rfl, h.joins last hlast, endLevel_of_lastLevel hlevel hlast, ?_⟩
    rw [h.active_eq]
    exact List.head?_append_of_ne_nil _ (List.ne_nil_of_mem (List.mem_of_getLast? hlast))

/-- A chain that is extended is a chain of one segment more. -/
theorem Chained.extended {k : ℕ} {id : String} {c'' : Curve} {s : Segment}
    (h : Chained maxLevel span c k c') (hgrowth : ¬growth.OutOfRange)
    (hid : nextId (c'.active.map idOf) = .ok id) (hrange : a < b)
    (ha : c'.lastLevel = .int a) (hb : b = min (1 + ((k + 1 : ℕ) : Int) * span) maxLevel)
    (hextended : c'.Extended id a b growth c'' s) : Chained maxLevel span c (k + 1) c'' where
  elsewhere := h.elsewhere.trans hextended.elsewhere
  ids_eq := by
    have hname : idOf s = id := by rw [idOf, hextended.span_eq]
    rw [h.ids_eq] at hid
    have hleft : k + 1 < 10 ^ Numeral.longest := by
      rw [← Nat.not_le, ← exhausted_numeralsTo_iff]
      exact not_exhausted hid
    rw [nextId_numeralsTo hleft] at hid
    rw [hextended.active_eq, List.map_append, List.map_singleton, hname, h.ids_eq,
      numeralsTo_succ, Except.ok.inj hid]
  touching := by
    rw [hextended.spans_eq]
    refine h.touching.concat ⟨a, b, rfl, rfl⟩ hrange fun t ht => ?_
    rw [spans, List.getLast?_map] at ht
    obtain ⟨last, hlast, rfl⟩ := Option.map_eq_some_iff.1 ht
    exact congrArg Number.whole (endLevel_of_lastLevel ha hlast)
  startLevel_eq first hfirst := by
    rcases hextended.cases ha with ⟨-, hactive, hone⟩ | ⟨last, -, -, -, hhead⟩
    · rw [hactive] at hfirst
      obtain rfl := Option.some.inj hfirst
      rw [hextended.span_eq, hone]
    · exact h.startLevel_eq first (hhead ▸ hfirst)
  lastLevel_eq := by rw [hextended.lastLevel_eq, hb]
  lastExp_eq hmode := by
    have hbezier : c'.useBezier = true := by rw [← hextended.elsewhere.useBezier, hmode]
    obtain ⟨x, hx⟩ := h.lastExp_eq hbezier
    have hproduct := hextended.lastExp_eq hbezier
    rw [hx] at hproduct
    exact Number.exists_real_of_mul hgrowth hproduct
  issues_eq tolerance htolerance := by
    rcases hextended.cases ha with ⟨-, hactive, -⟩ | ⟨last, hlast, hjoins, -, -⟩
    · rw [continuityIssues, hactive]
      rfl
    · rw [continuityIssues, hextended.active_eq,
        issuesAlong_append_of_joins hlast hjoins htolerance]
      exact h.issues_eq tolerance htolerance

/-- Where a chain stands after one more segment. -/
theorem reach_succ {k : ℕ} (hrange : min (1 + k * span) maxLevel <
    min (min (1 + k * span) maxLevel + span) maxLevel) :
    min (min (1 + k * span) maxLevel + span) maxLevel =
      min (1 + ((k + 1 : ℕ) : Int) * span) maxLevel := by
  push_cast
  rw [Int.add_mul, Int.one_mul]
  omega

/-- By induction on the number of segments: every extension of a chain gives a chain. -/
theorem Grown.chained {k : ℕ} (h : Grown maxLevel maxSegments span growth c k c')
    (hempty : c.active = []) (hmax : 1 ≤ maxLevel) (hgrowth : ¬growth.OutOfRange) :
    Chained maxLevel span c k c' := by
  induction h with
  | start => exact chained_start hempty hmax
  | @step k c' c'' h hnext ih =>
    have hroom : (k : Int) < maxSegments := by
      by_contra hfull
      rw [extend?_of_full (by rw [ih.length_eq]; omega)] at hnext
      cases hnext
    have hresult := ih.extensionResult hroom hgrowth
    rw [hnext] at hresult
    cases hresult with
    | extended hid hrange hextended =>
      obtain ⟨-, hlt, -⟩ := Span.refusal?_eq_none_iff.1 hrange
      exact ih.extended hgrowth hid hlt ih.lastLevel_eq (reach_succ hlt) hextended

theorem Chained.covered_iff {k : ℕ} {level : Int} (h : Chained maxLevel span c k c') :
    (∃ i, c'.CoversAt i level) ↔ 0 < k ∧ 1 ≤ level ∧ level ≤ min (1 + k * span) maxLevel := by
  rw [h.touching.exists_coversAt_iff, ← h.length_eq, List.length_pos_iff]
  have hlevel := h.lastLevel_eq
  rw [← h.length_eq] at hlevel
  have hsides {first last : Segment} (hfirst : c'.active.head? = some first)
      (hlast : c'.active.getLast? = some last) :
      ((Spanned.span first).startLevel.le (.int level) = true ∧
        (Number.int level).le (Spanned.span last).endLevel = true) ↔
      1 ≤ level ∧ level ≤ min (1 + (c'.active.length : Int) * span) maxLevel := by
    rw [h.startLevel_eq first hfirst, endLevel_of_lastLevel hlevel hlast, Number.le_int,
      Number.le_int, decide_eq_true_eq, decide_eq_true_eq]
  constructor
  · rintro ⟨first, last, hfirst, hlast, hbetween⟩
    exact ⟨List.ne_nil_of_mem (List.mem_of_mem_head? hfirst), (hsides hfirst hlast).1 hbetween⟩
  · rintro ⟨hsome, hbetween⟩
    exact ⟨_, _, List.head?_eq_some_head hsome, List.getLast?_eq_some_getLast hsome,
      (hsides (List.head?_eq_some_head hsome) (List.getLast?_eq_some_getLast hsome)).2 hbetween⟩

/-- A chain built by a number of extensions, and what the next one comes to: nothing happens where
the sequence is full, the range is refused where the chain reaches the maximal level, as far as that
can be written, and otherwise the chain grows as long as there are names. -/
structure BuildsChain (maxLevel maxSegments span : Int) (growth : Number) (c : Curve) (k : ℕ)
    (c' : Curve) : Prop where
  elsewhere : c.SameElsewhere c'
  ids_eq : c'.active.map idOf = numeralsTo k
  covered_iff : ∀ level : Int, (∃ i, c'.CoversAt i level) ↔
    0 < k ∧ 1 ≤ level ∧ level ≤ min (1 + k * span) maxLevel
  tiles : c'.Tiles
  issues_eq : ∀ tolerance, (Number.int 0).le tolerance = true →
    c'.continuityIssues (.number tolerance) = .ok []
  full : maxSegments ≤ k → c'.extend? maxLevel maxSegments span growth = .ok none
  reached : k < maxSegments → k + 1 < 10 ^ Numeral.longest → maxLevel ≤ 1 + k * span →
    c'.extend? maxLevel maxSegments span growth =
      .error (Failure.range ⟨.reversed, .int maxLevel, .int maxLevel⟩).written
  grows : k < maxSegments → k + 1 < 10 ^ Numeral.longest → 1 + k * span < maxLevel →
    ∃ c'', c'.extend? maxLevel maxSegments span growth = .ok (some c'')
  refused : k < maxSegments → 10 ^ Numeral.longest ≤ k + 1 →
    ∃ refusal, c'.extend? maxLevel maxSegments span growth = .error (.refused refusal)

theorem Chained.buildsChain {k : ℕ} (h : Chained maxLevel span c k c') (hspan : 1 ≤ span)
    (hgrowth : ¬growth.OutOfRange) :
    BuildsChain maxLevel maxSegments span growth c k c' := by
  have hpositive : 0 ≤ (k : Int) * span := mul_nonneg (Int.natCast_nonneg k) (by omega)
  have hexhausted : Exhausted (c'.active.map idOf) ↔ 10 ^ Numeral.longest ≤ k + 1 := by
    rw [h.ids_eq, exhausted_numeralsTo_iff]
  refine ⟨h.elsewhere, h.ids_eq, fun _ => h.covered_iff, h.touching.tiles, h.issues_eq, ?_, ?_, ?_,
    ?_⟩
  · intro hfull
    exact extend?_of_full (by rwa [h.length_eq])
  · intro hroom hleft hreached
    have hids := mt hexhausted.1 (Nat.not_le.2 hleft)
    have hresult := h.extensionResult hroom hgrowth
    rw [min_eq_right hreached, min_eq_right (by omega)] at hresult
    exact (hresult.fails_iff hids _).2 ⟨_, if_pos (Int.le_refl maxLevel), rfl⟩
  · intro hroom hleft hbelow
    have hids := mt hexhausted.1 (Nat.not_le.2 hleft)
    exact ((h.extensionResult hroom hgrowth).succeeds_iff (min_le_right _ _) hids).2 (by omega)
  · intro hroom hused
    exact (h.extensionResult hroom hgrowth).refused (hexhausted.2 hused)

/-- Extensions continue a curve that has a last segment, and build chains where there is none. Names
end with the greatest numeral there is, and an extension beside it is refused. -/
theorem default_appends_continue (maxLevel maxSegments span : Int) {growth : Number}
    (hgrowth : ¬growth.OutOfRange) :
    (∀ (c : Curve) (last : Segment) (b : Int), c.active.getLast? = some last →
      (Spanned.span last).endLevel = .int b → (∀ p, last = .bezier p → ¬p.endExp.OutOfRange) →
      (c.active.length : Int) < maxSegments →
      c.Continues last b (min (b + span) maxLevel) maxLevel
        (c.extend? maxLevel maxSegments span growth)) ∧
    ∀ c k c', c.active = [] → 1 ≤ span → 2 ≤ maxLevel →
      Grown maxLevel maxSegments span growth c k c' →
      BuildsChain maxLevel maxSegments span growth c k c' := by
  constructor
  · intro c last b hlast hend hexp hroom
    have hlevel : c.lastLevel = .int b := by
      rw [lastLevel, hlast, Option.map_some, hend]
      rfl
    have hresult : ExtensionResult c b (min (b + span) maxLevel) maxLevel growth
        (c.extend? maxLevel maxSegments span growth) := by
      refine extensionResult hlevel hroom (fun hmode => ?_) hgrowth
      rw [active_eq_bezier hmode, List.getLast?_map] at hlast
      obtain ⟨p, hp, rfl⟩ := Option.map_eq_some_iff.1 hlast
      rw [lastExp, hp]
      exact hexp p rfl
    refine ⟨hresult.refused, hresult.succeeds_iff (min_le_right _ _), hresult.fails_iff,
      fun c' hc' => ?_⟩
    rw [hc'] at hresult
    exact hresult.goesOn hlast
  · intro c k c' hempty hspan hmax hgrown
    exact (hgrown.chained hempty (by omega) hgrowth).buildsChain hspan hgrowth

theorem default_appends_continue_usual :
    let growth : Number := .real (decimal 11 1)
    let empty : Curve := ⟨[], [], true, none⟩
    ¬growth.OutOfRange ∧
      usual.Continues (.formula ⟨⟨"2", 10, 20⟩, usualFormula⟩) 20 30 100
        (usual.extend? 100 10 10 growth) ∧
      ∃ c, Grown 15 10 10 growth empty 2 c ∧ BuildsChain 15 10 10 growth empty 2 c ∧
        ∃ r, c.extend? 15 10 10 growth = .error (.range r) := by
  intro growth empty
  have hgrowth : ¬growth.OutOfRange := Number.not_outOfRange rfl
  have hlarge : 10 ≤ 10 ^ Numeral.longest := Nat.le_self_pow (by decide) 10
  obtain ⟨hcontinues, -⟩ := default_appends_continue 100 10 10 hgrowth
  obtain ⟨-, hchain⟩ := default_appends_continue 15 10 10 hgrowth
  have hbuilds {k : ℕ} {c : Curve} (h : Grown 15 10 10 growth empty k c) :
      BuildsChain 15 10 10 growth empty k c := hchain empty k c rfl (by decide) (by decide) h
  obtain ⟨c₁, h₁⟩ := (hbuilds .start).grows (by decide) (by omega) (by decide)
  obtain ⟨c₂, h₂⟩ := (hbuilds (.step .start h₁)).grows (by decide) (by omega) (by decide)
  have hgrown : Grown 15 10 10 growth empty 2 c₂ := .step (.step .start h₁) h₂
  exact ⟨hgrowth, hcontinues usual _ 20 rfl rfl (fun p hp => nomatch hp) (by decide), c₂, hgrown,
    hbuilds hgrown, _, (hbuilds hgrown).reached (by decide) (by omega) (by decide)⟩

/-- Beside the greatest numeral there is, which is read as a number, a curve with room is not
continued. -/
theorem greatest_numeral_not_continued :
    let id := numeral (10 ^ Numeral.longest - 1)
    let last : FormulaSegment := ⟨⟨id, .int 1, .int 10⟩, "100"⟩
    let c : Curve := ⟨[last], [], false, none⟩
    (∃ n, Datum.wholeOfText id = .ok n) ∧ c.active.getLast? = some (.formula last) ∧
      ((c.active.length : Int) < 10 ∧ (1 : Int) ≤ 10 ∧ (10 : Int) < min (10 + 10) 100) ∧
      ∃ refusal, c.extend? 100 10 10 (.real (decimal 11 1)) = .error (.refused refusal) := by
  intro id last c
  have hlarge : 10 ≤ 10 ^ Numeral.longest := Nat.le_self_pow (by decide) 10
  have hused : Exhausted (c.active.map idOf) := by
    refine ⟨id, List.mem_singleton_self id, isNumeric_numeral _, Or.inr (Or.inr ?_)⟩
    rw [ofDigits_numeral]
    omega
  refine ⟨⟨_, wholeOfText_numeral (by omega)⟩, rfl, by decide, ?_⟩
  have hresult : ExtensionResult c 10 (min (10 + 10) 100) 100 (.real (decimal 11 1))
      (c.extend? 100 10 10 (.real (decimal 11 1))) :=
    extensionResult rfl (by decide) (fun hmode => nomatch hmode) (Number.not_outOfRange rfl)
  exact hresult.refused hused

end Curve

end ExperienceCurves
