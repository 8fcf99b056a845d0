import ExperienceCurves.Proofs.ActiveSteps
import ExperienceCurves.Proofs.Dragging
import ExperienceCurves.Proofs.Redistribution
import ExperienceCurves.Preset

/-!
Runs of edits. A curve is valid for a maximum level if all ranges of both sequences lie within it
and no two segments of a sequence share a name. Every edit keeps valid curves valid, whatever it is
told, so a run of edits never leaves them, also when some of them fail.
-/
namespace ExperienceCurves

open Editing

/-- All ranges within the maximum, and no name twice. -/
structure ValidSequence {α : Type} [Spanned α] (maxLevel : Int) (segments : List α) : Prop where
  within : ∀ s ∈ segments, (Spanned.span s).Within maxLevel
  nodup : (segments.map idOf).Nodup

namespace ValidSequence

variable {α : Type} [Spanned α] {maxLevel : Int} {segments out : List α}

theorem isWhole (h : ValidSequence maxLevel segments) :
    ∀ s ∈ segments, (Spanned.span s).IsWhole := fun s hs => (h.within s hs).isWhole

theorem append {s : α} {bound : Int} (h : ValidSequence maxLevel segments)
    (hbound : bound ≤ maxLevel) (hs : Extends bound segments out s) :
    ValidSequence maxLevel out := by
  obtain ⟨rfl, hwithin, hunused⟩ := hs
  refine ⟨?_, ?_⟩
  · intro t ht
    rcases List.mem_append.1 ht with ht | ht
    · exact h.within t ht
    · obtain rfl := List.mem_singleton.1 ht
      exact hwithin.mono hbound
  · rw [List.map_append, List.map_singleton]
    apply List.Nodup.append h.nodup (List.nodup_singleton _)
    rw [List.disjoint_singleton]
    exact hunused

theorem sublist (h : ValidSequence maxLevel segments) (hout : out.Sublist segments) :
    ValidSequence maxLevel out :=
  ⟨fun s hs => h.within s (hout.subset hs), h.nodup.sublist (hout.map idOf)⟩

/-- One segment may be replaced by one of the same name. -/
theorem replace {before after : List α} {old new : α}
    (h : ValidSequence maxLevel (before ++ old :: after))
    (hwithin : (Spanned.span new).Within maxLevel) (hid : idOf new = idOf old) :
    ValidSequence maxLevel (before ++ new :: after) := by
  refine ⟨?_, ?_⟩
  · intro s hs
    rcases List.mem_append.1 hs with hs | hs
    · exact h.within s (List.mem_append_left _ hs)
    · rcases List.mem_cons.1 hs with rfl | hs
      · exact hwithin
      · exact h.within s (List.mem_append_right _ (List.mem_cons_of_mem _ hs))
  · have hnodup := h.nodup
    rw [List.map_append, List.map_cons] at hnodup ⊢
    rwa [hid]

end ValidSequence

/-- Both sequences are valid, whichever is active. -/
structure Curve.ValidFor (maxLevel : Int) (c : Curve) : Prop where
  formula : ValidSequence maxLevel c.segments
  bezier : ValidSequence maxLevel c.bezierSegments

/-- An edit with what it is told. -/
inductive Edit
  | append (maxLevel : Int) (segment : Option Segment) (maxSegments step : Int) (expGrowth : Datum)
  | delete (id : Datum)
  | redistribute (maxLevel : Int)
  | drag (id endpoint : Datum) (target : Target) (maxLevel : Int) (snap : Snap)
  | setRange (id : Datum) (startLevel endLevel maxLevel : Int)
  | setMode (useBezier : Bool)
  | resetScale

namespace Edit

def outcome (c : Curve) : Edit → Outcome Curve
  | append maxLevel segment maxSegments step expGrowth => do
      return (← c.append? (.int maxLevel) segment ⟨.int maxSegments, .int step, expGrowth⟩).getD c
  | delete id => return (c.delete? id).getD c
  | redistribute maxLevel => do return (← c.redistribute? (.int maxLevel)).getD c
  | drag id endpoint target maxLevel snap => do
      c.drag id (← Endpoint.ofDatum endpoint) target (.int maxLevel) snap
  | setRange id startLevel endLevel maxLevel =>
      c.setRange id (.int startLevel) (.int endLevel) (.int maxLevel)
  | setMode useBezier => return c.withMode useBezier
  | resetScale => c.resetScale

/-- The edit works below the maximum level, and a segment that it appends has whole levels. -/
def FitsIn (maxLevel : Int) : Edit → Prop
  | append bound segment _ _ _ => bound ≤ maxLevel ∧ ∀ s ∈ segment, (Spanned.span s).IsWhole
  | redistribute bound => bound ≤ maxLevel
  | drag _ _ _ bound _ => bound ≤ maxLevel
  | setRange _ _ _ bound => bound ≤ maxLevel
  | _ => True

/-- The number of segments from which on nothing is appended. -/
def limit? : Edit → Option Int
  | append _ _ maxSegments _ _ => some maxSegments
  | _ => none

/-- The segment that is to be appended. -/
def given? : Edit → Option Segment
  | append _ segment _ _ _ => segment
  | _ => none

end Edit

namespace Curve

/-- An edit that fails keeps the curve. -/
def after (c : Curve) (e : Edit) : Curve :=
  match e.outcome c with
  | .ok edited => edited
  | .error _ => c

def run (c : Curve) (edits : List Edit) : Curve := edits.foldl after c

end Curve

section Appended

variable {bound step : Int} {maxSegments expGrowth : Datum} {given : Option Segment}

theorem exists_extends_of_appendFormula {segments out : List FormulaSegment}
    (hsegments : ∀ s ∈ segments, s.toSpan.IsWhole)
    (hgiven : ∀ s ∈ given, (Spanned.span s).IsWhole)
    (h : appendFormula segments (.int bound) ⟨maxSegments, .int step, expGrowth⟩ given = .ok out) :
    ∃ s, Extends bound segments out s := by
  cases given with
  | none =>
    obtain ⟨s, hs, -⟩ := appendFormula_default hsegments h
    exact ⟨s, hs⟩
  | some segment =>
    obtain ⟨s, -, -, hs, -⟩ := appendFormula_given (hgiven segment rfl) h
    exact ⟨s, hs⟩

theorem exists_extends_of_appendBezier {segments out : List BezierSegment}
    (hsegments : ∀ s ∈ segments, s.toSpan.IsWhole)
    (hgiven : ∀ s ∈ given, (Spanned.span s).IsWhole)
    (h : appendBezier segments (.int bound) ⟨maxSegments, .int step, expGrowth⟩ given = .ok out) :
    ∃ s, Extends bound segments out s := by
  cases given with
  | none =>
    obtain ⟨s, hs, -⟩ := appendBezier_default hsegments h
    exact ⟨s, hs⟩
  | some segment =>
    obtain ⟨s, -, -, hs, -⟩ := appendBezier_given (hgiven segment rfl) h
    exact ⟨s, hs⟩

end Appended

/-- A step of one sequence: it is valid afterwards, and it has grown at most by one segment, while
it was below the limit. -/
structure SequenceStep {α : Type} [Spanned α] (maxLevel : Int) (limit : Option Int)
    (segments out : List α) : Prop where
  valid : ValidSequence maxLevel out
  growth : out.length ≤ segments.length ∨
    out.length = segments.length + 1 ∧ ∃ n ∈ limit, (segments.length : Int) < n

namespace SequenceStep

variable {α : Type} [Spanned α] {maxLevel bound : Int} {segments out : List α}

theorem of_extends {s : α} {limit : Int} (h : ValidSequence maxLevel segments)
    (hbound : bound ≤ maxLevel) (hlimit : (segments.length : Int) < limit)
    (hs : Extends bound segments out s) : SequenceStep maxLevel (some limit) segments out := by
  refine ⟨h.append hbound hs, Or.inr ⟨?_, limit, rfl, hlimit⟩⟩
  rw [hs.eq_append, List.length_append, List.length_singleton]

theorem of_sublist {limit : Option Int} (h : ValidSequence maxLevel segments)
    (hout : out.Sublist segments) : SequenceStep maxLevel limit segments out :=
  ⟨h.sublist hout, Or.inl hout.length_le⟩

theorem of_redistribute {limit : Option Int} (hbound : bound ≤ maxLevel)
    (h : ValidSequence maxLevel segments) (hsome : segments ≠ [])
    (hout : Editing.redistribute (.int bound) segments = .ok out) :
    SequenceStep maxLevel limit segments out := by
  obtain ⟨hids, hwithin⟩ := redistribute_spec hsome hout
  have hlength := congrArg List.length hids
  rw [List.length_map, List.length_map] at hlength
  exact ⟨⟨fun s hs => (hwithin s hs).mono hbound, hids ▸ h.nodup⟩, Or.inl (Nat.le_of_eq hlength)⟩

/-- An edit by name is such a step if it keeps the name and the edited range fits. -/
theorem of_editNamed {id : Datum} {limit : Option Int}
    {edit : Option α → α → Option α → Outcome α} (h : ValidSequence maxLevel segments)
    (hedit : ∀ previous old following new, (∀ p ∈ previous, (Spanned.span p).IsWhole) →
      (∀ f ∈ following, (Spanned.span f).IsWhole) → (Spanned.span old).Within maxLevel →
      edit previous old following = .ok new →
      (Spanned.span new).Within maxLevel ∧ idOf new = idOf old)
    (hout : editNamed id edit segments = .ok out) : SequenceStep maxLevel limit segments out := by
  obtain ⟨before, old, new, after, rfl, rfl, hnew⟩ := editNamed_spec hout
  have hprevious : ∀ p ∈ before.getLast?, (Spanned.span p).IsWhole := fun p hp =>
    h.isWhole p (List.mem_append_left _ (List.mem_of_getLast? hp))
  have hfollowing : ∀ f ∈ after.head?, (Spanned.span f).IsWhole := fun f hf =>
    h.isWhole f (List.mem_append_right _ (List.mem_cons_of_mem _ (List.mem_of_mem_head? hf)))
  have hold : (Spanned.span old).Within maxLevel :=
    h.within old (List.mem_append_right _ List.mem_cons_self)
  obtain ⟨hwithin, hid⟩ := hedit _ _ _ _ hprevious hfollowing hold hnew
  refine ⟨h.replace hwithin hid, Or.inl (Nat.le_of_eq ?_)⟩
  rw [List.length_append, List.length_append, List.length_cons, List.length_cons]

/-- Setting a range that passes the check is one. -/
theorem of_setSpan {id : Datum} {limit : Option Int} {startLevel endLevel : Int}
    (hbound : bound ≤ maxLevel) (h : ValidSequence maxLevel segments)
    (hout : editNamed id (Curve.setSpan (.int startLevel) (.int endLevel) (.int bound)) segments =
      .ok out) : SequenceStep maxLevel limit segments out := by
  refine of_editNamed h ?_ hout
  intro previous old following new _ _ _ hnew
  obtain ⟨⟨⟩, hcheck, hnew⟩ := Outcome.bind_eq_ok_iff.1 hnew
  obtain rfl := Except.ok.inj hnew
  obtain ⟨hone, hlt, hmax⟩ := (Span.checkRange_int_eq_ok_iff _ _ _).1 hcheck
  exact ⟨within_withRange hone hlt (Int.le_trans hmax hbound), idOf_withRange old _ _⟩

end SequenceStep

namespace Edit

variable {maxLevel : Int} {c c' : Curve}

/-- A step of the active sequence that keeps it valid and within the limit. -/
abbrev IsStep (maxLevel : Int) (limit : Option Int) : Curve → Curve → Prop :=
  Curve.ActiveStep (SequenceStep maxLevel limit) (SequenceStep maxLevel limit)

/-- What one edit can do: nothing, a step of the active sequence, another mode or another scale. -/
theorem outcome_cases {e : Edit} (hc : c.ValidFor maxLevel) (he : e.FitsIn maxLevel)
    (h : e.outcome c = .ok c') :
    c' = c ∨ IsStep maxLevel e.limit? c c' ∨ (∃ useBezier, c' = c.withMode useBezier) ∨
      ∃ yAxisMax, c' = { c with yAxisMax } := by
  cases e with
  | append bound segment maxSegments step expGrowth =>
    obtain ⟨hbound, hwhole⟩ := he
    obtain ⟨appended, happended, h⟩ := Outcome.bind_eq_ok_iff.1 h
    obtain rfl := Except.ok.inj h
    cases appended with
    | none => exact Or.inl rfl
    | some c' =>
      obtain ⟨hroom, hstep⟩ := Curve.append?_cases happended
      rw [Datum.holds_atLeast_int, Except.ok.injEq, decide_eq_false_iff_not, Int.not_le] at hroom
      refine Or.inr (Or.inl (hstep.imp ?_ ?_))
      · intro hmode out hout
        rw [Curve.active_eq_formula hmode, List.length_map] at hroom
        obtain ⟨s, hs⟩ := exists_extends_of_appendFormula hc.formula.isWhole hwhole hout
        exact .of_extends hc.formula hbound hroom hs
      · intro hmode out hout
        rw [Curve.active_eq_bezier hmode, List.length_map] at hroom
        obtain ⟨s, hs⟩ := exists_extends_of_appendBezier hc.bezier.isWhole hwhole hout
        exact .of_extends hc.bezier hbound hroom hs
  | delete id =>
    obtain rfl := Except.ok.inj h
    cases hdeleted : c.delete? id with
    | none => exact Or.inl rfl
    | some c' =>
      refine Or.inr (Or.inl ((Curve.delete?_cases hdeleted).imp ?_ ?_))
      · rintro - out rfl
        exact .of_sublist hc.formula List.filter_sublist
      · rintro - out rfl
        exact .of_sublist hc.bezier List.filter_sublist
  | redistribute bound =>
    obtain ⟨divided, hdivided, h⟩ := Outcome.bind_eq_ok_iff.1 h
    obtain rfl := Except.ok.inj h
    cases divided with
    | none => exact Or.inl rfl
    | some c' =>
      refine Or.inr (Or.inl ((Curve.redistribute?_cases hdivided).imp ?_ ?_))
      · rintro - out ⟨hsome, hout⟩
        exact .of_redistribute he hc.formula hsome hout
      · rintro - out ⟨hsome, hout⟩
        exact .of_redistribute he hc.bezier hsome hout
  | drag id endpoint target bound snap =>
    obtain ⟨endpoint, -, h⟩ := Outcome.bind_eq_ok_iff.1 h
    refine Or.inr (Or.inl ((Curve.drag_cases h).imp ?_ ?_))
    · intro _ out hout
      refine .of_editNamed hc.formula ?_ hout
      intro previous old following new hprevious hfollowing hold hnew
      obtain ⟨hwithin, hid, -⟩ := dragFormula_spec hold he hprevious hfollowing hnew
      exact ⟨hwithin, hid⟩
    · intro _ out hout
      refine .of_editNamed hc.bezier ?_ hout
      intro previous old following new hprevious hfollowing hold hnew
      obtain ⟨hwithin, hid, -⟩ := dragBezier_spec hold he hprevious hfollowing hnew
      exact ⟨hwithin, hid⟩
  | setRange id startLevel endLevel bound =>
    refine Or.inr (Or.inl ((Curve.setRange_cases h).imp ?_ ?_))
    · intro _ out hout
      exact .of_setSpan he hc.formula hout
    · intro _ out hout
      exact .of_setSpan he hc.bezier hout
  | setMode useBezier =>
    obtain rfl := Except.ok.inj h
    exact Or.inr (Or.inr (Or.inl ⟨useBezier, rfl⟩))
  | resetScale =>
    obtain ⟨scale, -, h⟩ := Outcome.bind_eq_ok_iff.1 h
    obtain rfl := Except.ok.inj h
    exact Or.inr (Or.inr (Or.inr ⟨_, rfl⟩))

end Edit

def Segment.isBezier : Segment → Bool
  | .formula _ => false
  | .bezier _ => true

namespace Curve

variable {maxLevel : Int} {c c' : Curve} {e : Edit}

theorem isBezier_of_mem_sequence {bezierMode : Bool} {s : Segment}
    (h : s ∈ c.sequence bezierMode) : s.isBezier = bezierMode := by
  cases bezierMode with
  | false =>
    obtain ⟨segment, -, rfl⟩ := List.mem_map.1 h
    rfl
  | true =>
    obtain ⟨segment, -, rfl⟩ := List.mem_map.1 h
    rfl

theorem after_cases (c : Curve) (e : Edit) : c.after e = c ∨ e.outcome c = .ok (c.after e) := by
  unfold after
  split
  · next hedited => exact Or.inr hedited
  · exact Or.inl rfl

theorem ValidFor.step {limit : Option Int} (hc : c.ValidFor maxLevel)
    (h : Edit.IsStep maxLevel limit c c') : c'.ValidFor maxLevel := by
  cases h with
  | formula _ hstep => exact ⟨hstep.valid, hc.bezier⟩
  | bezier _ hstep => exact ⟨hc.formula, hstep.valid⟩

theorem ValidFor.after (hc : c.ValidFor maxLevel) (he : e.FitsIn maxLevel) :
    (c.after e).ValidFor maxLevel := by
  rcases after_cases c e with hsame | hedited
  · rwa [hsame]
  · rcases Edit.outcome_cases hc he hedited with hsame | hstep | ⟨useBezier, hmode⟩ | ⟨scale, hscale⟩
    · rwa [hsame]
    · exact hc.step hstep
    · rw [hmode]
      exact ⟨hc.formula, hc.bezier⟩
    · rw [hscale]
      exact ⟨hc.formula, hc.bezier⟩

/-- Validity holds along every run, by induction on the edits. -/
theorem ValidFor.run {edits : List Edit} (hc : c.ValidFor maxLevel)
    (hfits : ∀ e ∈ edits, e.FitsIn maxLevel) : (c.run edits).ValidFor maxLevel := by
  induction edits generalizing c with
  | nil => exact hc
  | cons e rest ih =>
    have hnext : (c.after e).ValidFor maxLevel := hc.after (hfits e List.mem_cons_self)
    exact ih hnext fun e he => hfits e (List.mem_cons_of_mem _ he)

theorem after_inactive (hc : c.ValidFor maxLevel) (he : e.FitsIn maxLevel) :
    (c.after e).sequence (!c.useBezier) = c.sequence (!c.useBezier) := by
  rcases after_cases c e with hsame | hedited
  · rw [hsame]
  · rcases Edit.outcome_cases hc he hedited with hsame | hstep | ⟨useBezier, hmode⟩ | ⟨scale, hscale⟩
    · rw [hsame]
    · exact hstep.inactive_eq
    · rw [hmode]
      rfl
    · rw [hscale]
      rfl

theorem step_length {limit : Option Int} (h : Edit.IsStep maxLevel limit c c') :
    (c'.sequence c.useBezier).length ≤ c.active.length ∨
      (c'.sequence c.useBezier).length = c.active.length + 1 ∧
        ∃ n ∈ limit, (c.active.length : Int) < n := by
  cases h with
  | formula hmode hstep =>
    rw [active_eq_formula hmode, hmode, List.length_map]
    change (List.map Segment.formula _).length ≤ _ ∨ (List.map Segment.formula _).length = _ ∧ _
    rw [List.length_map]
    exact hstep.growth
  | bezier hmode hstep =>
    rw [active_eq_bezier hmode, hmode, List.length_map]
    change (List.map Segment.bezier _).length ≤ _ ∨ (List.map Segment.bezier _).length = _ ∧ _
    rw [List.length_map]
    exact hstep.growth

/-- The sequence that was active does not grow, unless by one segment below the limit. -/
theorem after_length (hc : c.ValidFor maxLevel) (he : e.FitsIn maxLevel) :
    ((c.after e).sequence c.useBezier).length ≤ c.active.length ∨
      ((c.after e).sequence c.useBezier).length = c.active.length + 1 ∧
        ∃ n ∈ e.limit?, (c.active.length : Int) < n := by
  rcases after_cases c e with hsame | hedited
  · rw [hsame]
    exact Or.inl (Nat.le_refl _)
  · rcases Edit.outcome_cases hc he hedited with hsame | hstep | ⟨useBezier, hmode⟩ | ⟨scale, hscale⟩
    · rw [hsame]
      exact Or.inl (Nat.le_refl _)
    · exact step_length hstep
    · rw [hmode]
      exact Or.inl (Nat.le_refl _)
    · rw [hscale]
      exact Or.inl (Nat.le_refl _)

/-- A segment of the other kind is never appended. -/
theorem after_eq_of_wrong_kind {s : Segment} (he : e.FitsIn maxLevel) (hgiven : e.given? = some s)
    (hkind : s.isBezier ≠ c.useBezier) : c.after e = c := by
  rcases after_cases c e with hsame | hedited
  · exact hsame
  · cases e with
    | append bound segment maxSegments step expGrowth =>
      obtain rfl : segment = some s := hgiven
      obtain ⟨appended, happended, hedited⟩ := Outcome.bind_eq_ok_iff.1 hedited
      rw [← Except.ok.inj hedited]
      cases appended with
      | none => rfl
      | some c' =>
        exfalso
        obtain ⟨-, hstep⟩ := append?_cases happended
        cases hstep with
        | formula hmode hout =>
          obtain ⟨-, original, rfl, -⟩ := appendFormula_given (he.2 s rfl) hout
          exact hkind hmode.symm
        | bezier hmode hout =>
          obtain ⟨-, original, rfl, -⟩ := appendBezier_given (he.2 s rfl) hout
          exact hkind hmode.symm
    | _ => cases hgiven

/-- Whatever edits have been made to a valid curve, it is valid, and the next edit keeps it so. The
active sequence grows at most by one segment, and only below the limit of an append; the other one
stays as it is. Neither sequence ever has a segment of the other kind, and to append one changes
nothing. -/
theorem run_valid {edits : List Edit} {next : Edit} (hc : c.ValidFor maxLevel)
    (hedits : ∀ e ∈ edits, e.FitsIn maxLevel) (hnext : next.FitsIn maxLevel) :
    (c.run edits).ValidFor maxLevel ∧ ((c.run edits).after next).ValidFor maxLevel ∧
      (let now := c.run edits
      let edited := (c.run edits).after next
      (now.active.length < (edited.sequence now.useBezier).length →
        (edited.sequence now.useBezier).length = now.active.length + 1 ∧
          ∃ limit, next.limit? = some limit ∧ (now.active.length : Int) < limit) ∧
      (∀ bezierMode, ∀ s ∈ edited.sequence bezierMode, s.isBezier = bezierMode) ∧
      (∀ s, next.given? = some s → s.isBezier ≠ now.useBezier → edited = now) ∧
      edited.sequence (!now.useBezier) = now.sequence (!now.useBezier)) := by
  have hnow : (c.run edits).ValidFor maxLevel := hc.run hedits
  refine ⟨hnow, hnow.after hnext, ?_, ?_, ?_, after_inactive hnow hnext⟩
  · intro hlonger
    rcases after_length hnow hnext with hnot | hgrown
    · exact absurd hlonger (Nat.not_lt.2 hnot)
    · exact hgrown
  · intro bezierMode s hs
    exact isBezier_of_mem_sequence hs
  · intro s hgiven hkind
    exact after_eq_of_wrong_kind hnext hgiven hkind

theorem usual_validFor : Curve.usual.ValidFor 20 where
  formula := by
    refine ⟨?_, by decide⟩
    intro s hs
    rcases List.mem_pair.1 hs with rfl | rfl
    · exact ⟨1, 10, rfl, rfl, by decide, by decide, by decide⟩
    · exact ⟨10, 20, rfl, rfl, by decide, by decide, by decide⟩
  bezier := by
    refine ⟨?_, by decide⟩
    intro s hs
    rcases List.mem_pair.1 hs with rfl | rfl
    · exact ⟨1, 10, rfl, rfl, by decide, by decide, by decide⟩
    · exact ⟨10, 20, rfl, rfl, by decide, by decide, by decide⟩

/-- The usual curve with an end dragged and another segment in Bezier mode, then divided anew. -/
theorem run_valid_usual :
    let edits : List Edit := [.drag "2" "end" ⟨.int 15, .int 0⟩ 20 usualSnap,
      .append 20 none 10 10 (.int 2), .setMode true, .delete "1"]
    (Curve.usual.run edits).ValidFor 20 ∧
      ((Curve.usual.run edits).after (.redistribute 7)).ValidFor 20 := by
  intro edits
  have hfits : ∀ e ∈ edits, e.FitsIn 20 := by
    simp [edits, Edit.FitsIn]
  obtain ⟨hnow, hedited, -⟩ := run_valid usual_validFor hfits
    (show (Edit.redistribute 7).FitsIn 20 by simp [Edit.FitsIn])
  exact ⟨hnow, hedited⟩

end Curve

end ExperienceCurves
