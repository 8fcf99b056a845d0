import ExperienceCurves.Proofs.DragFailures
import ExperienceCurves.Proofs.EvenDivision
import ExperienceCurves.Proofs.SentEdits

/-!
Drags of an end. An end has an interval of levels for room. The drag finds the segment by its name,
fails where it has no room, and moves the end to the nearest level of its room or onto a neighbour
inside it. It can fail in no other way, unless the level cannot be rounded or compared or the message
of the failure cannot be written.
-/
namespace ExperienceCurves

open Editing

/-- The levels that the message of a refused range states. -/
def RangeError.levels (r : RangeError) : List Datum :=
  match r.cause with
  | .outside maxLevel | .noRoomForEnd maxLevel => [r.startLevel, r.endLevel, maxLevel]
  | _ => [r.startLevel, r.endLevel]

def Span.levels (s : Span) : List Datum := [.number s.startLevel, .number s.endLevel]

namespace Editing

namespace Endpoint

/-- A level that leaves the segment at least one level long. -/
def HasRoomAt (handle : Endpoint) (s : Span) (maxLevel n : Int) : Prop :=
  match handle with
  | start => 1 ≤ n ∧ n < maxLevel ∧ (Number.int n).lt s.endLevel = true
  | finish => n ≤ maxLevel ∧ s.startLevel.lt (.int n) = true
  | _ => False

/-- The start or the end of a segment, and no control point. -/
def IsEnd (handle : Endpoint) : Prop := handle = start ∨ handle = finish

/-- The level of the neighbour that an end is dragged toward. -/
def facing (handle : Endpoint) (previous following : Option Span) : Option Number :=
  match handle with
  | start => previous.map Span.endLevel
  | finish => following.map Span.startLevel
  | _ => none

/-- The range with one end at another level. -/
def movedTo (handle : Endpoint) (s : Span) (n : Int) : Span :=
  match handle with
  | start => { s with startLevel := .int n }
  | finish => { s with endLevel := .int n }
  | _ => s

/-- The level of a neighbour, or the level with room that is nearest to the rounded one. -/
def Places (handle : Endpoint) (level : Binary64) (maxLevel : Int) (previous : Option Span)
    (s : Span) (following : Option Span) (n : Int) : Prop :=
  handle.HasRoomAt s maxLevel n ∧ (.int n ∈ handle.facing previous following ∨
    ∃ nearest, roundLevel (.real level) = .ok nearest ∧
      ∀ m, handle.HasRoomAt s maxLevel m → (nearest - n).natAbs ≤ (nearest - m).natAbs)

/-- The refusal for lack of room. -/
def noRoom (handle : Endpoint) (s : Span) (maxLevel : Int) : RangeError :=
  match handle with
  | start => ⟨.noRoomForStart, s.startLevel, s.endLevel⟩
  | _ => ⟨.noRoomForEnd (.int maxLevel), s.startLevel, s.endLevel⟩

/-- The refusal for lack of room states a level that is too long to be written. -/
def StatesLong (handle : Endpoint) (s : Span) (maxLevel : Int) : Prop :=
  match handle with
  | start => s.endLevel.isWritable = false
  | finish => s.startLevel.isWritable = false ∨ Numeral.isWritable maxLevel = false
  | _ => False

/-- The drag fails in a way that is not its own: the level cannot be rounded or compared, the lack
of room cannot be stated, or the control point cannot be placed. -/
def Trips (handle : Endpoint) (level : Datum) (maxLevel : Int) (bezierMode : Bool)
    (previous : Option Span) (s : Span) (following : Option Span) : Prop :=
  match handle with
  | start | finish =>
      (∃ n, handle.HasRoomAt s maxLevel n) ∧
          (level.isFinite = false ∨ ∃ n ∈ handle.facing previous following, n.OutOfRange) ∨
        (∀ n, ¬handle.HasRoomAt s maxLevel n) ∧ handle.StatesLong s maxLevel
  | control1 | control2 => bezierMode = true ∧
      (s.startLevel.OutOfRange ∨ ∃ length, s.endLevel.sub s.startLevel = .ok length ∧
        length.OutOfRange)

end Endpoint

/-- The first range with the name, and what is before and after it. -/
structure FirstNamed (id : Datum) (spans before : List Span) (s : Span) (after : List Span) :
    Prop where
  eq_append : spans = before ++ s :: after
  isNamed : s.isNamed id = true
  others : ∀ t ∈ before, t.isNamed id = false

end Editing

namespace Editing

section Named

variable {α : Type} [Spanned α] {own : Failure → Prop} {id : Datum} {segments : List α}

theorem split?_eq_none (h : split? id segments = none) :
    ∀ s ∈ segments.map Spanned.span, s.isNamed id = false := by
  induction segments with
  | nil => exact fun s hs => nomatch hs
  | cons segment rest ih =>
    unfold split? at h
    split at h
    · cases h
    · next hother =>
      refine List.forall_mem_cons.2 ⟨Bool.eq_false_iff.2 hother, ih ?_⟩
      exact Option.map_eq_none_iff.1 h

theorem firstNamed_of_split? {before after : List α} {s : α}
    (h : split? id segments = some (before, s, after)) :
    FirstNamed id (segments.map Spanned.span) (before.map Spanned.span) (Spanned.span s)
      (after.map Spanned.span) := by
  induction segments generalizing before with
  | nil => cases h
  | cons segment rest ih =>
    unfold split? at h
    split at h
    · next hnamed =>
      obtain ⟨rfl, rfl, rfl⟩ : [] = before ∧ segment = s ∧ rest = after := by
        simpa only [Option.some.injEq, Prod.mk.injEq] using h
      exact ⟨rfl, hnamed, fun t ht => absurd ht List.not_mem_nil⟩
    · next hother =>
      obtain ⟨⟨earlier, hit, later⟩, hrest, h⟩ := Option.map_eq_some_iff.1 h
      obtain ⟨rfl, rfl, rfl⟩ : segment :: earlier = before ∧ hit = s ∧ later = after := by
        simpa only [Prod.mk.injEq] using h
      obtain ⟨happend, hnamed, hothers⟩ := ih hrest
      refine ⟨?_, hnamed, List.forall_mem_cons.2 ⟨Bool.eq_false_iff.2 hother, hothers⟩⟩
      rw [List.map_cons, happend]
      rfl

/-- Only one range is the first with the name. -/
theorem FirstNamed.unique {spans before before' after after' : List Span} {s s' : Span}
    (h : FirstNamed id spans before s after) (h' : FirstNamed id spans before' s' after') :
    before = before' ∧ s = s' ∧ after = after' := by
  obtain ⟨rfl, hnamed, hothers⟩ := h
  obtain ⟨heq, hnamed', hothers'⟩ := h'
  induction before generalizing before' with
  | nil =>
    cases before' with
    | nil =>
      obtain ⟨rfl, rfl⟩ := List.cons.inj heq
      exact ⟨rfl, rfl, rfl⟩
    | cons t rest =>
      obtain ⟨rfl, -⟩ := List.cons.inj heq
      cases hnamed.symm.trans (hothers' s List.mem_cons_self)
  | cons t rest ih =>
    cases before' with
    | nil =>
      obtain ⟨rfl, -⟩ := List.cons.inj heq
      cases hnamed'.symm.trans (hothers t List.mem_cons_self)
    | cons t' rest' =>
      obtain ⟨rfl, hrest⟩ := List.cons.inj heq
      obtain ⟨rfl, rfl, rfl⟩ := ih (fun u hu => hothers u (List.mem_cons_of_mem _ hu)) hrest
        fun u hu => hothers' u (List.mem_cons_of_mem _ hu)
      exact ⟨rfl, rfl, rfl⟩

/-- An edit by name finds its segment and its neighbours, or fails as the name is unknown. -/
theorem editNamed_cases (id : Datum) (edit : Option α → α → Option α → Outcome α)
    (segments : List α) :
    (editNamed id edit segments = .error (Failure.unknownSegment id).written ∧
      ∀ s ∈ segments.map Spanned.span, s.isNamed id = false) ∨
    ∃ before s after, segments = before ++ s :: after ∧
      FirstNamed id (segments.map Spanned.span) (before.map Spanned.span) (Spanned.span s)
        (after.map Spanned.span) ∧
      editNamed id edit segments = (fun edited => before ++ edited :: after) <$>
        edit before.getLast? s after.head? := by
  unfold editNamed
  cases hsplit : split? id segments with
  | none => exact Or.inl ⟨rfl, split?_eq_none hsplit⟩
  | some parts =>
    obtain ⟨before, s, after⟩ := parts
    refine Or.inr ⟨before, s, after, split?_eq_some hsplit, firstNamed_of_split? hsplit, ?_⟩
    dsimp only
    cases edit before.getLast? s after.head? <;> rfl

/-- Names that segments have are texts. -/
theorem isWritable_of_isNamed {s : Span} (h : s.isNamed id = true) : id.isWritable = true := by
  cases id with
  | text name => rfl
  | _ => cases h

theorem isLong_unknownSegment_iff : (Failure.unknownSegment id).IsLong ↔ id.isWritable = false := by
  simp [Failure.IsLong, Failure.shown]

/-- The failures of an edit by name are those of the edit at the segment with the name, if there is
one, and an unknown name that cannot be written. -/
theorem strays_editNamed_iff {edit : Option α → α → Option α → Outcome α}
    {P : Option Span → Span → Option Span → Prop} (hlong : ¬own (.refused .tooLongInDigits))
    (hunknown : (∀ s ∈ segments.map Spanned.span, s.isNamed id = false) → own (.unknownSegment id))
    (hedit : ∀ previous, ∀ s ∈ segments, ∀ following, (∀ p ∈ previous, p ∈ segments) →
      (∀ f ∈ following, f ∈ segments) → (Outcome.Strays own (edit previous s following) ↔
        P (previous.map Spanned.span) (Spanned.span s) (following.map Spanned.span))) :
    Outcome.Strays own (editNamed id edit segments) ↔ id.isWritable = false ∨
      ∃ before s after, FirstNamed id (segments.map Spanned.span) before s after ∧
        P before.getLast? s after.head? := by
  rcases editNamed_cases id edit segments with
    ⟨herror, hnone⟩ | ⟨before, s, after, happend, hfirst, hedited⟩
  · rw [herror, Outcome.strays_written_iff hlong (hunknown hnone), isLong_unknownSegment_iff]
    refine ⟨Or.inl, fun h => h.resolve_right ?_⟩
    rintro ⟨before, s, after, ⟨happend, hnamed, -⟩, -⟩
    have hs : s ∈ segments.map Spanned.span := happend ▸ List.mem_append_right _ List.mem_cons_self
    cases hnamed.symm.trans (hnone s hs)
  · have hs : s ∈ segments := happend ▸ List.mem_append_right _ List.mem_cons_self
    have hprevious : ∀ p ∈ before.getLast?, p ∈ segments := fun p hp =>
      happend ▸ List.mem_append_left _ (List.mem_of_getLast? hp)
    have hfollowing : ∀ f ∈ after.head?, f ∈ segments := fun f hf =>
      happend ▸ List.mem_append_right _ (List.mem_cons_of_mem _ (List.mem_of_mem_head? hf))
    have hiff := hedit _ s hs _ hprevious hfollowing
    rw [← List.getLast?_map, ← List.head?_map] at hiff
    rw [hedited, Outcome.strays_map_iff, hiff]
    constructor
    · exact fun h => Or.inr ⟨_, _, _, hfirst, h⟩
    · rintro (hunwritable | ⟨before', s', after', hfirst', h⟩)
      · cases (isWritable_of_isNamed hfirst.isNamed).symm.trans hunwritable
      obtain ⟨rfl, rfl, rfl⟩ := hfirst.unique hfirst'
      exact h

end Named

/-- The room of an end, as drags compute it. -/
def room (handle : Endpoint) (s : Span) (maxLevel : Datum) : Outcome (Number × Number) :=
  match handle with
  | .start => startRoom s maxLevel
  | _ => endRoom s maxLevel

/-- The drag of an end: it is moved in its room, beside what it faces. -/
def dragEnd {α : Type} (handle : Endpoint) (s : Span) (maxLevel : Datum) (snap : Snap)
    (target : Target) (hasExp : Bool) (facing : Option (Number × Option Number))
    (update : Number × Option Number → α) : Outcome α := do
  let room ← room handle s maxLevel
  let moved ← moveBoundary snap target room.1 room.2 hasExp facing
  return update moved

section Ends

variable {handle : Endpoint} {s : Span} {bound maxLevel : Int} {snap : Snap} {x y : Binary64}
  {hasExp : Bool} {neighbour : Option (Number × Option Number)} {α : Type}
  {update : Number × Option Number → α}

theorem levels_noRoom (handle : Endpoint) (s : Span) (bound : Int) :
    (handle.noRoom s bound).levels ⊆ s.levels ++ [.int bound] := by
  cases handle <;> simp [Endpoint.noRoom, RangeError.levels, Span.levels]

theorem isLong_noRoom_iff (hend : handle.IsEnd) (s : Span) (bound : Int) :
    (Failure.range (handle.noRoom s bound)).IsLong ↔ handle.StatesLong s bound := by
  rcases hend with rfl | rfl <;>
    simp [Failure.IsLong, Failure.shown, RangeError.shown, Endpoint.noRoom, Endpoint.StatesLong,
      Datum.isWritable, Datum.int, Number.isWritable]

/-- The room of an end is an interval of levels. Where it is empty, the drag says so. -/
theorem room_cases (hs : s.Within maxLevel) (hend : handle.IsEnd) (bound : Int) :
    ∃ lower upper : Int, (∀ n, handle.HasRoomAt s bound n ↔ lower ≤ n ∧ n ≤ upper) ∧
      (lower ≤ upper ∧ room handle s (.int bound) = .ok (.int lower, .int upper) ∨
        upper < lower ∧
          room handle s (.int bound) = .error (Failure.range (handle.noRoom s bound)).written) := by
  obtain ⟨a, b, hstart, hfinish, hone, hlt, -⟩ := hs
  rcases hend with rfl | rfl
  · refine ⟨1, min b bound - 1, fun n => ?_, ?_⟩
    · rw [Endpoint.HasRoomAt, hfinish, Number.lt_int, decide_eq_true_eq]
      omega
    · rw [room, startRoom_int hfinish]
      split
      · next hempty => exact Or.inr ⟨hempty, rfl⟩
      · next hroom => exact Or.inl ⟨by omega, rfl⟩
  · refine ⟨a + 1, bound, fun n => ?_, ?_⟩
    · rw [Endpoint.HasRoomAt, hstart, Number.lt_int, decide_eq_true_eq]
      omega
    · rw [show room .finish s (.int bound) = endRoom s (.int bound) by rfl, endRoom_int hstart]
      split
      · next hempty => exact Or.inr ⟨hempty, rfl⟩
      · next hroom => exact Or.inl ⟨by omega, rfl⟩

theorem Endpoint.trips_iff (hend : handle.IsEnd) {bezierMode : Bool}
    {previous following : Option Span} :
    handle.Trips (.real x) bound bezierMode previous s following ↔
      (∃ n, handle.HasRoomAt s bound n) ∧
          (x.isFinite = false ∨ ∃ n ∈ handle.facing previous following, n.OutOfRange) ∨
        (∀ n, ¬handle.HasRoomAt s bound n) ∧ handle.StatesLong s bound := by
  rcases hend with rfl | rfl <;> rfl

end Ends

/-- What an end of a segment faces and how it is moved, for segments of one kind. -/
structure EndOf {α : Type} [Spanned α] (handle : Endpoint) (previous : Option α) (s : α)
    (following : Option α) (neighbour : Option (Number × Option Number))
    (update : Number × Option Number → α) : Prop where
  facing_eq : neighbour.map Prod.fst =
    handle.facing (previous.map Spanned.span) (following.map Spanned.span)
  whole : ∀ facing ∈ neighbour, ∃ n : Int, facing.1 = .int n
  amounts : FacesAmounts neighbour
  span_update : ∀ (n : Int) (exp : Option Number),
    Spanned.span (update (.int n, exp)) = handle.movedTo (Spanned.span s) n

namespace EndOf

variable {α : Type} [Spanned α] {handle : Endpoint} {previous : Option α} {s : α}
  {following : Option α} {neighbour : Option (Number × Option Number)}
  {update : Number × Option Number → α} {bound maxLevel : Int} {snap : Snap} {x y : Binary64}
  {hasExp bezierMode : Bool}

/-- A drag of an end strays where there is room, but the level cannot be rounded or compared, or
where the lack of room cannot be stated. -/
theorem strays_iff (h : EndOf handle previous s following neighbour update) (hend : handle.IsEnd)
    (hs : (Spanned.span s).Within maxLevel) (hsnap : snap.IsNumeric) {own : Failure → Prop}
    (hown : ∀ fault, ¬own (.arithmetic fault)) (hlong : ¬own (.refused .tooLongInDigits))
    (hrange : ∀ r : RangeError, r.levels ⊆ (Spanned.span s).levels ++ [.int bound] →
      own (.range r)) :
    Outcome.Strays own (dragEnd handle (Spanned.span s) (.int bound) snap ⟨.real x, .real y⟩ hasExp
      neighbour update) ↔
    handle.Trips (.real x) bound bezierMode (previous.map Spanned.span) (Spanned.span s)
      (following.map Spanned.span) := by
  rw [Endpoint.trips_iff hend, ← h.facing_eq]
  simp only [Option.mem_map, exists_exists_and_eq_and]
  obtain ⟨lower, upper, hroom, ⟨hsome, hok⟩ | ⟨hempty, herror⟩⟩ := room_cases hs hend bound
  · have hexists : ∃ n, handle.HasRoomAt (Spanned.span s) bound n :=
      ⟨lower, (hroom lower).2 ⟨Int.le_refl _, hsome⟩⟩
    rw [dragEnd, hok]
    simp only [strays_moveBoundary_iff hown hsnap h.amounts, Outcome.strays_bind_iff,
      Outcome.not_strays_ok, Outcome.not_strays_pure, Except.ok.injEq, exists_eq_left', false_or,
      and_false, exists_false, or_false, hexists, true_and, ← not_exists, not_true, false_and]
  · have hnone : ¬∃ n, handle.HasRoomAt (Spanned.span s) bound n := fun ⟨n, hn⟩ => by
      have hbounds := (hroom n).1 hn
      omega
    rw [dragEnd, herror]
    simp only [hnone, ← not_exists, not_false_eq_true, true_and, false_and, false_or]
    exact (Outcome.strays_written_iff hlong (hrange _ (levels_noRoom _ _ _))).trans
      (isLong_noRoom_iff hend _ _)

/-- A drag of an end that does not trip finds no room, or moves the end where it has room. -/
theorem cases (h : EndOf handle previous s following neighbour update) (hend : handle.IsEnd)
    (hs : (Spanned.span s).Within maxLevel) (hsnap : snap.IsNumeric)
    (htrips : ¬handle.Trips (.real x) bound bezierMode (previous.map Spanned.span) (Spanned.span s)
      (following.map Spanned.span)) :
    (∃ r, dragEnd handle (Spanned.span s) (.int bound) snap ⟨.real x, .real y⟩ hasExp neighbour
        update = .error (.range r) ∧ ∀ n, ¬handle.HasRoomAt (Spanned.span s) bound n) ∨
    ∃ n t, dragEnd handle (Spanned.span s) (.int bound) snap ⟨.real x, .real y⟩ hasExp neighbour
        update = .ok t ∧ Spanned.span t = handle.movedTo (Spanned.span s) n ∧
      handle.Places x bound (previous.map Spanned.span) (Spanned.span s)
        (following.map Spanned.span) n := by
  obtain ⟨lower, upper, hroom, ⟨hsome, hok⟩ | ⟨hempty, herror⟩⟩ := room_cases hs hend bound
  · have hsteady : ¬Outcome.Strays (fun _ => False) (moveBoundary snap ⟨.real x, .real y⟩
        (.int lower) (.int upper) hasExp neighbour) := by
      rw [strays_moveBoundary_iff (fun _ => id) hsnap h.amounts]
      intro hstrays
      rw [Endpoint.trips_iff hend, ← h.facing_eq] at htrips
      refine htrips (Or.inl
        ⟨⟨lower, (hroom lower).2 ⟨Int.le_refl _, hsome⟩⟩, hstrays.imp_right ?_⟩)
      rintro ⟨facing, hin, hlarge⟩
      exact ⟨facing.1, Option.mem_map.2 ⟨facing, hin, rfl⟩, hlarge⟩
    cases hmoved : moveBoundary snap ⟨.real x, .real y⟩ (.int lower) (.int upper) hasExp
        neighbour with
    | error failure => exact absurd ⟨failure, hmoved, id⟩ hsteady
    | ok moved =>
      obtain ⟨level, exp⟩ := moved
      have hdragged : dragEnd handle (Spanned.span s) (.int bound) snap ⟨.real x, .real y⟩ hasExp
          neighbour update = .ok (update (level, exp)) := by
        rw [dragEnd, hok]
        simp only [bind, Except.bind, hmoved]
        rfl
      refine Or.inr ?_
      rcases moveBoundary_placed hmoved with
        ⟨nearest, hnearest, rfl⟩ | ⟨facing, hin, hlow, hhigh, rfl⟩
      · refine ⟨_, _, hdragged, h.span_update _ _, (hroom _).2 (by omega),
          Or.inr ⟨nearest, hnearest, fun m hm => ?_⟩⟩
        have hbounds := (hroom m).1 hm
        omega
      · obtain ⟨n, hn⟩ := h.whole facing hin
        rw [hn] at hdragged
        rw [hn, Number.le_int, decide_eq_true_eq] at hlow hhigh
        refine ⟨n, _, hdragged, h.span_update _ _, (hroom n).2 ⟨hlow, hhigh⟩, Or.inl ?_⟩
        rw [← h.facing_eq]
        exact Option.mem_map.2 ⟨facing, hin, hn⟩
  · have hnone (n : Int) : ¬handle.HasRoomAt (Spanned.span s) bound n := fun hn => by
      have hbounds := (hroom n).1 hn
      omega
    have hshort := fun hlong => htrips ((Endpoint.trips_iff hend).2
      (Or.inr ⟨hnone, (isLong_noRoom_iff hend _ _).1 hlong⟩))
    rw [Failure.written_of_not_isLong hshort] at herror
    exact Or.inl ⟨_, by rw [dragEnd, herror]; rfl, hnone⟩

end EndOf

section Segments

variable {own : Failure → Prop} {handle : Endpoint} {bound : Int} {snap : Snap} {x y : Binary64}

/-- The drag of a formula segment by an end. -/
def formulaEnd (handle : Endpoint) (previous : Option FormulaSegment) (s : FormulaSegment)
    (following : Option FormulaSegment) :
    Option (Number × Option Number) × (Number × Option Number → FormulaSegment) :=
  match handle with
  | .start => (previous.map fun p => (p.endLevel, none), fun r => { s with startLevel := r.1 })
  | _ => (following.map fun f => (f.startLevel, none), fun r => { s with endLevel := r.1 })

theorem dragFormula_eq (hend : handle.IsEnd) (target : Target) (maxLevel : Datum) (snap : Snap)
    (previous : Option FormulaSegment) (s : FormulaSegment) (following : Option FormulaSegment) :
    dragFormula handle target maxLevel snap previous s following =
      dragEnd handle s.toSpan maxLevel snap target false (formulaEnd handle previous s following).1
        (formulaEnd handle previous s following).2 := by
  rcases hend with rfl | rfl <;> rfl

/-- The drag of a Bezier segment by an end. -/
def bezierEnd (handle : Endpoint) (previous : Option BezierSegment) (s : BezierSegment)
    (following : Option BezierSegment) :
    Option (Number × Option Number) × (Number × Option Number → BezierSegment) :=
  match handle with
  | .start => (previous.map fun p => (p.endLevel, some p.endExp),
      fun r => { s with startLevel := r.1, startExp := r.2.getD s.startExp })
  | _ => (following.map fun f => (f.startLevel, some f.startExp),
      fun r => { s with endLevel := r.1, endExp := r.2.getD s.endExp })

theorem dragBezier_eq (hend : handle.IsEnd) (target : Target) (maxLevel : Datum) (snap : Snap)
    (previous : Option BezierSegment) (s : BezierSegment) (following : Option BezierSegment) :
    dragBezier handle target maxLevel snap previous s following =
      dragEnd handle s.toSpan maxLevel snap target true (bezierEnd handle previous s following).1
        (bezierEnd handle previous s following).2 := by
  rcases hend with rfl | rfl <;> rfl

theorem endOf_formulaEnd (hend : handle.IsEnd) {previous following : Option FormulaSegment}
    (s : FormulaSegment) (hprevious : ∀ p ∈ previous, p.IsSendable)
    (hfollowing : ∀ f ∈ following, f.IsSendable) :
    EndOf handle previous s following (formulaEnd handle previous s following).1
      (formulaEnd handle previous s following).2 := by
  rcases hend with rfl | rfl
  · refine ⟨by cases previous <;> rfl, facing_whole (fun _ => none) exists_endLevel fun p hp =>
      (hprevious p hp).span.isWhole, fun facing hfacing exp hexp => ?_, fun _ _ => rfl⟩
    obtain ⟨p, -, rfl⟩ := Option.map_eq_some_iff.1 hfacing
    cases hexp
  · refine ⟨by cases following <;> rfl, facing_whole (fun _ => none) exists_startLevel fun f hf =>
      (hfollowing f hf).span.isWhole, fun facing hfacing exp hexp => ?_, fun _ _ => rfl⟩
    obtain ⟨f, -, rfl⟩ := Option.map_eq_some_iff.1 hfacing
    cases hexp

theorem endOf_bezierEnd (hend : handle.IsEnd) {previous following : Option BezierSegment}
    (s : BezierSegment) (hprevious : ∀ p ∈ previous, p.IsSendable)
    (hfollowing : ∀ f ∈ following, f.IsSendable) :
    EndOf handle previous s following (bezierEnd handle previous s following).1
      (bezierEnd handle previous s following).2 := by
  rcases hend with rfl | rfl
  · refine ⟨by cases previous <;> rfl, facing_whole
      (fun p : BezierSegment => some p.endExp) exists_endLevel
      fun p hp => (hprevious p hp).span.isWhole, fun facing hfacing exp hexp => ?_, fun _ _ => rfl⟩
    obtain ⟨p, hp, rfl⟩ := Option.map_eq_some_iff.1 hfacing
    obtain rfl := Option.some.inj hexp
    exact (hprevious p hp).endExp
  · refine ⟨by cases following <;> rfl, facing_whole
      (fun f : BezierSegment => some f.startExp) exists_startLevel
      fun f hf => (hfollowing f hf).span.isWhole, fun facing hfacing exp hexp => ?_, fun _ _ => rfl⟩
    obtain ⟨f, hf, rfl⟩ := Option.map_eq_some_iff.1 hfacing
    obtain rfl := Option.some.inj hexp
    exact (hfollowing f hf).startExp

/-- A formula segment has no control points, and that is a failure of its own. -/
theorem strays_dragFormula_iff (hown : ∀ fault, ¬own (.arithmetic fault))
    (hlong : ¬own (.refused .tooLongInDigits))
    {previous following : Option FormulaSegment} {s : FormulaSegment}
    (hrange : ∀ r : RangeError, r.levels ⊆ s.toSpan.levels ++ [.int bound] → own (.range r))
    (hs : s.IsSendable) (hprevious : ∀ p ∈ previous, p.IsSendable)
    (hfollowing : ∀ f ∈ following, f.IsSendable) (hsnap : snap.IsNumeric) :
    Outcome.Strays own
      (dragFormula handle ⟨.real x, .real y⟩ (.int bound) snap previous s following) ↔
    handle.Trips (.real x) bound false (previous.map Spanned.span) (Spanned.span s)
      (following.map Spanned.span) := by
  obtain ⟨maxLevel, hwithin⟩ := hs.span.within
  have hside (hend : handle.IsEnd) : Outcome.Strays own
      (dragFormula handle ⟨.real x, .real y⟩ (.int bound) snap previous s following) ↔
      handle.Trips (.real x) bound false (previous.map Spanned.span) s.toSpan
        (following.map Spanned.span) := by
    rw [dragFormula_eq hend]
    exact (endOf_formulaEnd hend s hprevious hfollowing).strays_iff hend hwithin hsnap hown hlong
      hrange
  have hcontrol : ¬Outcome.Strays own
      (.error (.range ⟨.noControlPoints, s.startLevel, s.endLevel⟩) : Outcome FormulaSegment) :=
    fun h => Outcome.strays_error_iff.1 h
      (hrange _ (by simp [RangeError.levels, Span.levels]))
  cases handle with
  | start => exact hside (Or.inl rfl)
  | finish => exact hside (Or.inr rfl)
  | control1 => exact ⟨fun h => absurd h hcontrol, fun h => nomatch h.1⟩
  | control2 => exact ⟨fun h => absurd h hcontrol, fun h => nomatch h.1⟩

theorem strays_dragBezier_iff (hown : ∀ fault, ¬own (.arithmetic fault))
    (hlong : ¬own (.refused .tooLongInDigits))
    {previous following : Option BezierSegment} {s : BezierSegment}
    (hrange : ∀ r : RangeError, r.levels ⊆ s.toSpan.levels ++ [.int bound] → own (.range r))
    (hs : s.IsSendable) (hprevious : ∀ p ∈ previous, p.IsSendable)
    (hfollowing : ∀ f ∈ following, f.IsSendable) (hsnap : snap.IsNumeric) :
    Outcome.Strays own
      (dragBezier handle ⟨.real x, .real y⟩ (.int bound) snap previous s following) ↔
    handle.Trips (.real x) bound true (previous.map Spanned.span) (Spanned.span s)
      (following.map Spanned.span) := by
  obtain ⟨maxLevel, hwithin⟩ := hs.span.within
  have hside (hend : handle.IsEnd) : Outcome.Strays own
      (dragBezier handle ⟨.real x, .real y⟩ (.int bound) snap previous s following) ↔
      handle.Trips (.real x) bound true (previous.map Spanned.span) s.toSpan
        (following.map Spanned.span) := by
    rw [dragBezier_eq hend]
    exact (endOf_bezierEnd hend s hprevious hfollowing).strays_iff hend hwithin hsnap hown hlong
      hrange
  have hcontrol (fallback : ControlPoint) (update : ControlPoint → BezierSegment) :
      Outcome.Strays own (controlAt s ⟨.real x, .real y⟩ fallback >>= fun p => pure (update p)) ↔
        true = true ∧ (s.startLevel.OutOfRange ∨
          ∃ length, s.endLevel.sub s.startLevel = .ok length ∧ length.OutOfRange) := by
    obtain ⟨a, b, hstart, hend, -, hlt, -⟩ := hwithin
    simp only [Outcome.strays_return_iff, hstart, hend, Number.sub_int, Except.ok.injEq,
      exists_eq_left', true_and, strays_controlAt_iff hown hstart hend hlt hs.startExp hs.endExp]
  cases handle with
  | start => exact hside (Or.inl rfl)
  | finish => exact hside (Or.inr rfl)
  | control1 => exact hcontrol _ fun control1 => { s with control1 }
  | control2 => exact hcontrol _ fun control2 => { s with control2 }

end Segments

end Editing

namespace Curve

variable {c : Curve}

theorem spans_eq_formula (hmode : c.useBezier = false) :
    c.spans = c.segments.map Spanned.span := by
  rw [spans, active_eq_formula hmode, List.map_map]
  rfl

theorem spans_eq_bezier (hmode : c.useBezier = true) :
    c.spans = c.bezierSegments.map Spanned.span := by
  rw [spans, active_eq_bezier hmode, List.map_map]
  rfl

end Curve

/-- What the drag of an end comes to: the name is unknown, the segment has no room, or its end is
moved in the room it has. -/
inductive DragResult (c : Curve) (id : Datum) (handle : Endpoint) (level : Binary64)
    (maxLevel : Int) : Outcome Curve → Prop
  | unknown (hnone : ∀ s ∈ c.spans, s.isNamed id = false) :
      DragResult c id handle level maxLevel (.error (.unknownSegment id))
  | noRoom {before : List Span} {s : Span} {after : List Span} {r : RangeError}
      (hfirst : FirstNamed id c.spans before s after)
      (hroom : ∀ n, ¬handle.HasRoomAt s maxLevel n) :
      DragResult c id handle level maxLevel (.error (.range r))
  | moved {before : List Span} {s : Span} {after : List Span} {n : Int} {c' : Curve}
      (hfirst : FirstNamed id c.spans before s after)
      (hplace : handle.Places level maxLevel before.getLast? s after.head? n)
      (hspans : c'.spans = before ++ handle.movedTo s n :: after) (hsendable : c'.IsSendable) :
      DragResult c id handle level maxLevel (.ok c')

namespace Editing

/-- What a drag does to the segment with the name decides what it comes to. -/
theorem dragResult_of_editNamed {α : Type} [Spanned α] {c : Curve} {id : Datum} {handle : Endpoint}
    {x : Binary64} {bound : Int} {segments : List α}
    {edit : Option α → α → Option α → Outcome α} {rebuild : List α → Curve}
    (hid : id.isWritable = true) (hspans : c.spans = segments.map Spanned.span)
    (hrebuild : ∀ out, (rebuild out).spans = out.map Spanned.span)
    (hsendable : ∀ out, editNamed id edit segments = .ok out → (rebuild out).IsSendable)
    (hedit : ∀ previous, ∀ s ∈ segments, ∀ following, (∀ p ∈ previous, p ∈ segments) →
      (∀ f ∈ following, f ∈ segments) →
      (∃ before after, FirstNamed id c.spans before (Spanned.span s) after ∧
        before.getLast? = previous.map Spanned.span ∧ after.head? = following.map Spanned.span) →
      (∃ r, edit previous s following = .error (.range r) ∧
        ∀ n, ¬handle.HasRoomAt (Spanned.span s) bound n) ∨
      ∃ n t, edit previous s following = .ok t ∧
        Spanned.span t = handle.movedTo (Spanned.span s) n ∧
          handle.Places x bound (previous.map Spanned.span) (Spanned.span s)
            (following.map Spanned.span) n) :
    DragResult c id handle x bound
      (editNamed id edit segments >>= fun out => pure (rebuild out)) := by
  rcases editNamed_cases id edit segments with
    ⟨herror, hnone⟩ | ⟨before, s, after, happend, hfirst, hedited⟩
  · have hshort : ¬(Failure.unknownSegment id).IsLong := fun hlong => by
      cases hid.symm.trans (isLong_unknownSegment_iff.1 hlong)
    rw [herror, Failure.written_of_not_isLong hshort]
    exact .unknown (hspans ▸ hnone)
  · have hs : s ∈ segments := happend ▸ List.mem_append_right _ List.mem_cons_self
    have hprevious : ∀ p ∈ before.getLast?, p ∈ segments := fun p hp =>
      happend ▸ List.mem_append_left _ (List.mem_of_getLast? hp)
    have hfollowing : ∀ f ∈ after.head?, f ∈ segments := fun f hf =>
      happend ▸ List.mem_append_right _ (List.mem_cons_of_mem _ (List.mem_of_mem_head? hf))
    rw [← hspans] at hfirst
    rcases hedit _ s hs _ hprevious hfollowing
      ⟨_, _, hfirst, List.getLast?_map .., List.head?_map ..⟩ with
      ⟨r, herror, hroom⟩ | ⟨n, t, hok, hmoved, hplaces⟩
    · rw [herror] at hedited
      rw [hedited]
      exact .noRoom hfirst hroom
    · rw [hok] at hedited
      have hout := hsendable _ hedited
      rw [hedited]
      refine .moved hfirst (n := n) ?_ ?_ hout
      · rwa [List.getLast?_map, List.head?_map]
      · rw [hrebuild, List.map_append, List.map_cons, hmoved]

end Editing

namespace Curve

variable {c : Curve} {id : Datum} {handle : Endpoint} {x y : Binary64} {bound : Int} {snap : Snap}

/-- A drag of an end that does not trip at the segment with the name comes to one of its results. -/
theorem dragResult (hc : c.IsSendable) (hid : id.isWritable = true) (hend : handle.IsEnd)
    (hsnap : snap.IsNumeric)
    (htrips : ∀ before s after, FirstNamed id c.spans before s after →
      ¬handle.Trips (.real x) bound c.useBezier before.getLast? s after.head?) :
    DragResult c id handle x bound (c.drag id handle ⟨.real x, .real y⟩ (.int bound) snap) := by
  have hsendable {c' : Curve} (h : c.drag id handle ⟨.real x, .real y⟩ (.int bound) snap = .ok c') :
      c'.IsSendable := hc.drag h
  cases hmode : c.useBezier with
  | true =>
    have hspans := spans_eq_bezier hmode
    have hdrag : c.drag id handle ⟨.real x, .real y⟩ (.int bound) snap = _ := if_pos hmode
    rw [hdrag] at hsendable ⊢
    refine dragResult_of_editNamed hid hspans (fun out => spans_eq_bezier hmode) (fun out hout =>
      hsendable (by rw [hout]; rfl)) ?_
    rintro previous s hs following hprevious hfollowing ⟨before, after, hfirst, hbefore, hafter⟩
    have hsteady := htrips _ _ _ hfirst
    rw [hbefore, hafter] at hsteady
    obtain ⟨maxLevel, hwithin⟩ := (hc.bezier s hs).span.within
    rw [dragBezier_eq hend]
    exact (endOf_bezierEnd hend s (fun p hp => hc.bezier p (hprevious p hp)) fun f hf =>
      hc.bezier f (hfollowing f hf)).cases hend hwithin hsnap hsteady
  | false =>
    have hspans := spans_eq_formula hmode
    have hdrag : c.drag id handle ⟨.real x, .real y⟩ (.int bound) snap = _ :=
      if_neg (by rw [hmode]; decide)
    rw [hdrag] at hsendable ⊢
    refine dragResult_of_editNamed hid hspans (fun out => spans_eq_formula hmode) (fun out hout =>
      hsendable (by rw [hout]; rfl)) ?_
    rintro previous s hs following hprevious hfollowing ⟨before, after, hfirst, hbefore, hafter⟩
    have hsteady := htrips _ _ _ hfirst
    rw [hbefore, hafter] at hsteady
    obtain ⟨maxLevel, hwithin⟩ := (hc.formula s hs).span.within
    rw [dragFormula_eq hend]
    exact (endOf_formulaEnd hend s (fun p hp => hc.formula p (hprevious p hp)) fun f hf =>
      hc.formula f (hfollowing f hf)).cases hend hwithin hsnap hsteady

end Curve

end ExperienceCurves
