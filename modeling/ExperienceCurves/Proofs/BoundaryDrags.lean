import ExperienceCurves.Proofs.BezierValues
import ExperienceCurves.Proofs.DragEnds
import ExperienceCurves.Proofs.Joins
import ExperienceCurves.Proofs.NamedSegments
import ExperienceCurves.Proofs.NearestLevels

/-!
Dragged boundaries, exactly. A boundary has an interval of levels to move in, and where that is
empty the drag is refused, unless the message is too long to be written. Otherwise it lands on the
neighbour's point if that is in the interval and close to the point asked for, and on the nearest
level of the interval if not. Only a neighbour at a level that no binary number comes near to cannot
be compared, and then the drag fails.
-/
namespace ExperienceCurves

open Editing

namespace Segment

/-- The level at the start, and the requirement there if the segment states it. -/
def startPoint : Segment → Number × Option Number
  | formula s => (s.startLevel, none)
  | bezier s => (s.startLevel, some s.startExp)

/-- The level at the end, and the requirement there if the segment states it. -/
def endPoint : Segment → Number × Option Number
  | formula s => (s.endLevel, none)
  | bezier s => (s.endLevel, some s.endExp)

def withStart (p : Number × Option Number) : Segment → Segment
  | formula s => formula { s with startLevel := p.1 }
  | bezier s => bezier { s with startLevel := p.1, startExp := p.2.getD s.startExp }

def withEnd (p : Number × Option Number) : Segment → Segment
  | formula s => formula { s with endLevel := p.1 }
  | bezier s => bezier { s with endLevel := p.1, endExp := p.2.getD s.endExp }

end Segment

namespace Editing.Endpoint

/-- The segment with one end at another point. -/
def withPoint (handle : Endpoint) (s : Segment) (p : Number × Option Number) : Segment :=
  match handle with
  | start => s.withStart p
  | finish => s.withEnd p
  | _ => s

/-- The level of one end. -/
def levelOf (handle : Endpoint) (s : Segment) : Number :=
  match handle with
  | start => (Spanned.span s).startLevel
  | _ => (Spanned.span s).endLevel

/-- The neighbour's point on the side of the end. -/
def facingPoint (handle : Endpoint) (before after : List Segment) :
    Option (Number × Option Number) :=
  match handle with
  | start => before.getLast?.map Segment.endPoint
  | finish => after.head?.map Segment.startPoint
  | _ => none

/-- The neighbours on the side of the end, in order. -/
def neighbours (handle : Endpoint) (before : List Segment) (s : Segment) (after : List Segment) :
    Option (Segment × Segment) :=
  match handle with
  | start => before.getLast?.map fun p => (p, s)
  | finish => after.head?.map fun n => (s, n)
  | _ => none

/-- The least level that an end can move to. -/
def lowest (handle : Endpoint) (s : Segment) : Int :=
  match handle with
  | start => 1
  | _ => (Spanned.span s).first + 1

/-- The greatest level that an end can move to. -/
def highest (handle : Endpoint) (s : Segment) (maxLevel : Int) : Int :=
  match handle with
  | start => min (Spanned.span s).last maxLevel - 1
  | _ => maxLevel

end Editing.Endpoint

/-- The point of a boundary is close to the neighbour's: their levels differ by no more than the
threshold, and their requirements by no more than one or a share of the neighbour's. All of this as
numbers compute it. -/
structure IsClose (threshold ratio level : Number) (exp : Option Number)
    (facing : Number × Option Number) : Prop where
  levels : ∃ d, level.sub facing.1 = .ok d ∧ threshold.lt d.abs = false
  exps : ∀ e ∈ exp, ∀ f ∈ facing.2, ∃ share d, ratio.mul f.abs = .ok share ∧ e.sub f = .ok d ∧
    d.abs.le (Curve.usualTolerance.max share) = true

theorem Binary64.position_abs {x : Binary64} (hx : x.isFinite = true) :
    x.abs.isNan = false ∧ x.abs.position = ((|x.toRat| : Rat) : WithTop Rat) := by
  cases x with
  | nan => cases hx
  | infinite negative => cases hx
  | finite negative mantissa exponent hcanonical =>
    refine ⟨rfl, ?_⟩
    have hsize := abs_of_nonneg (scaled_nonneg mantissa exponent)
    cases negative with
    | false => exact congrArg (fun r : Rat => ((r : WithTop Rat) : Line)) hsize.symm
    | true =>
      exact congrArg (fun r : Rat => ((r : WithTop Rat) : Line)) (hsize.symm.trans (abs_neg _).symm)

/-- The exact distance of the level from a whole one is no more than the threshold, and binary
numbers can state both the threshold and the whole level. -/
structure IsWithin (threshold : Number) (x : Binary64) (n : Int) : Prop where
  exact : Binary64.Exact n
  le_threshold : ∃ t : Rat, Binary64.Exact t ∧ threshold.isNan = false ∧
    threshold.position = ((t : WithTop Rat) : Line) ∧ |x.toRat - n| ≤ t

/-- A distance that is rounded stays within a threshold that binary numbers can state. -/
theorem IsWithin.exists_sub {threshold : Number} {x : Binary64} {n : Int}
    (h : IsWithin threshold x n) (hx : x.isFinite = true) :
    ∃ d, (Number.real x).sub (.int n) = .ok d ∧ threshold.lt d.abs = false := by
  obtain ⟨hwhole, t, hexact, hnan, hposition, hdistance⟩ := h
  obtain ⟨hn, hrounded⟩ := Binary64.between_ofInt hwhole hwhole le_rfl le_rfl
  have hvalue : (Binary64.ofInt n).toRat = n := le_antisymm hrounded.le_high hrounded.low_le
  rw [← hvalue, abs_le] at hdistance
  have hbetween := Binary64.between_sub hx hrounded.isFinite hexact.neg hexact hdistance.1
    hdistance.2
  obtain ⟨hreal, habs⟩ := Binary64.position_abs hbetween.isFinite
  refine ⟨.real (x - Binary64.ofInt n), Number.combine_binary rfl hn (Or.inl rfl), ?_⟩
  have hlt := @Number.lt_iff threshold (.real (x - Binary64.ofInt n).abs) hnan hreal
  change threshold.lt (.real (x - Binary64.ofInt n).abs) = false
  rw [Bool.eq_false_iff, ne_eq, hlt, hposition, Number.position_real, habs, WithBot.coe_lt_coe,
    WithTop.coe_lt_coe, not_lt]
  exact abs_le.2 ⟨hbetween.low_le, hbetween.le_high⟩

theorem Number.not_outOfRange_abs {n : Number} (h : ¬n.OutOfRange) : ¬n.abs.OutOfRange := by
  obtain ⟨x, hx⟩ := n.toBinary64_cases.resolve_left h
  obtain ⟨y, hy⟩ := exists_toBinary64_abs hx
  exact not_outOfRange hy

theorem Datum.max_number (x y : Number) :
    (Datum.number x).max (.number y) = .ok (.number (x.max y)) := by
  unfold Datum.max Number.max
  simp only [Datum.holds, Number.holds, bind, Except.bind, pure, Except.pure]
  split <;> rfl

namespace Editing

section Points

variable {ratio : Number} {exp : Option Number} {facing : Number × Option Number}

/-- Requirements in the range of binary numbers have a difference, and a share. -/
theorem exists_share_difference {e f : Number} (hratio : ¬ratio.OutOfRange) (he : ¬e.OutOfRange)
    (hf : ¬f.OutOfRange) :
    ∃ share d, ratio.mul f.abs = .ok share ∧ e.sub f = .ok d := by
  obtain ⟨share, hshare⟩ : ∃ share, ratio.mul f.abs = .ok share :=
    Number.exists_combine (fun _ _ => ⟨_, rfl⟩) (fun _ _ => ⟨_, rfl⟩) hratio
      (Number.not_outOfRange_abs hf)
  obtain ⟨d, hd⟩ : ∃ d, e.sub f = .ok d :=
    Number.exists_combine (fun _ _ => ⟨_, rfl⟩) (fun _ _ => ⟨_, rfl⟩) he hf
  exact ⟨share, d, hshare, hd⟩

/-- Points with close levels that both state requirements are close if these are. -/
theorem isClose_iff_of_exps {threshold level d share difference e f : Number}
    (hoffset : level.sub facing.1 = .ok d) (hlevels : threshold.lt d.abs = false)
    (hf : facing.2 = some f) (hshare : ratio.mul f.abs = .ok share)
    (hdifference : e.sub f = .ok difference) :
    IsClose threshold ratio level (some e) facing ↔
      difference.abs.le (Curve.usualTolerance.max share) = true := by
  constructor
  · intro hclose
    obtain ⟨share', difference', hshare', hdifference', hle⟩ := hclose.exps e rfl f hf
    obtain rfl := Except.ok.inj (hshare.symm.trans hshare')
    obtain rfl := Except.ok.inj (hdifference.symm.trans hdifference')
    exact hle
  · intro hle
    refine ⟨⟨d, hoffset, hlevels⟩, fun e' he' f' hf' => ⟨share, difference, ?_⟩⟩
    obtain rfl := Option.some.inj he'
    obtain rfl := Option.some.inj (hf.symm.trans hf')
    exact ⟨hshare, hdifference, hle⟩

/-- Points can be compared unless their levels have no difference. -/
theorem isNear_cases (threshold level : Number) (hratio : ¬ratio.OutOfRange)
    (hexp : ∀ e ∈ exp, ¬e.OutOfRange) (hfacing : ∀ f ∈ facing.2, ¬f.OutOfRange) :
    (∃ fault, level.sub facing.1 = .error fault ∧
      isNear ⟨.number threshold, .number ratio⟩ level exp facing.1 facing.2 = .error fault) ∨
    ∃ d near, level.sub facing.1 = .ok d ∧
      isNear ⟨.number threshold, .number ratio⟩ level exp facing.1 facing.2 = .ok near ∧
      (near = true ↔ IsClose threshold ratio level exp facing) := by
  unfold isNear
  cases hoffset : level.sub facing.1 with
  | error fault => exact Or.inl ⟨fault, rfl, rfl⟩
  | ok d =>
    refine Or.inr ?_
    simp only [bind, Except.bind, Datum.holds, Number.holds]
    cases hfar : threshold.lt d.abs with
    | true =>
      refine ⟨d, false, rfl, rfl, iff_of_false Bool.false_ne_true fun h => ?_⟩
      obtain ⟨d', hd', hnear⟩ := h.levels
      obtain rfl := Except.ok.inj (hoffset.symm.trans hd')
      cases hfar.symm.trans hnear
    | false =>
      rw [if_neg Bool.false_ne_true]
      split
      · next e f hf =>
        obtain ⟨share, difference, hshare, hdifference⟩ :=
          exists_share_difference hratio (hexp e rfl) (hfacing f hf)
        have hproduct : (Datum.number ratio).mul (.number f.abs) = .ok (.number share) :=
          congrArg (Datum.number <$> ·) hshare
        refine ⟨d, difference.abs.le (Curve.usualTolerance.max share), rfl, ?_, ?_⟩
        · simp only [hproduct, Datum.max_number, hdifference]
        · exact (isClose_iff_of_exps hoffset hfar hf hshare hdifference).symm
      · next hnone =>
        refine ⟨d, true, rfl, rfl, iff_of_true rfl ⟨⟨d, hoffset, hfar⟩, fun e he f hf => ?_⟩⟩
        exact absurd hf (hnone e f he)

end Points

section Ends

variable {handle : Endpoint} {maxLevel : Int} {snap : Snap} {target : Target}

/-- The point that an end is dragged to. -/
def dragPoint (handle : Endpoint) (s : Span) (maxLevel : Datum) (snap : Snap) (target : Target)
    (hasExp : Bool) (facing : Option (Number × Option Number)) :
    Outcome (Number × Option Number) := do
  let room ← room handle s maxLevel
  moveBoundary snap target room.1 room.2 hasExp facing

theorem dragEnd_eq {α : Type} (s : Span) (maxLevel : Datum) (hasExp : Bool)
    (facing : Option (Number × Option Number)) (update : Number × Option Number → α) :
    dragEnd handle s maxLevel snap target hasExp facing update =
      update <$> dragPoint handle s maxLevel snap target hasExp facing := by
  unfold dragEnd dragPoint
  cases room handle s maxLevel with
  | error failure => rfl
  | ok room => cases moveBoundary snap target room.1 room.2 hasExp facing <;> rfl

theorem formulaEnd_eq (hend : handle.IsEnd) (earlier : List FormulaSegment) (x : FormulaSegment)
    (later : List FormulaSegment) :
    (formulaEnd handle earlier.getLast? x later.head?).1 =
        handle.facingPoint (earlier.map .formula) (later.map .formula) ∧
      ∀ p, Segment.formula ((formulaEnd handle earlier.getLast? x later.head?).2 p) =
        handle.withPoint (.formula x) p := by
  rcases hend with rfl | rfl
  · refine ⟨?_, fun p => rfl⟩
    rw [Endpoint.facingPoint, List.getLast?_map, Option.map_map]
    rfl
  · refine ⟨?_, fun p => rfl⟩
    rw [Endpoint.facingPoint, List.head?_map, Option.map_map]
    rfl

theorem bezierEnd_eq (hend : handle.IsEnd) (earlier : List BezierSegment) (x : BezierSegment)
    (later : List BezierSegment) :
    (bezierEnd handle earlier.getLast? x later.head?).1 =
        handle.facingPoint (earlier.map .bezier) (later.map .bezier) ∧
      ∀ p, Segment.bezier ((bezierEnd handle earlier.getLast? x later.head?).2 p) =
        handle.withPoint (.bezier x) p := by
  rcases hend with rfl | rfl
  · refine ⟨?_, fun p => rfl⟩
    rw [Endpoint.facingPoint, List.getLast?_map, Option.map_map]
    rfl
  · refine ⟨?_, fun p => rfl⟩
    rw [Endpoint.facingPoint, List.head?_map, Option.map_map]
    rfl

/-- The room of an end is the interval from its lowest to its highest level. -/
theorem room_eq (hend : handle.IsEnd) {s : Segment} (hs : (Spanned.span s).IsWhole) :
    room handle (Spanned.span s) (.int maxLevel) =
      if handle.highest s maxLevel < handle.lowest s then
        .error (Failure.range (handle.noRoom (Spanned.span s) maxLevel)).written
      else .ok (.int (handle.lowest s), .int (handle.highest s maxLevel)) := by
  rcases hend with rfl | rfl
  · exact startRoom_int hs.endLevel_eq
  · exact endRoom_int hs.startLevel_eq

/-- The level is one of those from the lower to the upper one. -/
def Inside (lower upper : Int) (level : Number) : Prop :=
  ∃ n : Int, level = .int n ∧ lower ≤ n ∧ n ≤ upper

/-- What the drag of a point comes to in an interval of levels: there is no level, which may be too
`long` to be said, the point cannot be compared with the neighbour's, it joins the neighbour's, or
it is the nearest one. -/
inductive PointDragged (long : Prop) (lower upper nearest : Int) (threshold ratio level : Number)
    (exp : Option Number) (neighbour : Option (Number × Option Number)) :
    Outcome (Number × Option Number) → Prop
  | noRoom {r : RangeError} (hempty : upper < lower) (hshort : ¬long) :
      PointDragged long lower upper nearest threshold ratio level exp neighbour (.error (.range r))
  | unsaid (hempty : upper < lower) (hlong : long) :
      PointDragged long lower upper nearest threshold ratio level exp neighbour
        (.error (.refused .tooLongInDigits))
  | incomparable {facing : Number × Option Number} {fault : Fault} (hroom : lower ≤ upper)
      (hfacing : facing ∈ neighbour) (hfault : level.sub facing.1 = .error fault) :
      PointDragged long lower upper nearest threshold ratio level exp neighbour
        (.error (.arithmetic fault))
  | joined {facing : Number × Option Number} (hroom : lower ≤ upper) (hfacing : facing ∈ neighbour)
      (hclose : IsClose threshold ratio level exp facing) (hinside : Inside lower upper facing.1) :
      PointDragged long lower upper nearest threshold ratio level exp neighbour (.ok facing)
  | placed (hroom : lower ≤ upper)
      (hapart : ∀ facing ∈ neighbour, (∃ d, level.sub facing.1 = .ok d) ∧
        ¬(IsClose threshold ratio level exp facing ∧ Inside lower upper facing.1)) :
      PointDragged long lower upper nearest threshold ratio level exp neighbour
        (.ok (.int (max lower (min upper nearest)), exp))

/-- The neighbours' points are whole levels, state requirements in range, and state them where the
dragged one does. -/
structure Comparable (hasExp : Bool) (facing : Number × Option Number) : Prop where
  whole : ∃ n : Int, facing.1 = .int n
  isSome_exp : facing.2.isSome = hasExp
  exp : ∀ f ∈ facing.2, ¬f.OutOfRange

/-- The requirement that is asked for, where requirements are stated. -/
def askedExp (hasExp : Bool) (exp : Number) : Option Number :=
  if hasExp then some ((Number.real 0).max exp) else none

theorem not_outOfRange_askedExp {hasExp : Bool} {exp : Number} (hexp : ¬exp.OutOfRange) :
    ∀ e ∈ askedExp hasExp exp, ¬e.OutOfRange := by
  intro e he
  unfold askedExp at he
  split at he
  · obtain rfl := Option.some.inj he
    unfold Number.max
    split
    · exact hexp
    · exact Number.not_outOfRange rfl
  · cases he

/-- A comparable point states a requirement of its own, or none is asked for. -/
theorem Comparable.orElse_askedExp {hasExp : Bool} {facing : Number × Option Number}
    (h : Comparable hasExp facing) (exp : Number) :
    (if hasExp then facing.2.orElse fun _ => askedExp hasExp exp else askedExp hasExp exp) =
      facing.2 := by
  have hsome := h.isSome_exp
  cases hasExp with
  | false => exact (Option.isNone_iff_eq_none.1 (Option.isSome_eq_false_iff.1 hsome)).symm
  | true =>
    obtain ⟨f, hf⟩ := Option.isSome_iff_exists.1 hsome
    rw [if_pos rfl, hf]
    rfl

theorem le_and_le_iff {lower upper : Int} {level : Number} (h : ∃ n : Int, level = .int n) :
    ((Number.int lower).le level && level.le (.int upper)) = true ↔ Inside lower upper level := by
  obtain ⟨n, rfl⟩ := h
  rw [Bool.and_eq_true, Number.le_int, Number.le_int, decide_eq_true_eq, decide_eq_true_eq]
  refine ⟨fun h => ⟨n, rfl, h⟩, fun ⟨m, hm, h⟩ => ?_⟩
  obtain rfl := Number.int.inj hm
  exact h

section Dragged

variable {threshold ratio level exp : Number} {x : Binary64} {hasExp : Bool}
  {neighbour : Option (Number × Option Number)}

/-- What a boundary comes to where there is room. -/
theorem pointDragged_of_room {long : Prop} {lower upper : Int} (hroom : lower ≤ upper)
    (hlevel : level.toBinary64 = .ok x) (hx : x.isFinite = true) (hexp : ¬exp.OutOfRange)
    (hratio : ¬ratio.OutOfRange) (hneighbour : ∀ facing ∈ neighbour, Comparable hasExp facing) :
    PointDragged long lower upper (x + decimal 5 1).toRat.floor threshold ratio level
      (askedExp hasExp exp) neighbour
      (moveBoundary ⟨.number threshold, .number ratio⟩ ⟨.number level, .number exp⟩ (.int lower)
        (.int upper) hasExp neighbour) := by
  rw [moveBoundary_of_toBinary64 hlevel hx]
  cases neighbour with
  | none => exact .placed hroom fun facing hfacing => nomatch hfacing
  | some facing =>
    have hcomparable := hneighbour facing rfl
    have hinside := @le_and_le_iff lower upper _ hcomparable.whole
    change PointDragged _ _ _ _ _ _ _ _ _ (liftM (isNear ⟨.number threshold, .number ratio⟩ level
      (askedExp hasExp exp) facing.1 facing.2) >>= _)
    rcases isNear_cases threshold level hratio (not_outOfRange_askedExp hexp) hcomparable.exp with
      ⟨fault, hfault, hnear⟩ | ⟨d, near, hd, hnear, hclose⟩
    · rw [hnear]
      exact .incomparable hroom rfl hfault
    · rw [hnear, Outcome.liftM_ok]
      change PointDragged _ _ _ _ _ _ _ _ _ (if _ then .ok (_, _) else .ok (_, _))
      rw [Bool.and_assoc]
      split
      · next hjoin =>
        obtain ⟨hnear, hin⟩ := Bool.and_eq_true_iff.1 hjoin
        rw [show (if hasExp = true then some ((Number.real 0).max exp) else none) =
          askedExp hasExp exp by rfl, hcomparable.orElse_askedExp]
        exact .joined hroom rfl (hclose.1 hnear) (hinside.1 hin)
      · next hjoin =>
        refine .placed hroom fun other hother => ?_
        obtain rfl := Option.some.inj hother
        refine ⟨⟨d, hd⟩, fun h => hjoin ?_⟩
        rw [hclose.2 h.1, hinside.2 h.2]
        rfl

theorem pointDragged (hend : handle.IsEnd) {s : Segment} (hs : (Spanned.span s).IsWhole)
    (hlevel : level.toBinary64 = .ok x) (hx : x.isFinite = true) (hexp : ¬exp.OutOfRange)
    (hratio : ¬ratio.OutOfRange) (hneighbour : ∀ facing ∈ neighbour, Comparable hasExp facing) :
    PointDragged (handle.StatesLong (Spanned.span s) maxLevel) (handle.lowest s)
      (handle.highest s maxLevel) (x + decimal 5 1).toRat.floor threshold ratio level
      (askedExp hasExp exp) neighbour
      (dragPoint handle (Spanned.span s) (.int maxLevel) ⟨.number threshold, .number ratio⟩
        ⟨.number level, .number exp⟩ hasExp neighbour) := by
  have hlong_iff := isLong_noRoom_iff hend (Spanned.span s) maxLevel
  unfold dragPoint
  rw [room_eq hend hs]
  by_cases hempty : handle.highest s maxLevel < handle.lowest s
  · rw [if_pos hempty]
    by_cases hlong : handle.StatesLong (Spanned.span s) maxLevel
    · rw [Failure.written_of_isLong (hlong_iff.2 hlong)]
      exact .unsaid hempty hlong
    · rw [Failure.written_of_not_isLong (mt hlong_iff.1 hlong)]
      exact .noRoom hempty hlong
  · rw [if_neg hempty]
    exact pointDragged_of_room (Int.not_lt.1 hempty) hlevel hx hexp hratio hneighbour

end Dragged

end Ends

end Editing

namespace Curve

variable {c : Curve} {id : Datum} {before after : List Segment} {s : Segment} {handle : Endpoint}

/-- A drag of an end puts the point it is dragged to at the end of the segment. -/
theorem Locates.drag_eq (h : c.Locates id before s after) (hend : handle.IsEnd) (target : Target)
    (maxLevel : Datum) (snap : Snap) :
    ∃ replace : Number × Option Number → Curve,
      (∀ p, c.Replaces before after (replace p) (handle.withPoint s p)) ∧
      c.drag id handle target maxLevel snap = replace <$> dragPoint handle (Spanned.span s)
        maxLevel snap target c.useBezier (handle.facingPoint before after) := by
  have hedit := drag_of_locates h handle target maxLevel snap
  generalize c.drag id handle target maxLevel snap = outcome at hedit
  cases hedit with
  | formula hmode earlier x later =>
    obtain ⟨hfacing, hupdate⟩ := formulaEnd_eq hend earlier x later
    refine ⟨fun p => { c with segments :=
      earlier ++ (formulaEnd handle earlier.getLast? x later.head?).2 p :: later }, fun p => ?_, ?_⟩
    · rw [← hupdate]
      exact replaces_formula hmode earlier _ later
    · rw [dragFormula_eq hend, dragEnd_eq, hfacing, hmode, Functor.map_map]
      rfl
  | bezier hmode earlier x later =>
    obtain ⟨hfacing, hupdate⟩ := bezierEnd_eq hend earlier x later
    refine ⟨fun p => { c with bezierSegments :=
      earlier ++ (bezierEnd handle earlier.getLast? x later.head?).2 p :: later }, fun p => ?_, ?_⟩
    · rw [← hupdate]
      exact replaces_bezier hmode earlier _ later
    · rw [dragBezier_eq hend, dragEnd_eq, hfacing, hmode, Functor.map_map]
      rfl

/-- The requirements that active segments state are in the range of binary numbers. -/
def StatesInRange (c : Curve) : Prop :=
  ∀ b, .bezier b ∈ c.active → ¬b.startExp.OutOfRange ∧ ¬b.endExp.OutOfRange

theorem statesInRange_of_formula (hmode : c.useBezier = false) : c.StatesInRange := by
  intro b hb
  rw [active_eq_formula hmode] at hb
  obtain ⟨x, -, hx⟩ := List.mem_map.1 hb
  cases hx

/-- The point that an end can join belongs to an active segment. -/
theorem Locates.exists_facing (h : c.Locates id before s after) {facing : Number × Option Number}
    (hfacing : facing ∈ handle.facingPoint before after) :
    ∃ t ∈ c.active, facing = t.startPoint ∨ facing = t.endPoint := by
  rw [h.active_eq]
  cases handle with
  | start =>
    obtain ⟨t, ht, rfl⟩ := Option.mem_map.1 hfacing
    exact ⟨t, List.mem_append_left _ (List.mem_of_getLast? ht), Or.inr rfl⟩
  | finish =>
    obtain ⟨t, ht, rfl⟩ := Option.mem_map.1 hfacing
    exact ⟨t, List.mem_append_right _ (List.mem_cons_of_mem _ (List.mem_of_mem_head? ht)),
      Or.inl rfl⟩
  | control1 | control2 => cases hfacing

theorem StatesInRange.comparable {t : Segment} (hexps : c.StatesInRange) (ht : t ∈ c.active)
    (hwhole : (Spanned.span t).IsWhole) :
    Comparable c.useBezier t.startPoint ∧ Comparable c.useBezier t.endPoint := by
  obtain ⟨k, l, hk, hl⟩ := hwhole
  cases hmode : c.useBezier with
  | false =>
    rw [active_eq_formula hmode] at ht
    obtain ⟨x, -, rfl⟩ := List.mem_map.1 ht
    exact ⟨⟨⟨k, hk⟩, rfl, fun f hf => nomatch hf⟩, ⟨l, hl⟩, rfl, fun f hf => nomatch hf⟩
  | true =>
    have hmem := ht
    rw [active_eq_bezier hmode] at ht
    obtain ⟨x, -, rfl⟩ := List.mem_map.1 ht
    obtain ⟨hstart, hend⟩ := hexps x hmem
    refine ⟨⟨⟨k, hk⟩, rfl, fun f hf => ?_⟩, ⟨l, hl⟩, rfl, fun f hf => ?_⟩
    · obtain rfl := Option.some.inj hf
      exact hstart
    · obtain rfl := Option.some.inj hf
      exact hend

/-- An end at the neighbour's point joins the neighbour. -/
theorem joins_withPoint (s : Segment) {facing : Number × Option Number}
    (hfacing : facing ∈ handle.facingPoint before after) :
    ∃ previous next, handle.neighbours before (handle.withPoint s facing) after =
      some (previous, next) ∧ previous.Joins next := by
  cases handle with
  | start =>
    obtain ⟨p, hp, rfl⟩ := Option.mem_map.1 hfacing
    refine ⟨p, s.withStart p.endPoint, congrArg (Option.map (·, _)) hp, ?_, ?_⟩
    · cases p <;> cases s <;> rfl
    · rintro b n rfl hn
      cases s with
      | formula x => cases hn
      | bezier x =>
        obtain rfl := Segment.bezier.inj hn
        rfl
  | finish =>
    obtain ⟨n, hn, rfl⟩ := Option.mem_map.1 hfacing
    refine ⟨s.withEnd n.startPoint, n, congrArg (Option.map (_, ·)) hn, ?_, ?_⟩
    · cases n <;> cases s <;> rfl
    · rintro b n hb rfl
      cases s with
      | formula x => cases hb
      | bezier x =>
        obtain rfl := Segment.bezier.inj hb
        rfl
  | control1 | control2 => cases hfacing

/-- A dragged boundary: it is refused just if there are no levels for it, as long as that can be
said, it cannot be compared with a neighbour if there is no difference of their levels, it joins a
neighbour that it is close to, and else it goes to the nearest of its levels. Nothing else
changes. -/
structure DragsBoundary (c : Curve) (before : List Segment) (s : Segment) (after : List Segment)
    (handle : Endpoint) (long : Prop) (lower upper nearest : Int) (threshold ratio level : Number)
    (exp : Option Number) (outcome : Outcome Curve) : Prop where
  refused_iff : (∃ r, outcome = .error (.range r)) ↔ upper < lower ∧ ¬long
  unsaid_iff : outcome = .error (.refused .tooLongInDigits) ↔ upper < lower ∧ long
  fails : ∀ facing ∈ handle.facingPoint before after, ∀ fault, lower ≤ upper →
    level.sub facing.1 = .error fault → outcome = .error (.arithmetic fault)
  joins : ∀ facing ∈ handle.facingPoint before after, IsClose threshold ratio level exp facing →
    Inside lower upper facing.1 →
    (∃ c', outcome = .ok c' ∧ c.Replaces before after c' (handle.withPoint s facing)) ∧
      ∃ previous next, handle.neighbours before (handle.withPoint s facing) after =
          some (previous, next) ∧
        ∀ tolerance, (Number.int 0).le tolerance = true →
          issuesAlong (.number tolerance) [previous, next] = .ok []
  places : lower ≤ upper →
    (∀ facing ∈ handle.facingPoint before after, (∃ d, level.sub facing.1 = .ok d) ∧
      ¬(IsClose threshold ratio level exp facing ∧ Inside lower upper facing.1)) →
    ∃ c', outcome = .ok c' ∧ c.Replaces before after c'
      (handle.withPoint s (.int (max lower (min upper nearest)), exp))
  stays : ∀ c', outcome = .ok c' → ∃ s', c.Replaces before after c' s' ∧
    Inside lower upper (handle.levelOf s')

section Dragged

variable {long : Prop} {lower upper nearest : Int} {threshold ratio level : Number}
  {exp : Option Number}

theorem issuesAlong_of_joins {previous next : Segment} {tolerance : Number}
    (h : previous.Joins next) (htolerance : (Number.int 0).le tolerance = true) :
    issuesAlong (.number tolerance) [previous, next] = .ok [] := by
  have halong : issuesAlong (.number tolerance) ([previous] ++ [next]) = _ :=
    issuesAlong_append_of_joins rfl h htolerance
  exact halong

theorem levelOf_withPoint (hend : handle.IsEnd) (s : Segment) (p : Number × Option Number) :
    handle.levelOf (handle.withPoint s p) = p.1 := by
  rcases hend with rfl | rfl <;> cases s <;> rfl

/-- The point that an end is dragged to decides what the drag comes to. -/
theorem dragsBoundary_of_point {point : Outcome (Number × Option Number)}
    {replace : Number × Option Number → Curve} (hend : handle.IsEnd)
    (hpoint : PointDragged long lower upper nearest threshold ratio level exp
      (handle.facingPoint before after) point)
    (hreplace : ∀ p, c.Replaces before after (replace p) (handle.withPoint s p)) :
    c.DragsBoundary before s after handle long lower upper nearest threshold ratio level exp
      (replace <$> point) where
  refused_iff := by
    cases hpoint with
    | noRoom hempty hshort => exact iff_of_true ⟨_, rfl⟩ ⟨hempty, hshort⟩
    | unsaid _ hlong => exact iff_of_false (fun ⟨r, hr⟩ => nomatch hr) fun h => h.2 hlong
    | incomparable hroom | joined hroom | placed hroom =>
      exact iff_of_false (fun ⟨r, hr⟩ => nomatch hr) fun h => Int.not_lt.2 hroom h.1
  unsaid_iff := by
    cases hpoint with
    | noRoom _ hshort => exact iff_of_false (fun h => nomatch h) fun h => hshort h.2
    | unsaid hempty hlong => exact iff_of_true rfl ⟨hempty, hlong⟩
    | incomparable hroom | joined hroom | placed hroom =>
      exact iff_of_false (fun h => nomatch h) fun h => Int.not_lt.2 hroom h.1
  fails facing hfacing fault hroom hfault := by
    cases hpoint with
    | noRoom hempty | unsaid hempty => exact absurd hempty (Int.not_lt.2 hroom)
    | incomparable _ hother hfault' =>
      obtain rfl := Option.mem_unique hfacing hother
      obtain rfl := Except.error.inj (hfault.symm.trans hfault')
      rfl
    | joined _ hother hclose =>
      obtain rfl := Option.mem_unique hfacing hother
      obtain ⟨d, hd, -⟩ := hclose.levels
      cases hfault.symm.trans hd
    | placed _ hapart =>
      obtain ⟨⟨d, hd⟩, -⟩ := hapart facing hfacing
      cases hfault.symm.trans hd
  joins facing hfacing hclose hinside := by
    obtain ⟨previous, next, hneighbours, hjoins⟩ := joins_withPoint s hfacing
    refine ⟨?_, previous, next, hneighbours, fun _ => issuesAlong_of_joins hjoins⟩
    cases hpoint with
    | noRoom hempty | unsaid hempty =>
      obtain ⟨n, -, hlower, hupper⟩ := hinside
      exact absurd hempty (Int.not_lt.2 (hlower.trans hupper))
    | incomparable _ hother hfault =>
      obtain rfl := Option.mem_unique hfacing hother
      obtain ⟨d, hd, -⟩ := hclose.levels
      cases hfault.symm.trans hd
    | joined _ hother =>
      obtain rfl := Option.mem_unique hfacing hother
      exact ⟨_, rfl, hreplace _⟩
    | placed _ hapart => exact absurd ⟨hclose, hinside⟩ (hapart facing hfacing).2
  places hroom hapart := by
    cases hpoint with
    | noRoom hempty | unsaid hempty => exact absurd hempty (Int.not_lt.2 hroom)
    | incomparable _ hfacing hfault =>
      obtain ⟨⟨d, hd⟩, -⟩ := hapart _ hfacing
      cases hfault.symm.trans hd
    | joined _ hfacing hclose hinside => exact absurd ⟨hclose, hinside⟩ (hapart _ hfacing).2
    | placed => exact ⟨_, rfl, hreplace _⟩
  stays c' hmoved := by
    cases hpoint with
    | noRoom | unsaid | incomparable => cases hmoved
    | joined _ hfacing _ hinside =>
      obtain rfl := Except.ok.inj hmoved
      exact ⟨_, hreplace _, by rwa [levelOf_withPoint hend]⟩
    | placed hroom =>
      obtain rfl := Except.ok.inj hmoved
      refine ⟨_, hreplace _, max lower (min upper nearest), levelOf_withPoint hend s _,
        le_max_left _ _, max_le hroom (min_le_left _ _)⟩

section Located

variable {maxLevel : Int} {asked : Number} {x : Binary64}

theorem Locates.dragsBoundary (h : c.Locates id before s after) (hend : handle.IsEnd)
    (hwhole : ∀ t ∈ c.active, (Spanned.span t).IsWhole)
    (hexps : c.StatesInRange) (hlevel : level.toBinary64 = .ok x) (hx : x.isFinite = true)
    (hasked : ¬asked.OutOfRange) (hratio : ¬ratio.OutOfRange) :
    c.DragsBoundary before s after handle (handle.StatesLong (Spanned.span s) maxLevel)
      (handle.lowest s) (handle.highest s maxLevel) (x + decimal 5 1).toRat.floor threshold ratio
      level (askedExp c.useBezier asked)
      (c.drag id handle ⟨.number level, .number asked⟩ (.int maxLevel)
        ⟨.number threshold, .number ratio⟩) := by
  have hs : (Spanned.span s).IsWhole :=
    hwhole s (h.active_eq ▸ List.mem_append_right _ List.mem_cons_self)
  have hneighbour : ∀ facing ∈ handle.facingPoint before after, Comparable c.useBezier facing := by
    intro facing hfacing
    obtain ⟨t, ht, hpoint⟩ := h.exists_facing hfacing
    obtain ⟨hstart, hfinish⟩ := hexps.comparable ht (hwhole t ht)
    rcases hpoint with rfl | rfl
    · exact hstart
    · exact hfinish
  obtain ⟨replace, hreplace, hdrag⟩ := h.drag_eq hend ⟨.number level, .number asked⟩
    (.int maxLevel) ⟨.number threshold, .number ratio⟩
  rw [hdrag]
  exact dragsBoundary_of_point hend (pointDragged hend hs hlevel hx hasked hratio hneighbour)
    hreplace

/-- A drag of an end in a curve of whole levels. The level asked for is rounded with a half added to
it, which is to the nearest level as long as binary numbers can state halves, but for the greatest
of them below a half. A level that is exactly within the threshold of another counts as close. -/
theorem drag_boundary (h : c.Locates id before s after) (hend : handle.IsEnd)
    (hwhole : ∀ t ∈ c.active, (Spanned.span t).IsWhole)
    (hexps : c.StatesInRange) (hlevel : level.toBinary64 = .ok x) (hx : x.isFinite = true)
    (hasked : ¬asked.OutOfRange) (hratio : ¬ratio.OutOfRange) :
    ∃ nearest : Int,
      c.DragsBoundary before s after handle (handle.StatesLong (Spanned.span s) maxLevel)
        (handle.lowest s) (handle.highest s maxLevel) nearest threshold ratio level
        (askedExp c.useBezier asked)
        (c.drag id handle ⟨.number level, .number asked⟩ (.int maxLevel)
          ⟨.number threshold, .number ratio⟩) ∧
      nearest = (x + decimal 5 1).toRat.floor ∧
      (|x.toRat| < 2 ^ 52 → x ≠ Binary64.belowHalf → nearest = (x.toRat + 1 / 2).floor) ∧
      ∀ n : Int, level = .real x → IsWithin threshold x n →
        ∃ d, level.sub (.int n) = .ok d ∧ threshold.lt d.abs = false := by
  refine ⟨_, h.dragsBoundary hend hwhole hexps hlevel hx hasked hratio, rfl,
    Binary64.floor_add_half hx, ?_⟩
  rintro n rfl hwithin
  exact hwithin.exists_sub hx

end Located

end Dragged

theorem drag_boundary_usual :
    let level : Number := .real (decimal 155 1)
    let asked : Number := .real (-decimal 3 0)
    let ratio : Number := .real (decimal 5 2)
    let c := usual.withMode true
    let first : Segment := .bezier ⟨⟨"1", .int 1, .int 10⟩, .int 100, .int 1500, .usual1, .usual2⟩
    let second : Segment :=
      .bezier ⟨⟨"2", .int 10, .int 20⟩, .int 1500, .int 10000, .usual1, .usual2⟩
    (c.Locates (.text "1") [] first [second] ∧ Endpoint.finish.IsEnd ∧
      (∀ t ∈ c.active, (Spanned.span t).IsWhole) ∧
      c.StatesInRange ∧ level.toBinary64 = .ok (decimal 155 1) ∧ (decimal 155 1).isFinite = true ∧
      ¬asked.OutOfRange ∧ ¬ratio.OutOfRange) ∧
    ∃ c', c.drag (.text "1") .finish ⟨.number level, .number asked⟩ (.int 100)
        ⟨.int 1, .number ratio⟩ = .ok c' ∧
      c'.active = [.bezier ⟨⟨"1", .int 1, .int 16⟩, .int 100, .real 0, .usual1, .usual2⟩,
        second] := by
  intro level asked ratio c first second
  have hlocates : c.Locates (.text "1") [] first [second] := ⟨rfl, rfl, fun t ht => nomatch ht⟩
  have hwhole : ∀ t ∈ c.active, (Spanned.span t).IsWhole := by
    rw [hlocates.active_eq]
    exact List.forall_mem_cons.2 ⟨⟨1, 10, rfl, rfl⟩, List.forall_mem_singleton.2 ⟨10, 20, rfl, rfl⟩⟩
  have hint (n : Int) (hn : (Number.int n).toBinary64 = .ok (.ofInt n)) :
      ¬(Number.int n).OutOfRange := Number.not_outOfRange hn
  have hexps : c.StatesInRange := by
    intro b hb
    rw [hlocates.active_eq] at hb
    rcases List.mem_pair.1 hb with hb | hb
    · obtain rfl := Segment.bezier.inj hb
      exact ⟨hint 100 (by decide +kernel), hint 1500 (by decide +kernel)⟩
    · obtain rfl := Segment.bezier.inj hb
      exact ⟨hint 1500 (by decide +kernel), hint 10000 (by decide +kernel)⟩
  have hfinite : (decimal 155 1).isFinite = true := by decide +kernel
  have hasked : ¬asked.OutOfRange := Number.not_outOfRange rfl
  have hratio : ¬ratio.OutOfRange := Number.not_outOfRange rfl
  refine ⟨⟨hlocates, Or.inr rfl, hwhole, hexps, rfl, hfinite, hasked, hratio⟩, ?_⟩
  obtain ⟨nearest, hdragged, hnearest, -⟩ :=
    @drag_boundary c (.text "1") [] [second] first .finish (.int 1) ratio level 100 asked _
      hlocates (Or.inr rfl) hwhole hexps rfl hfinite hasked hratio
  have hoffset : level.sub (.int 10) = .ok (.real (decimal 55 1)) := by decide +kernel
  have hfar : (Number.int 1).lt (Number.real (decimal 55 1)).abs = true := by decide +kernel
  obtain ⟨c', hok, hreplaces⟩ := hdragged.places (by decide) fun facing hfacing => by
    obtain rfl := Option.some.inj hfacing
    refine ⟨⟨_, hoffset⟩, fun ⟨hclose, _⟩ => ?_⟩
    obtain ⟨d, hd, hnear⟩ := hclose.levels
    obtain rfl := Except.ok.inj (hoffset.symm.trans hd)
    cases hfar.symm.trans hnear
  have hrounded : nearest = 16 := hnearest.trans (by decide +kernel)
  have hexp : askedExp c.useBezier asked = some (.real 0) := congrArg some (by decide +kernel)
  refine ⟨c', hok, hreplaces.active_eq.trans ?_⟩
  rw [hrounded, hexp]
  rfl

/-- A neighbour far away, which no boundary can join, lets a drag fail. From `2 ^ 52` on, a whole
level can be rounded to the next one. -/
theorem far_neighbour_not_compared :
    let first : FormulaSegment := ⟨⟨"1", .int 1, .int 10⟩, "100"⟩
    let far : FormulaSegment := ⟨⟨"2", .int (10 ^ 400), .int (10 ^ 400 + 10)⟩, "100"⟩
    let zero : Datum := .number (.real 0)
    (Curve.mk [first, far] [] false none).drag (.text "1") .finish
        ⟨.number (.real (decimal 15 0)), zero⟩ (.int 100) usualSnap =
      .error (.arithmetic .integerTooLarge) ∧
    (∃ c, (Curve.mk [first] [] false none).drag (.text "1") .finish
        ⟨.number (.real (decimal 4503599627370497 0)), zero⟩ (.int (2 ^ 53)) usualSnap = .ok c ∧
      c.active = [.formula { first with endLevel := .int 4503599627370498 }]) ∧
    ((decimal 4503599627370497 0).toRat + 1 / 2).floor = 4503599627370497 := by
  intro first far zero
  have hratio : ¬(Number.real (decimal 5 2)).OutOfRange := Number.not_outOfRange rfl
  have hzero : ¬(Number.real 0).OutOfRange := Number.not_outOfRange rfl
  refine ⟨?_, ?_, by decide +kernel⟩
  · have hlocates : (Curve.mk [first, far] [] false none).Locates (.text "1") [] (.formula first)
        [.formula far] := ⟨rfl, rfl, fun t ht => nomatch ht⟩
    have hwhole : ∀ t ∈ (Curve.mk [first, far] [] false none).active, (Spanned.span t).IsWhole :=
      List.forall_mem_cons.2 ⟨⟨1, 10, rfl, rfl⟩, List.forall_mem_singleton.2 ⟨_, _, rfl, rfl⟩⟩
    have hdragged := @Locates.dragsBoundary _ _ _ _ _ _ (.int 1) _ (.real (decimal 15 0)) 100 _ _
      hlocates (Or.inr rfl) hwhole (statesInRange_of_formula rfl) rfl (by decide +kernel) hzero
      hratio
    exact hdragged.fails _ rfl _ (by decide) (by decide +kernel)
  · have hlocates : (Curve.mk [first] [] false none).Locates (.text "1") [] (.formula first) [] :=
      ⟨rfl, rfl, fun t ht => nomatch ht⟩
    have hwhole : ∀ t ∈ (Curve.mk [first] [] false none).active, (Spanned.span t).IsWhole :=
      List.forall_mem_singleton.2 ⟨1, 10, rfl, rfl⟩
    have hdragged := @Locates.dragsBoundary _ _ _ _ _ _ (.int 1) _
      (.real (decimal 4503599627370497 0)) (2 ^ 53) _ _ hlocates (Or.inr rfl) hwhole
      (statesInRange_of_formula rfl) rfl (by decide +kernel) hzero hratio
    obtain ⟨c, hok, hreplaces⟩ := hdragged.places (by decide) fun facing hfacing => nomatch hfacing
    have hrounded : (decimal 4503599627370497 0 + decimal 5 1).toRat.floor = 4503599627370498 := by
      decide +kernel
    refine ⟨c, hok, hreplaces.active_eq.trans ?_⟩
    rw [hrounded]
    rfl

end Curve

end ExperienceCurves
