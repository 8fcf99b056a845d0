import ExperienceCurves.Proofs.Ranges

/-!
Dragged boundaries. A boundary moves within the room its segment has, and joins a neighbour only
inside it, so a dragged segment stays between level one and the maximum.
-/
namespace ExperienceCurves.Editing

theorem clamp_int (low high n : Int) :
    CubicBezier.clamp (.int low) (.int high) (.int n) = .int (max low (min high n)) := by
  rw [CubicBezier.clamp, Number.min_int, Number.max_int]

variable {s : Span} {a b maxLevel : Int}

theorem startRoom_int (hend : s.endLevel = .int b) :
    startRoom s (.int maxLevel) =
      if min b maxLevel - 1 < 1 then
        .error (Failure.range ⟨.noRoomForStart, s.startLevel, s.endLevel⟩).written
      else .ok (.int 1, .int (min b maxLevel - 1)) := by
  simp only [startRoom, hend, Datum.number_int, Datum.min_int, Datum.less_int, Number.one_eq,
    Outcome.liftM_ok, bind, Except.bind, Number.lt_int, decide_eq_true_eq]
  rfl

theorem endRoom_int (hstart : s.startLevel = .int a) :
    endRoom s (.int maxLevel) =
      if maxLevel < a + 1 then
        .error (Failure.range ⟨.noRoomForEnd (.int maxLevel), s.startLevel, s.endLevel⟩).written
      else .ok (.int (a + 1), .int maxLevel) := by
  simp only [endRoom, hstart, Number.one_eq, Number.add_int, Datum.number_int,
    Datum.holds_above_int, Outcome.liftM_ok, bind, Except.bind, decide_eq_true_eq]
  rfl

/-- A moved boundary stays where it is or joins its neighbour, if that is in the room. -/
theorem settle_cases {snap : Snap} {raw lower upper moved : Number} {limited : Option Number}
    {hasExp : Bool} {neighbour : Option (Number × Option Number)} {level : Number}
    {exp : Option Number}
    (h : (match neighbour with
      | none => pure (moved, limited)
      | some (facingLevel, facingExp) => do
          if (← isNear snap raw limited facingLevel facingExp) && lower.le facingLevel &&
              facingLevel.le upper then
            return (facingLevel, if hasExp then facingExp.orElse fun _ => limited else limited)
          else return (moved, limited) : Outcome (Number × Option Number)) = .ok (level, exp)) :
    (level = moved ∧ exp = limited) ∨
      ∃ facing ∈ neighbour, lower.le facing.1 = true ∧ facing.1.le upper = true ∧
        level = facing.1 ∧ exp = if hasExp then facing.2.orElse fun _ => limited else limited := by
  cases neighbour with
  | none =>
    obtain ⟨rfl, rfl⟩ := Prod.mk.inj (Except.ok.inj h)
    exact Or.inl ⟨rfl, rfl⟩
  | some facing =>
    obtain ⟨near, -, h⟩ := Outcome.bind_eq_ok_iff.1 h
    split at h
    · next hjoin =>
      simp only [Bool.and_eq_true] at hjoin
      obtain ⟨rfl, rfl⟩ := Prod.mk.inj (Except.ok.inj h)
      exact Or.inr ⟨facing, rfl, hjoin.1.2, hjoin.2, rfl, rfl⟩
    · obtain ⟨rfl, rfl⟩ := Prod.mk.inj (Except.ok.inj h)
      exact Or.inl ⟨rfl, rfl⟩

/-- Where a boundary can move: to the nearest level in its room with the requirement that is asked
for, or onto its neighbour's level, if that is in the room, with the requirement there. -/
theorem moveBoundary_cases {snap : Snap} {target : Target} {lower upper : Number} {hasExp : Bool}
    {neighbour : Option (Number × Option Number)} {level : Number} {exp : Option Number}
    (h : moveBoundary snap target lower upper hasExp neighbour = .ok (level, exp)) :
    ∃ (nearest moved : Int) (limited : Option Number),
      (CubicBezier.clamp lower upper (.int nearest)).truncate = .ok moved ∧
      (if hasExp then ∃ e, target.exp.toNumber = .ok e ∧ limited = some ((Number.real 0).max e)
        else limited = none) ∧
      ((level = .int moved ∧ exp = limited) ∨
        ∃ facing ∈ neighbour, lower.le facing.1 = true ∧ facing.1.le upper = true ∧
          level = facing.1 ∧ exp = if hasExp then facing.2.orElse fun _ => limited else limited) := by
  obtain ⟨raw, -, h⟩ := Outcome.bind_eq_ok_iff.1 h
  obtain ⟨nearest, -, h⟩ := Outcome.bind_eq_ok_iff.1 h
  obtain ⟨moved, hmoved, h⟩ := Outcome.bind_eq_ok_iff.1 h
  refine ⟨nearest, moved, ?_⟩
  cases hasExp with
  | false => exact ⟨none, Outcome.liftM_eq_ok_iff.1 hmoved, rfl, settle_cases h⟩
  | true =>
    obtain ⟨e, he, h⟩ := Outcome.bind_eq_ok_iff.1 h
    exact ⟨_, Outcome.liftM_eq_ok_iff.1 hmoved, ⟨e, he, rfl⟩, settle_cases h⟩

/-- Within whole bounds, and beside a whole neighbour, a boundary moves to a whole level. -/
theorem moveBoundary_whole {snap : Snap} {target : Target} {lower upper : Int} {hasExp : Bool}
    {neighbour : Option (Number × Option Number)} {level : Number} {exp : Option Number}
    (hroom : lower ≤ upper) (hneighbour : ∀ facing ∈ neighbour, ∃ n : Int, facing.1 = .int n)
    (h : moveBoundary snap target (.int lower) (.int upper) hasExp neighbour = .ok (level, exp)) :
    ∃ n : Int, level = .int n ∧ lower ≤ n ∧ n ≤ upper := by
  obtain ⟨nearest, moved, limited, hmoved, -, hchoice⟩ := moveBoundary_cases h
  rcases hchoice with ⟨rfl, -⟩ | ⟨facing, hfacing, hlow, hhigh, rfl, -⟩
  · rw [clamp_int, Number.truncate_int] at hmoved
    have hclamped := Except.ok.inj hmoved
    exact ⟨moved, rfl, by omega, by omega⟩
  · obtain ⟨n, hn⟩ := hneighbour facing hfacing
    rw [hn, Number.le_int, decide_eq_true_eq] at hlow hhigh
    exact ⟨n, hn, hlow, hhigh⟩

/-- The requirement at a dragged end: what it was, the one that is asked for if it is not negative,
or the one at the end it joined. -/
def DraggedExp (target : Target) (facing : Option Number) (old new : Number) : Prop :=
  new = old ∨ (∃ e, target.exp.toNumber = .ok e ∧ new = (Number.real 0).max e) ∨ new ∈ facing

theorem moveBoundary_exp (old : Number) (neighbour : Option (Number × Number)) {snap : Snap}
    {target : Target} {lower upper level : Number} {exp : Option Number}
    (h : moveBoundary snap target lower upper true
      (neighbour.map fun n => (n.1, some n.2)) = .ok (level, exp)) :
    DraggedExp target (neighbour.map Prod.snd) old (exp.getD old) := by
  obtain ⟨nearest, moved, limited, -, ⟨e, he, rfl⟩, hchoice⟩ := moveBoundary_cases h
  rcases hchoice with ⟨-, rfl⟩ | ⟨facing, hfacing, -, -, -, rfl⟩
  · exact Or.inr (Or.inl ⟨e, he, rfl⟩)
  · obtain ⟨n, rfl, rfl⟩ := Option.map_eq_some_iff.1 hfacing
    exact Or.inr (Or.inr rfl)

/-- A dragged start stays below the end of its segment. -/
theorem dragStart_within {snap : Snap} {target : Target} {bound : Int} {room : Number × Number}
    {hasExp : Bool} {neighbour : Option (Number × Option Number)} {level : Number}
    {exp : Option Number} (hs : s.Within maxLevel)
    (hroom : startRoom s (.int bound) = .ok room)
    (hneighbour : ∀ facing ∈ neighbour, ∃ n : Int, facing.1 = .int n)
    (h : moveBoundary snap target room.1 room.2 hasExp neighbour = .ok (level, exp)) :
    ({ s with startLevel := level } : Span).Within maxLevel := by
  obtain ⟨a, b, -, hend, -, -, hmax⟩ := hs
  rw [startRoom_int hend] at hroom
  split at hroom
  · cases hroom
  · next hempty =>
    obtain rfl := Except.ok.inj hroom
    obtain ⟨n, rfl, hone, hhigh⟩ := moveBoundary_whole (by omega) hneighbour h
    exact ⟨n, b, rfl, hend, hone, by omega, hmax⟩

/-- A dragged end stays above the start of its segment. -/
theorem dragEnd_within {snap : Snap} {target : Target} {bound : Int} {room : Number × Number}
    {hasExp : Bool} {neighbour : Option (Number × Option Number)} {level : Number}
    {exp : Option Number} (hs : s.Within maxLevel) (hbound : bound ≤ maxLevel)
    (hroom : endRoom s (.int bound) = .ok room)
    (hneighbour : ∀ facing ∈ neighbour, ∃ n : Int, facing.1 = .int n)
    (h : moveBoundary snap target room.1 room.2 hasExp neighbour = .ok (level, exp)) :
    ({ s with endLevel := level } : Span).Within maxLevel := by
  obtain ⟨a, b, hstart, -, hone, -, -⟩ := hs
  rw [endRoom_int hstart] at hroom
  split at hroom
  · cases hroom
  · next hempty =>
    obtain rfl := Except.ok.inj hroom
    obtain ⟨n, rfl, hlow, hhigh⟩ := moveBoundary_whole (by omega) hneighbour h
    exact ⟨a, n, hstart, rfl, hone, by omega, by omega⟩

/-- The ends of a neighbour are whole levels. -/
theorem facing_whole {β : Type} (exp : β → Option Number) {neighbour : Option β} {span : β → Span}
    {level : Span → Number} (hlevel : ∀ s : Span, s.IsWhole → ∃ n : Int, level s = .int n)
    (hwhole : ∀ p ∈ neighbour, (span p).IsWhole) :
    ∀ facing ∈ neighbour.map fun p => (level (span p), exp p), ∃ n : Int, facing.1 = .int n := by
  intro facing hfacing
  obtain ⟨p, hp, rfl⟩ := Option.map_eq_some_iff.1 hfacing
  exact hlevel (span p) (hwhole p hp)

theorem exists_startLevel (s : Span) (h : s.IsWhole) : ∃ n : Int, s.startLevel = .int n := by
  obtain ⟨a, -, hstart, -⟩ := h
  exact ⟨a, hstart⟩

theorem exists_endLevel (s : Span) (h : s.IsWhole) : ∃ n : Int, s.endLevel = .int n := by
  obtain ⟨-, b, -, hend⟩ := h
  exact ⟨b, hend⟩

section Drags

variable {endpoint : Endpoint} {target : Target} {bound : Int} {snap : Snap}

/-- A drag of a formula segment moves one of its levels. -/
theorem dragFormula_spec {previous following : Option FormulaSegment} {old new : FormulaSegment}
    (hold : old.toSpan.Within maxLevel) (hbound : bound ≤ maxLevel)
    (hprevious : ∀ p ∈ previous, p.toSpan.IsWhole) (hfollowing : ∀ f ∈ following, f.toSpan.IsWhole)
    (h : dragFormula endpoint target (.int bound) snap previous old following = .ok new) :
    new.toSpan.Within maxLevel ∧ new.id = old.id ∧ new.formula = old.formula := by
  cases endpoint with
  | start =>
    obtain ⟨room, hroom, h⟩ := Outcome.bind_eq_ok_iff.1 h
    obtain ⟨⟨level, exp⟩, hmoved, h⟩ := Outcome.bind_eq_ok_iff.1 h
    obtain rfl := Except.ok.inj h
    have hfacing := facing_whole (fun _ => none) exists_endLevel hprevious
    exact ⟨dragStart_within hold hroom hfacing hmoved, rfl, rfl⟩
  | finish =>
    obtain ⟨room, hroom, h⟩ := Outcome.bind_eq_ok_iff.1 h
    obtain ⟨⟨level, exp⟩, hmoved, h⟩ := Outcome.bind_eq_ok_iff.1 h
    obtain rfl := Except.ok.inj h
    have hfacing := facing_whole (fun _ => none) exists_startLevel hfollowing
    exact ⟨dragEnd_within hold hbound hroom hfacing hmoved, rfl, rfl⟩
  | control1 => cases h
  | control2 => cases h

/-- A drag of a Bezier segment moves one of its ends or one of its control points. -/
theorem dragBezier_spec {previous following : Option BezierSegment} {old new : BezierSegment}
    (hold : old.toSpan.Within maxLevel) (hbound : bound ≤ maxLevel)
    (hprevious : ∀ p ∈ previous, p.toSpan.IsWhole) (hfollowing : ∀ f ∈ following, f.toSpan.IsWhole)
    (h : dragBezier endpoint target (.int bound) snap previous old following = .ok new) :
    new.toSpan.Within maxLevel ∧ new.id = old.id ∧
      DraggedExp target (previous.map (·.endExp)) old.startExp new.startExp ∧
      DraggedExp target (following.map (·.startExp)) old.endExp new.endExp := by
  cases endpoint with
  | start =>
    obtain ⟨room, hroom, h⟩ := Outcome.bind_eq_ok_iff.1 h
    obtain ⟨⟨level, exp⟩, hmoved, h⟩ := Outcome.bind_eq_ok_iff.1 h
    obtain rfl := Except.ok.inj h
    have hfacing := facing_whole (fun p : BezierSegment => some p.endExp) exists_endLevel
      hprevious
    refine ⟨dragStart_within hold hroom hfacing hmoved, rfl, ?_, Or.inl rfl⟩
    have hexp := moveBoundary_exp old.startExp
      (previous.map fun p => (p.endLevel, p.endExp)) (by rwa [Option.map_map])
    rwa [Option.map_map] at hexp
  | finish =>
    obtain ⟨room, hroom, h⟩ := Outcome.bind_eq_ok_iff.1 h
    obtain ⟨⟨level, exp⟩, hmoved, h⟩ := Outcome.bind_eq_ok_iff.1 h
    obtain rfl := Except.ok.inj h
    have hfacing := facing_whole (fun f : BezierSegment => some f.startExp) exists_startLevel
      hfollowing
    refine ⟨dragEnd_within hold hbound hroom hfacing hmoved, rfl, Or.inl rfl, ?_⟩
    have hexp := moveBoundary_exp old.endExp
      (following.map fun f => (f.startLevel, f.startExp)) (by rwa [Option.map_map])
    rwa [Option.map_map] at hexp
  | control1 =>
    obtain ⟨control1, -, h⟩ := Outcome.bind_eq_ok_iff.1 h
    obtain rfl := Except.ok.inj h
    exact ⟨hold, rfl, Or.inl rfl, Or.inl rfl⟩
  | control2 =>
    obtain ⟨control2, -, h⟩ := Outcome.bind_eq_ok_iff.1 h
    obtain rfl := Except.ok.inj h
    exact ⟨hold, rfl, Or.inl rfl, Or.inl rfl⟩

end Drags

end ExperienceCurves.Editing
