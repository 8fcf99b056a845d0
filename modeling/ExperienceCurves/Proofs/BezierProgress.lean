import ExperienceCurves.Proofs.BezierValues
import ExperienceCurves.Proofs.CharacterRuns

/-!
Progression on Bezier curves. Every level from one on has a requirement within the range, from the
segment that covers it or from the default growth, unless the value of the segment overflows there,
or no segment covers it and it has too many digits to be named as uncovered. A grant only pays for
levels with requirements, so it succeeds unless one of these is ahead.
-/
namespace ExperienceCurves

open Binary64

namespace Curve

/-- The Bezier segments are active, and all of them are ordinary. -/
structure IsOrdinaryBezier (c : Curve) : Prop where
  byBezier : c.useBezier = true
  ordinary : ∀ s ∈ c.bezierSegments, s.IsOrdinary

/-- The segment that decides a level overflows there. -/
def OverflowsAt (c : Curve) (level : Int) : Prop :=
  ∃ s, c.segmentAt? (.int level) = some (.bezier s) ∧ s.Overflows (.int level)

/-- No segment covers the level, and it is too long for the message that says so. -/
def UnstatedAt (c : Curve) (level : Int) : Prop :=
  c.hasSegments = true ∧ c.segmentAt? (.int level) = none ∧ Numeral.isWritable level = false

variable {c : Curve} {level : Int}

/-- What covers a level of such a curve is one of its segments. -/
theorem IsOrdinaryBezier.segmentAt?_cases (h : c.IsOrdinaryBezier) (level : Number) :
    c.segmentAt? level = none ∨
      ∃ s ∈ c.bezierSegments, c.segmentAt? level = some (.bezier s) ∧ s.covers level = true := by
  cases hfound : c.segmentAt? level with
  | none => exact Or.inl rfl
  | some found =>
    have hmem := List.mem_of_find?_eq_some hfound
    have hcovers := List.find?_some hfound
    rw [Curve.active, h.byBezier, if_pos rfl] at hmem
    obtain ⟨s, hs, rfl⟩ := List.mem_map.1 hmem
    exact Or.inr ⟨s, hs, rfl, hcovers⟩

theorem hasSegments_of_bezierSegments (h : c.IsOrdinaryBezier) (hne : c.bezierSegments ≠ []) :
    c.hasSegments = true := by
  obtain ⟨s, rest, hsegments⟩ := List.exists_cons_of_ne_nil hne
  unfold hasSegments active
  rw [h.byBezier, hsegments]
  rfl

end Curve

namespace Requirement

variable {c : Curve} {growth : Option Growth} {level : Int}

/-- The requirement of a covered level is that of the segment. -/
theorem next_of_segmentAt? {s : BezierSegment} (hsegments : c.hasSegments = true)
    (hfound : c.segmentAt? (.int level) = some (.bezier s)) :
    next (some c) growth (.int level) =
      (max 0 ·) <$> Outcome.ofFault (s.requiredExp (.int level)) := by
  have hstrict : strict c (.int level) = Outcome.ofFault (s.requiredExp (.int level)) := by
    unfold strict
    rw [hfound]
    rfl
  unfold next
  rw [effective_of_segments hsegments]
  cases hexp : s.requiredExp (.int level) with
  | ok exp =>
    rw [hexp] at hstrict
    rw [atLevel_of_ok hstrict]
    rfl
  | error fault =>
    rw [hexp] at hstrict
    have hat : atLevel (some c) (.int level) = .error (.arithmetic fault) := by
      unfold atLevel
      dsimp only
      rw [hstrict]
      rfl
    rw [hat]
    rfl

/-- The default growth decides what no segment covers. -/
theorem next_of_uncovered (hgrowth : c.hasSegments = false → ∀ g ∈ growth, g = .usual)
    (huncovered : c.segmentAt? (.int level) = none) (hstated : ¬c.UnstatedAt level) :
    next (some c) growth (.int level) = (max 0 ·) <$> ofDefault (.int level) := by
  unfold next
  cases hsegments : c.hasSegments with
  | false =>
    have hnone : ∀ curve ∈ some c, curve.hasSegments = false := by
      intro curve hcurve
      rwa [← Option.some.inj hcurve]
    have hdefault : ofGrowth? growth (.int level) = ofDefault (.int level) := by
      cases growth with
      | none => rfl
      | some g => rw [hgrowth hsegments g rfl]; rfl
    rw [effective_of_no_segments hnone, hdefault]
    rfl
  | true =>
    have hwritable : Numeral.isWritable level = true :=
      Bool.of_not_eq_false fun hlong => hstated ⟨hsegments, huncovered, hlong⟩
    have hstrict := strict_of_uncovered huncovered hwritable
    rw [effective_of_segments hsegments, atLevel_of_uncovered hstrict]
    cases ofDefault (.int level) with
    | error failure => rfl
    | ok exp => rfl

/-- A level that no message can name as uncovered has no requirement. -/
theorem next_of_unstated (h : c.UnstatedAt level) :
    next (some c) growth (.int level) = .error (.refused .tooLongInDigits) := by
  obtain ⟨hsegments, huncovered, hlong⟩ := h
  have hat : atLevel (some c) (.int level) = .error (.refused .tooLongInDigits) := by
    unfold atLevel
    dsimp only
    rw [strict_of_not_writable huncovered hlong]
  unfold next
  rw [effective_of_segments hsegments, hat]
  rfl

/-- On an ordinary Bezier curve every level from one on has a requirement within the range, unless
its segment overflows there or it is uncovered and too long. -/
theorem next_bezier (h : c.IsOrdinaryBezier)
    (hgrowth : c.bezierSegments = [] → ∀ g ∈ growth, g = .usual) (hone : 1 ≤ level) :
    (c.OverflowsAt level →
      next (some c) growth (.int level) = .error (.arithmetic .infinityAsInteger)) ∧
    (c.UnstatedAt level →
      next (some c) growth (.int level) = .error (.refused .tooLongInDigits)) ∧
    (¬c.OverflowsAt level → ¬c.UnstatedAt level →
      ∃ need, next (some c) growth (.int level) = .ok need ∧ 0 ≤ need ∧ need ≤ greatest) := by
  have hpositive := greatest_pos
  rcases h.segmentAt?_cases (.int level) with huncovered | ⟨s, hs, hfound, hcovers⟩
  · have hgrowth' : c.hasSegments = false → ∀ g ∈ growth, g = .usual := by
      intro hnone
      apply hgrowth
      by_contra hne
      cases hnone.symm.trans (Curve.hasSegments_of_bezierSegments h hne)
    obtain ⟨exp, hexp, -, hhigh⟩ := ofDefault_inRange hone
    refine ⟨?_, next_of_unstated, fun _ hstated =>
      ⟨max 0 exp, ?_, Int.le_max_left 0 exp, by omega⟩⟩
    · rintro ⟨s, hfound, -⟩
      cases huncovered.symm.trans hfound
    · rw [next_of_uncovered hgrowth' huncovered hstated, hexp]
      rfl
  · have hsegments := Curve.hasSegments_of_bezierSegments h (List.ne_nil_of_mem hs)
    have hwhole : ¬((Number.int level).IsReal ∧ s.IsTooLong) := by
      rintro ⟨⟨x, hx⟩, -⟩
      cases hx
    obtain ⟨t, ht⟩ := (BezierSegment.parameter_of_covers (h.ordinary s hs) hcovers).2 hwhole
    obtain ⟨hover, hfits⟩ := BezierSegment.requiredExp_of_parameter (h.ordinary s hs) ht
    rw [next_of_segmentAt? hsegments hfound]
    refine ⟨?_, ?_, ?_⟩
    · rintro ⟨s', hfound', hoverflows⟩
      obtain rfl := Segment.bezier.inj (Option.some.inj (hfound.symm.trans hfound'))
      rw [hover hoverflows]
      rfl
    · rintro ⟨-, huncovered, -⟩
      cases hfound.symm.trans huncovered
    · intro hnot _
      obtain ⟨exp, hexp, hlow, hhigh⟩ := hfits fun hoverflows => hnot ⟨s, hfound, hoverflows⟩
      refine ⟨max 0 exp, ?_, Int.le_max_left 0 exp, by omega⟩
      rw [hexp]
      rfl

end Requirement

theorem Binary64.not_lt_zero_add {x y : Binary64} (hx : x.lt 0 = false) (hy : y.lt 0 = false) :
    (x + y).lt 0 = false := by
  cases x with
  | nan => cases y <;> rfl
  | infinite negative =>
    obtain rfl : negative = false := (lt_zero_infinite negative).symm.trans hx
    cases y with
    | nan => rfl
    | infinite negative' =>
      obtain rfl : negative' = false := (lt_zero_infinite negative').symm.trans hy
      exact lt_zero_infinite false
    | finite negative' mantissa exponent hcanonical => exact lt_zero_infinite false
  | finite negative mantissa exponent hcanonical =>
    cases y with
    | nan => rfl
    | infinite negative' =>
      obtain rfl : negative' = false := (lt_zero_infinite negative').symm.trans hy
      exact lt_zero_infinite false
    | finite negative' mantissa' exponent' hcanonical' =>
      rw [lt_zero_of_isFinite rfl, decide_eq_false_iff_not, not_lt] at hx hy
      exact not_lt_zero_ofRat (add_nonneg hx hy)

theorem Binary64.infinite_sub (negative : Bool) {y : Binary64} (hy : y.isFinite = true) :
    infinite negative - y = infinite negative := by
  cases y with
  | nan => cases hy
  | infinite negative' => cases hy
  | finite negative' mantissa exponent hcanonical => rfl

namespace Number

variable {m n : Number}

theorem not_lt_zero_iff {i : Int} (hm : m.plain = .int i) : m.lt 0 = false ↔ 0 ≤ i := by
  have hlt : m.lt 0 = decide (i < 0) := by
    unfold lt
    rw [hm]
    rfl
  rw [hlt, decide_eq_false_iff_not, not_lt]

theorem not_lt_zero_toBinary64 {x : Binary64} (hm : m.lt 0 = false) (hx : m.toBinary64 = .ok x) :
    x.lt 0 = false := by
  rcases plain_cases m with ⟨i, hi⟩ | ⟨y, rfl, -⟩
  · rw [not_lt_zero_iff hi] at hm
    unfold toBinary64 at hx
    rw [hi] at hx
    apply not_lt_zero_of_isNegative
    rw [(isInteger_of_ofInt? hx).2, decide_eq_false_iff_not]
    omega
  · obtain rfl := Except.ok.inj hx
    rwa [lt_zero_real] at hm

theorem not_lt_zero_add {total : Number} (hm : m.lt 0 = false) (hn : n.lt 0 = false)
    (h : m.add n = .ok total) : total.lt 0 = false := by
  have hrounded (hreal : (∃ x, m = .real x) ∨ ∃ y, n = .real y) : total.lt 0 = false := by
    rw [add, combine_eq hreal] at h
    obtain ⟨x, hx, h⟩ := Outcome.bind_eq_ok_iff.1 h
    obtain ⟨y, hy, h⟩ := Outcome.bind_eq_ok_iff.1 h
    obtain rfl := Except.ok.inj h
    rw [lt_zero_real]
    exact Binary64.not_lt_zero_add (not_lt_zero_toBinary64 hm hx) (not_lt_zero_toBinary64 hn hy)
  rcases plain_cases m with ⟨i, hi⟩ | ⟨x, rfl, -⟩
  · rcases plain_cases n with ⟨j, hj⟩ | ⟨y, rfl, -⟩
    · rw [not_lt_zero_iff hi] at hm
      rw [not_lt_zero_iff hj] at hn
      unfold add combine at h
      rw [hi, hj] at h
      obtain rfl := Except.ok.inj h
      exact (not_lt_zero_iff rfl).2 (by omega)
    · exact hrounded (Or.inr ⟨y, rfl⟩)
  · exact hrounded (Or.inl ⟨x, rfl⟩)

/-- What covers a requirement can pay for it, and what is left is not below zero: rounding the
requirement does not pass the experience. -/
theorem exists_rest {exp : Number} {need : Int} (hlow : 0 ≤ need)
    (hhigh : need ≤ Requirement.greatest) (h : (Number.int need).le exp = true) :
    ∃ rest, exp.sub (.int need) = .ok rest ∧ rest.lt 0 = false := by
  rcases plain_cases exp with ⟨i, hi⟩ | ⟨x, rfl, -⟩
  · have hle : need ≤ i := by
      rw [le, lt, eq, hi] at h
      have hwhole : (int need).le (int i) = true := h
      rwa [le_int, decide_eq_true_eq] at hwhole
    refine ⟨.int (i - need), ?_, (not_lt_zero_iff rfl).2 (by omega)⟩
    unfold sub combine
    rw [hi]
    rfl
  · have hneed := between_ofInt exact_zero exact_greatest (n := need) (by exact_mod_cast hlow)
      (by exact_mod_cast hhigh)
    refine ⟨.real (x - ofInt need), combine_binary rfl hneed.1 (Or.inl rfl), ?_⟩
    rw [lt_zero_real]
    cases x with
    | nan => cases h
    | infinite negative =>
      cases negative with
      | true => cases h
      | false =>
        rw [infinite_sub false hneed.2.isFinite]
        exact lt_zero_infinite false
    | finite negative mantissa exponent hcanonical =>
      rw [le_iff rfl rfl] at h
      have hle : (need : Rat) ≤ (finite negative mantissa exponent hcanonical).toRat :=
        WithTop.coe_le_coe.1 (WithBot.coe_le_coe.1 h)
      have hexact := exact_toRat (x := finite negative mantissa exponent hcanonical) rfl
      have hrounded := (between_ofInt exact_zero hexact (by exact_mod_cast hlow) hle).2
      have hlowest := hrounded.low_le
      have hhighest := hrounded.le_high
      have hrest := between_sub (x := finite negative mantissa exponent hcanonical) rfl
        hrounded.isFinite exact_zero hexact (by linarith) (by linarith)
      rw [lt_zero_of_isFinite hrest.isFinite, decide_eq_false_iff_not, not_lt]
      exact hrest.low_le

end Number

namespace Progression

variable {c : Curve} {growth : Option Growth}

/-- A climb with a level left pays for it if the experience covers the requirement. -/
theorem climb_succ (requirement : Int → Outcome Int) (levels : Nat) {stand : Stand} {need : Int}
    (hneed : stand.expToNext = .int need) :
    climb requirement (levels + 1) stand =
      if (Number.int need).le stand.exp then
        Outcome.ofFault (stand.exp.sub (.int need)) >>= fun rest =>
          requirement (stand.level + 1) >>= fun next =>
            climb requirement levels
              ⟨stand.level + 1, if levels = 0 then 0 else rest, .int next, stand.gained + 1⟩
      else .ok stand := by
  rw [climb, hneed]
  rfl

theorem climb_error {requirement : Int → Outcome Int} (levels : Nat) {stand : Stand} {need : Int}
    {failure : Failure} (hneed : stand.expToNext = .int need) (hlow : 0 ≤ need)
    (hhigh : need ≤ Requirement.greatest) (hcovered : (Number.int need).le stand.exp = true)
    (h : requirement (stand.level + 1) = .error failure) :
    climb requirement (levels + 1) stand = .error failure := by
  obtain ⟨rest, hrest, -⟩ := Number.exists_rest hlow hhigh hcovered
  rw [climb_succ requirement levels hneed, if_pos hcovered, hrest, h]
  rfl

/-- A climb ends, or fails as a requirement ahead does. By induction on the levels that are left. -/
theorem climb_defined (requirement : Int → Outcome Int) (levels : Nat) (stand : Stand)
    (hrequirement : ∀ level need, stand.level < level → requirement level = .ok need →
      0 ≤ need ∧ need ≤ Requirement.greatest)
    (hexp : stand.exp.lt 0 = false) {need : Int} (hneed : stand.expToNext = .int need)
    (hlow : 0 ≤ need) (hhigh : need ≤ Requirement.greatest) :
    (∃ out, climb requirement levels stand = .ok out ∧ stand.level ≤ out.level ∧
      out.level ≤ stand.level + levels ∧ out.exp.lt 0 = false) ∨
    ∃ failure, climb requirement levels stand = .error failure ∧
      ∃ level, stand.level < level ∧ level ≤ stand.level + levels ∧
        requirement level = .error failure := by
  induction levels generalizing stand need with
  | zero => exact Or.inl ⟨stand, rfl, le_rfl, by omega, hexp⟩
  | succ levels ih =>
    by_cases hcovered : (Number.int need).le stand.exp = true
    · cases hnext : requirement (stand.level + 1) with
      | error failure =>
        exact Or.inr ⟨failure, climb_error levels hneed hlow hhigh hcovered hnext,
          stand.level + 1, by omega, by omega, hnext⟩
      | ok next =>
        obtain ⟨hnextLow, hnextHigh⟩ := hrequirement (stand.level + 1) next (by omega) hnext
        obtain ⟨rest, hrest, hpositive⟩ := Number.exists_rest hlow hhigh hcovered
        rw [climb_succ requirement levels hneed, if_pos hcovered, hrest, hnext]
        have hahead : ∀ level need, stand.level + 1 < level → requirement level = .ok need →
            0 ≤ need ∧ need ≤ Requirement.greatest := fun level need habove =>
          hrequirement level need (by omega)
        have hexp' : (if levels = 0 then (0 : Number) else rest).lt 0 = false := by
          split
          · rfl
          · exact hpositive
        rcases ih ⟨stand.level + 1, if levels = 0 then 0 else rest, .int next, stand.gained + 1⟩
          hahead hexp' rfl hnextLow hnextHigh with
          ⟨out, hout, hoverLevel, hlastLevel, houtExp⟩ |
            ⟨failure, hclimb, level, habove, hlast, hfails⟩
        · dsimp only at hoverLevel hlastLevel
          exact Or.inl ⟨out, hout, by omega, by omega, houtExp⟩
        · dsimp only at habove hlast
          exact Or.inr ⟨failure, hclimb, level, by omega, by omega, hfails⟩
    · rw [climb_succ requirement levels hneed, if_neg hcovered]
      exact Or.inl ⟨stand, rfl, le_rfl, by omega, hexp⟩

/-- At the maximum level a grant only takes the experience. -/
theorem exists_grant_of_capped {c : Option Curve} {s : Progression} {m : Int} {amount : Number}
    (hmax : s.maxLevel = .int m) (hamount : amount.lt 0 = false) (hcapped : s.isCapped = true) :
    ∃ r, s.grant c growth amount = .ok r := by
  have hlevel := s.level_le_maxLevel
  rw [hmax, Number.le_int, decide_eq_true_eq] at hlevel
  have hnothing : (0 : Number).lt 0 = false := rfl
  obtain ⟨t, ht, -⟩ := exists_make s.expToNext s.one_le_level hlevel hnothing
  refine ⟨⟨t, 0⟩, ?_⟩
  unfold grant
  rw [hamount, if_neg Bool.false_ne_true, if_pos hcapped, hmax, ht]
  rfl

/-- Below the maximum level a grant succeeds where its climb ends on one of the levels. -/
theorem exists_grant_of_climb {c : Option Curve} {s : Progression} {m : Int}
    {amount total : Number} {out : Stand} (hmax : s.maxLevel = .int m)
    (hamount : amount.lt 0 = false) (hcapped : s.isCapped = false)
    (hsum : s.exp.add amount = .ok total)
    (h : climb (fun level => Requirement.next c growth (.int level)) (m - s.level).toNat
      ⟨s.level, total, s.expToNext, 0⟩ = .ok out)
    (hlow : s.level ≤ out.level) (hhigh : out.level ≤ m) (hexp : out.exp.lt 0 = false) :
    ∃ r, s.grant c growth amount = .ok r := by
  have hone := s.one_le_level
  obtain ⟨t, ht, -⟩ := exists_make out.expToNext (hone.trans hlow) hhigh hexp
  refine ⟨⟨t, out.gained⟩, ?_⟩
  unfold grant
  rw [hamount, hcapped, if_neg Bool.false_ne_true, if_neg Bool.false_ne_true, hmax, hsum]
  refine Outcome.bind_eq_ok_iff.2 ⟨total, rfl, Outcome.bind_eq_ok_iff.2 ⟨out, h, ?_⟩⟩
  exact Outcome.bind_eq_ok_iff.2 ⟨t, ht, rfl⟩

/-- Below the maximum level a grant fails where its climb does. -/
theorem grant_of_climb_error {c : Option Curve} {s : Progression} {m : Int} {amount total : Number}
    {failure : Failure} (hmax : s.maxLevel = .int m) (hamount : amount.lt 0 = false)
    (hcapped : s.isCapped = false) (hsum : s.exp.add amount = .ok total)
    (h : climb (fun level => Requirement.next c growth (.int level)) (m - s.level).toNat
      ⟨s.level, total, s.expToNext, 0⟩ = .error failure) :
    s.grant c growth amount = .error failure := by
  have hleft : levelsLeft s.level (.int m) = (m - s.level).toNat := rfl
  unfold grant
  rw [hamount, hcapped, if_neg Bool.false_ne_true, if_neg Bool.false_ne_true, hmax, hleft, hsum]
  change climb _ _ _ >>= _ = _
  rw [h]
  rfl

/-- A grant of an amount that can be added succeeds, or fails as a requirement ahead does. -/
theorem grant_defined {c : Option Curve} (s : Progression) {m need : Int}
    (hmax : s.maxLevel = .int m) (hneed : s.expToNext = .int need) (hlow : 0 ≤ need)
    (hhigh : need ≤ Requirement.greatest)
    {amount total : Number} (hamount : amount.lt 0 = false) (hsum : s.exp.add amount = .ok total) :
    (∃ r, s.grant c growth amount = .ok r) ∨
      ∃ failure, s.grant c growth amount = .error failure ∧
        ∃ level, s.level < level ∧ level ≤ m ∧
          Requirement.next c growth (.int level) = .error failure := by
  have hlevel : s.level ≤ m := by
    have hle := s.level_le_maxLevel
    rwa [hmax, Number.le_int, decide_eq_true_eq] at hle
  cases hcapped : s.isCapped with
  | true => exact Or.inl (exists_grant_of_capped hmax hamount hcapped)
  | false =>
    have hclimb := climb_defined (fun level => Requirement.next c growth (.int level))
      (m - s.level).toNat ⟨s.level, total, s.expToNext, 0⟩
      (fun level need _ hneed => ⟨Requirement.next_nonneg hneed, Requirement.next_le hneed⟩)
      (Number.not_lt_zero_add s.exp_not_negative hamount hsum) hneed hlow hhigh
    dsimp only at hclimb
    rcases hclimb with
      ⟨out, hout, houtLow, houtHigh, houtExp⟩ | ⟨failure, hfailed, level, habove, hlast, hfails⟩
    · exact Or.inl (exists_grant_of_climb hmax hamount hcapped hsum hout houtLow (by omega) houtExp)
    · exact Or.inr ⟨failure, grant_of_climb_error hmax hamount hcapped hsum hfailed, level, habove,
        by omega, hfails⟩

end Progression

namespace Curve

variable {c : Curve}

/-- On a curve of ordinary Bezier segments a level that a segment covers has a requirement within
the range, unless the value overflows there, and none overflows in a segment with safe ends. So
every level from one on has a requirement, and a grant succeeds, unless the level or a level ahead
of the character overflows, or is uncovered and too long to be named. A level between whole ones
needs a segment that is not too long besides. -/
theorem bezier_bounded_unless_overflow (hc : c.IsOrdinaryBezier) {growth : Option Growth}
    (hgrowth : c.bezierSegments = [] → ∀ g ∈ growth, g = .usual) :
    (∀ s ∈ c.bezierSegments, ∀ level : Number, s.covers level = true →
      (level.IsReal ∧ s.IsTooLong → s.requiredExp level = .error .integerTooLarge) ∧
      (¬(level.IsReal ∧ s.IsTooLong) →
        (s.Overflows level → s.requiredExp level = .error .infinityAsInteger) ∧
        (¬s.Overflows level → ∃ exp, s.requiredExp level = .ok exp ∧ 0 ≤ exp ∧
          exp ≤ Requirement.greatest)) ∧
      (s.IsSafe → ¬s.Overflows level)) ∧
    (∀ level : Int, 1 ≤ level →
      (c.OverflowsAt level →
        Requirement.next (some c) growth (.int level) = .error (.arithmetic .infinityAsInteger)) ∧
      (c.UnstatedAt level →
        Requirement.next (some c) growth (.int level) = .error (.refused .tooLongInDigits)) ∧
      (¬c.OverflowsAt level → ¬c.UnstatedAt level → ∃ need,
        Requirement.next (some c) growth (.int level) = .ok need ∧ 0 ≤ need ∧
          need ≤ Requirement.greatest)) ∧
    (∀ (s : Progression) (m need : Int) (amount total : Number), s.maxLevel = .int m →
      s.expToNext = .int need → 0 ≤ need → need ≤ Requirement.greatest →
      amount.lt 0 = false → s.exp.add amount = .ok total →
      (∃ r, s.grant (some c) growth amount = .ok r) ∨
        s.grant (some c) growth amount = .error (.arithmetic .infinityAsInteger) ∧
          (∃ level, s.level < level ∧ level ≤ m ∧ c.OverflowsAt level) ∨
        s.grant (some c) growth amount = .error (.refused .tooLongInDigits) ∧
          ∃ level, s.level < level ∧ level ≤ m ∧ c.UnstatedAt level) ∧
    ((∀ s ∈ c.bezierSegments, s.IsSafe) → ∀ level, ¬c.OverflowsAt level) := by
  refine ⟨?_, fun level hone => Requirement.next_bezier hc hgrowth hone, ?_, ?_⟩
  · intro s hmem level hcovers
    have hs := hc.ordinary s hmem
    obtain ⟨htoo, hparameter⟩ := BezierSegment.parameter_of_covers hs hcovers
    refine ⟨?_, ?_, fun hsafe => BezierSegment.not_overflows_of_isSafe hs hsafe level⟩
    · intro hlong
      rw [BezierSegment.requiredExp, htoo hlong]
      rfl
    · intro hfits
      obtain ⟨t, ht⟩ := hparameter hfits
      exact BezierSegment.requiredExp_of_parameter hs ht
  · intro s m need amount total hmax hneed hlow hhigh hamount hsum
    rcases Progression.grant_defined s hmax hneed hlow hhigh hamount hsum with
      hr | ⟨failure, hfailed, level, habove, hlast, hfails⟩
    · exact Or.inl hr
    have hone := s.one_le_level
    have hlevel : 1 ≤ level := by omega
    obtain ⟨hover, hunstated, hdefined⟩ := Requirement.next_bezier hc hgrowth hlevel
    by_cases hoverflows : c.OverflowsAt level
    · obtain rfl := Except.error.inj (hfails.symm.trans (hover hoverflows))
      exact Or.inr (Or.inl ⟨hfailed, level, habove, hlast, hoverflows⟩)
    by_cases hlong : c.UnstatedAt level
    · obtain rfl := Except.error.inj (hfails.symm.trans (hunstated hlong))
      exact Or.inr (Or.inr ⟨hfailed, level, habove, hlast, hlong⟩)
    · obtain ⟨need, hneed, -⟩ := hdefined hoverflows hlong
      cases hfails.symm.trans hneed
  · rintro hsafe level ⟨s, hfound, hover⟩
    rcases hc.segmentAt?_cases (.int level) with huncovered | ⟨s', hs', hfound', -⟩
    · cases huncovered.symm.trans hfound
    · obtain rfl := Segment.bezier.inj (Option.some.inj (hfound'.symm.trans hfound))
      exact BezierSegment.not_overflows_of_isSafe (hc.ordinary s' hs') (hsafe s' hs') _ hover

/-- A segment of the usual shape from level 1 to 10, and a character at its start. -/
theorem bezier_bounded_unless_overflow_usual :
    let s : BezierSegment := ⟨⟨"1", .int 1, .int 10⟩, .real 100, .real 1500, .usual1, .usual2⟩
    let c : Curve := ⟨[], [s], true, none⟩
    let character : Progression := ⟨1, .int 0, .int 100, .int 10, by decide, rfl, rfl⟩
    (∃ exp, s.requiredExp (.int 5) = .ok exp ∧ 0 ≤ exp ∧ exp ≤ Requirement.greatest) ∧
      (∃ need, Requirement.next (some c) none (.int 7) = .ok need ∧ 0 ≤ need ∧
        need ≤ Requirement.greatest) ∧
      ∃ r, character.grant (some c) none (.real 900) = .ok r := by
  intro s c character
  have hbetween (x : Binary64) (hx : x = 100 ∨ x = 1500) :
      x.Between 0 CubicBezier.safeExp ∧ x.Between 0 greatest := by
    rcases hx with rfl | rfl
    · exact ⟨⟨by decide +kernel, by decide +kernel, by decide +kernel⟩,
        by decide +kernel, by decide +kernel, by decide +kernel⟩
    · exact ⟨⟨by decide +kernel, by decide +kernel, by decide +kernel⟩,
        by decide +kernel, by decide +kernel, by decide +kernel⟩
  have hstart := hbetween 100 (Or.inl rfl)
  have hend := hbetween 1500 (Or.inr rfl)
  have hsafe : s.IsSafe := ⟨hstart.1, hend.1⟩
  have hs : s.IsOrdinary := by
    refine ⟨⟨10, 1, 10, rfl, rfl, by decide, by decide, le_rfl⟩, hstart.2, hend.2, ?_, ?_⟩
    · exact ⟨by decide +kernel, by decide +kernel, by decide +kernel⟩
    · exact ⟨by decide +kernel, by decide +kernel, by decide +kernel⟩
  have hc : c.IsOrdinaryBezier := by
    refine ⟨rfl, fun s' hs' => ?_⟩
    obtain rfl := List.mem_singleton.1 hs'
    exact hs
  obtain ⟨hsegments, hnext, hgrant, hover⟩ :=
    bezier_bounded_unless_overflow hc fun hnil => nomatch hnil
  obtain ⟨-, hexp, hfits⟩ := hsegments s List.mem_cons_self (.int 5) rfl
  have hnone := hover fun s' hs' => by
    obtain rfl := List.mem_singleton.1 hs'
    exact hsafe
  have hwhole : ¬((Number.int 5).IsReal ∧ s.IsTooLong) := by
    rintro ⟨⟨x, hx⟩, -⟩
    cases hx
  have hstated (level : Int) (hlast : level ≤ 10) (hone : 1 ≤ level) : ¬c.UnstatedAt level := by
    rintro ⟨-, -, hlong⟩
    have hgreatest : 10 ≤ Requirement.greatest := by decide +kernel
    cases hlong.symm.trans (Requirement.isWritable_of_le_greatest hone (hlast.trans hgreatest))
  refine ⟨(hexp hwhole).2 (hfits hsafe),
    (hnext 7 (by decide)).2.2 (hnone 7) (hstated 7 (by decide) (by decide)), ?_⟩
  have hamount : (Number.real 900).lt 0 = false := by decide +kernel
  have hsum : character.exp.add (.real 900) = .ok (.real (0 + 900)) :=
    Number.add_real (m := .int 0) rfl 900
  rcases hgrant character 10 100 _ _ rfl rfl (by decide) (by decide +kernel) hamount hsum with
    hr | ⟨-, level, -, -, hoverLevel⟩ | ⟨-, level, habove, hlast, hlong⟩
  · exact hr
  · exact absurd hoverLevel (hnone level)
  · exact absurd hlong (hstated level hlast habove.le)

/-- A curve that can be sent, with control points at the upper bound of drags and an end near the
end of the range. -/
theorem steep_overflows :
    let s : BezierSegment := ⟨⟨"1", .int 1, .int 3⟩, .real 0, .real (ofDecimal false 1 308),
      ⟨decimal 33 2, 3⟩, ⟨decimal 67 2, 3⟩⟩
    let c : Curve := ⟨[], [s], true, none⟩
    let character : Progression := ⟨1, .int 0, .int 0, .int 3, by decide, rfl, rfl⟩
    c.IsSendable ∧ s.IsOrdinary ∧ s.covers (.int 2) = true ∧
      s.requiredExp (.int 2) = .error .infinityAsInteger ∧
      Requirement.next (some c) (some .usual) (.int 2) = .error (.arithmetic .infinityAsInteger) ∧
      Requirement.next (some c) (some .usual) (.int 1) = .ok 0 ∧
      character.grant (some c) (some .usual) (.real 1) =
        .error (.arithmetic .infinityAsInteger) := by
  intro s c character
  have hband : (3 : Binary64).Between (-1 / 2) 3 :=
    ⟨by decide +kernel, by decide +kernel, by decide +kernel⟩
  have hs : s.IsOrdinary := by
    refine ⟨⟨3, 1, 3, rfl, rfl, by decide, by decide, le_rfl⟩, ?_, ?_, hband, hband⟩
    · exact ⟨by decide +kernel, by decide +kernel, by decide +kernel⟩
    · exact ⟨by decide +kernel, by decide +kernel, by decide +kernel⟩
  have hover : s.requiredExp (.int 2) = .error .infinityAsInteger := by decide +kernel
  have hfirst : s.requiredExp (.int 1) = .ok 0 := by decide +kernel
  have hnext : Requirement.next (some c) (some .usual) (.int 2) =
      .error (.arithmetic .infinityAsInteger) := by
    rw [Requirement.next_of_segmentAt? (c := c) (s := s) rfl rfl, hover]
    rfl
  have hnextFirst : Requirement.next (some c) (some .usual) (.int 1) = .ok 0 := by
    rw [Requirement.next_of_segmentAt? (c := c) (s := s) rfl rfl, hfirst]
    rfl
  have hsendable : c.IsSendable := by
    refine ⟨(fun s' hs' => nomatch hs'), fun s' hs' => ?_, (fun scale hscale => nomatch hscale)⟩
    obtain rfl := List.mem_singleton.1 hs'
    exact ⟨⟨by decide, hs.levels⟩, ⟨_, rfl, by decide +kernel⟩, ⟨_, rfl, by decide +kernel⟩⟩
  refine ⟨hsendable, hs, rfl, hover, hnext, hnextFirst, ?_⟩
  obtain ⟨total, hsum, hcovered⟩ : ∃ total, character.exp.add (.real 1) = .ok total ∧
      (Number.int 0).le total = true :=
    ⟨_, Number.add_real (m := .int 0) rfl 1, by decide +kernel⟩
  have hclimb :
      Progression.climb (fun level => Requirement.next (some c) (some .usual) (.int level)) (1 + 1)
        ⟨1, total, .int 0, 0⟩ = .error (.arithmetic .infinityAsInteger) :=
    Progression.climb_error 1 rfl le_rfl Requirement.greatest_pos.le hcovered hnext
  exact Progression.grant_of_climb_error rfl (by decide +kernel) (by decide) hsum hclimb

end Curve

end ExperienceCurves
