import ExperienceCurves.Proofs.RealNumbers
import ExperienceCurves.Proofs.Runs
import ExperienceCurves.Proofs.Values

/-!
Requirements that cannot stop a character. A formula that is undefined at a level leaves the default
growth in charge, and what leaves the range of numbers is held at its ends, so the requirement of
every level within the range is defined and lies within it, and a grant succeeds. The exception is
a linear growth with a whole factor, whose product may be too large for a binary number.
-/
namespace ExperienceCurves

open Binary64 Formula

/-- The coefficients are finite numbers, or those of the default growth if they are not given. -/
structure Growth.IsFinite (g : Growth) : Prop where
  a : g.a = usual.a ∨ ∃ x : Binary64, g.a = .real x ∧ x.isFinite = true
  b : g.b = usual.b ∨ ∃ x : Binary64, g.b = .real x ∧ x.isFinite = true

/-- A linear growth without a factor of its own, whose product with the level is whole and has no
binary number. -/
def Growth.Overflows (g : Growth) (level : Int) : Prop :=
  g.kind = .linear ∧ g.a = usual.a ∧ ofInt? (100 * level) = .error .integerTooLarge

/-- The active segments are formulas, and each is read or refused for a mistake in it. -/
structure Curve.IsLegible (c : Curve) : Prop where
  byFormulas : c.useBezier = false
  nonempty : c.segments ≠ []
  mistaken_of_error : ∀ segment ∈ c.segments, ∀ failure,
    Expr.ofText segment.formula = .error failure → failure.isFormula = true

namespace Requirement

theorem usual_isFinite : Growth.usual.IsFinite := ⟨Or.inl rfl, Or.inl rfl⟩

theorem exists_rate {g : Growth} (h : g.IsFinite) :
    ∃ rate : Binary64, g.b = .real rate ∧ rate.isFinite = true := by
  rcases h.b with hb | hb
  · exact ⟨decimal 15 1, hb, by decide +kernel⟩
  · exact hb

/-- A factor counts as a finite number. -/
theorem exists_factor {g : Growth} (h : g.IsFinite) :
    ∃ (base : Number) (x : Binary64), g.a = .number base ∧ base.toBinary64 = .ok x ∧
      x.isFinite = true := by
  rcases h.a with ha | ⟨x, ha, hx⟩
  · have hsmall : (100 : Int).natAbs ≤ Binary64.greatest := by decide +kernel
    exact ⟨.int 100, ofInt 100, ha, ofInt?_eq_ok hsmall, (ofInt_isInteger hsmall).1.isFinite⟩
  · exact ⟨.real x, x, ha, rfl, hx⟩

theorem beyond_inRange (base : Number) : InRange (beyond base) := by
  have hpositive := greatest_pos
  unfold beyond InRange
  split
  · omega
  · split <;> omega

/-- The range of levels is that of the whole numbers which have a binary number. -/
theorem natAbs_le {level : Int} (hone : 1 ≤ level) (hlast : level ≤ greatest) :
    level.natAbs ≤ Binary64.greatest := by
  have hgreatest : greatest = (Binary64.greatest : Int) := rfl
  omega

variable {level : Int}

section Exponential

variable {base rate power : Number} {fault : Fault} {exp : Int}

/-- A power that leaves the range of numbers is decided by the base. -/
theorem exponential_of_raise_error (hpower : rate.raise (.int (level - 1)) = .error fault)
    (hfault : fault.isOverflow = true) :
    exponential (.number base) (.number rate) (.int level) = .ok (beyond base) := by
  refine Outcome.bind_eq_ok_iff.2 ⟨rate, rfl, Outcome.bind_eq_ok_iff.2 ⟨.int (level - 1), rfl, ?_⟩⟩
  rw [hpower]
  dsimp only
  rw [if_pos hfault]
  rfl

/-- So is a product that does. -/
theorem exponential_of_mul_error (hpower : rate.raise (.int (level - 1)) = .ok power)
    (hproduct : base.mul power = .error fault) (hfault : fault.isOverflow = true) :
    exponential (.number base) (.number rate) (.int level) = .ok (beyond base) := by
  refine Outcome.bind_eq_ok_iff.2 ⟨rate, rfl, Outcome.bind_eq_ok_iff.2 ⟨.int (level - 1), rfl, ?_⟩⟩
  rw [hpower]
  refine Outcome.bind_eq_ok_iff.2 ⟨base, rfl, ?_⟩
  have hsaturate : (base.mul power).bind saturate = .error fault := by
    rw [hproduct]
    rfl
  rw [hsaturate]
  dsimp only
  rw [if_pos hfault]
  rfl

theorem exponential_of_mul {product : Number} (hpower : rate.raise (.int (level - 1)) = .ok power)
    (hproduct : base.mul power = .ok product) (hexp : saturate product = .ok exp) :
    exponential (.number base) (.number rate) (.int level) = .ok exp := by
  refine Outcome.bind_eq_ok_iff.2 ⟨rate, rfl, Outcome.bind_eq_ok_iff.2 ⟨.int (level - 1), rfl, ?_⟩⟩
  rw [hpower]
  refine Outcome.bind_eq_ok_iff.2 ⟨base, rfl, ?_⟩
  have hsaturate : (base.mul power).bind saturate = .ok exp := by
    rw [hproduct]
    exact hexp
  rw [hsaturate]
  rfl

end Exponential

/-- A product with a power is held in the range, also where the power itself leaves it. -/
theorem exponential_inRange {base : Number} {x rate : Binary64} (hbase : base.toBinary64 = .ok x)
    (hx : x.isFinite = true) (hrate : rate.isFinite = true) (hone : 1 ≤ level) :
    ∃ exp, exponential (.number base) (.real rate) (.int level) = .ok exp ∧ InRange exp := by
  rcases Number.raise_cases hrate (n := level - 1) (by omega) with
    ⟨fault, hpower, hfault⟩ | ⟨power, hpower, hfinite⟩
  · exact ⟨_, exponential_of_raise_error hpower hfault, beyond_inRange base⟩
  · obtain ⟨exp, hexp, hrange⟩ := saturate_real (isNan_mul hx hfinite)
    exact ⟨exp, exponential_of_mul hpower (Number.mul_real hbase power) hexp, hrange⟩

theorem linear_real (factor rate : Binary64) (hone : 1 ≤ level) (hlast : level ≤ greatest) :
    ofGrowth ⟨.linear, .real factor, .real rate⟩ (.int level) =
      Outcome.ofFault (saturate (.real (factor * ofInt level + rate))) := by
  have hunfold : ofGrowth ⟨.linear, .real factor, .real rate⟩ (.int level) =
      Outcome.ofFault (ofInt? level >>= fun x => Except.ok (Number.real (factor * x))) >>=
        fun product => Outcome.ofFault (product.add (.real rate)) >>=
        fun sum => Outcome.ofFault (saturate sum) := rfl
  rw [hunfold, ofInt?_eq_ok (natAbs_le hone hlast)]
  rfl

/-- The product with a whole factor is whole, and has to be a binary number for the sum. -/
theorem linear_usual (rate : Binary64) (level : Int) :
    ofGrowth ⟨.linear, Growth.usual.a, .real rate⟩ (.int level) =
      Outcome.ofFault (ofInt? (100 * level) >>= fun x => saturate (.real (x + rate))) := by
  have hunfold : ofGrowth ⟨.linear, Growth.usual.a, .real rate⟩ (.int level) =
      Outcome.ofFault (ofInt? (100 * level) >>= fun x => Except.ok (Number.real (x + rate))) >>=
        fun sum => Outcome.ofFault (saturate sum) := rfl
  rw [hunfold]
  cases ofInt? (100 * level) with
  | error fault => rfl
  | ok x => rfl

/-- A growth formula with finite coefficients has a requirement in the range. -/
theorem ofGrowth_inRange {g : Growth} (hg : g.IsFinite) (hone : 1 ≤ level)
    (hlast : level ≤ greatest) (hfits : ¬g.Overflows level) :
    ∃ exp, ofGrowth g (.int level) = .ok exp ∧ InRange exp := by
  obtain ⟨rate, hb, hrate⟩ := exists_rate hg
  obtain ⟨kind, a, b⟩ := g
  obtain rfl : b = .real rate := hb
  cases kind with
  | exponential =>
    obtain ⟨base, x, ha, hbase, hx⟩ := exists_factor hg
    obtain rfl : a = .number base := ha
    exact exponential_inRange hbase hx hrate hone
  | linear =>
    rcases hg.a with ha | ⟨factor, ha, hfactor⟩
    · obtain rfl : a = Growth.usual.a := ha
      rw [linear_usual]
      cases hproduct : ofInt? (100 * level) with
      | error fault =>
        obtain rfl := ofInt?_error hproduct
        exact absurd ⟨rfl, rfl, hproduct⟩ hfits
      | ok x =>
        have hnan := isNan_of_isFinite (isInteger_of_ofInt? hproduct).1.isFinite
        obtain ⟨exp, hexp, hrange⟩ := saturate_real (isNan_add hnan hrate)
        exact ⟨exp, congrArg Outcome.ofFault hexp, hrange⟩
    · obtain rfl : a = .real factor := ha
      have hlevel := (ofInt_isInteger (natAbs_le hone hlast)).1.isFinite
      obtain ⟨exp, hexp, hrange⟩ := saturate_real (isNan_add (isNan_mul hfactor hlevel) hrate)
      rw [linear_real factor rate hone hlast, hexp]
      exact ⟨exp, rfl, hrange⟩

theorem ofGrowth_overflows {g : Growth} (hg : g.IsFinite) (h : g.Overflows level) :
    ofGrowth g (.int level) = .error (.arithmetic .integerTooLarge) := by
  obtain ⟨rate, hb, -⟩ := exists_rate hg
  obtain ⟨kind, a, b⟩ := g
  obtain ⟨hkind, ha, hproduct⟩ := h
  obtain rfl : kind = .linear := hkind
  obtain rfl : a = Growth.usual.a := ha
  obtain rfl : b = .real rate := hb
  rw [linear_usual, hproduct]
  rfl

/-- The default growth decides every level from one on. -/
theorem ofDefault_inRange (hone : 1 ≤ level) :
    ∃ exp, ofDefault (.int level) = .ok exp ∧ InRange exp := by
  obtain ⟨rate, hrate, hfinite⟩ := exists_rate usual_isFinite
  obtain ⟨base, x, hbase, hx, hxfinite⟩ := exists_factor usual_isFinite
  have hdefault : ofDefault (.int level) =
      exponential (.number base) (.real rate) (.int level) := by
    rw [← hbase, ← hrate]
    rfl
  rw [hdefault]
  exact exponential_inRange hx hxfinite hfinite hone

theorem ofSegment_formula {segment : FormulaSegment} (hone : 1 ≤ level) (hlast : level ≤ greatest)
    (hlegible : ∀ failure, Expr.ofText segment.formula = .error failure →
      failure.isFormula = true) :
    (∃ exp, ofSegment (.formula segment) (.int level) = .ok exp ∧ InRange exp) ∨
      ∃ error, ofSegment (.formula segment) (.int level) = .error (.formula error) := by
  have hlevel : (Datum.int level).toBinary64 = .ok (ofInt level) :=
    congrArg Outcome.ofFault (ofInt?_eq_ok (natAbs_le hone hlast))
  have hbindings : (Bindings.empty.bind .level (.int level)).AreNumbers :=
    Bindings.empty_areNumbers.bind .level ⟨_, hlevel⟩
  have hunfold : ofSegment (.formula segment) (.int level) =
      evaluate (.text segment.formula) (Bindings.empty.bind .level (.int level)) >>=
        fun x => Outcome.ofFault (saturate (.real x)) := rfl
  rw [hunfold]
  cases hvalue : evaluate (.text segment.formula) (Bindings.empty.bind .level (.int level)) with
  | ok x =>
    obtain ⟨exp, hexp, hrange⟩ := saturate_real (isNan_of_isFinite (isFinite_of_evaluate hvalue))
    exact Or.inl ⟨exp, congrArg Outcome.ofFault hexp, hrange⟩
  | error failure =>
    have hformula : failure.isFormula = true := by
      rcases evaluate_error hbindings hvalue with hformula | hread
      · exact hformula
      · exact hlegible failure hread
    cases failure with
    | formula error => exact Or.inr ⟨error, rfl⟩
    | _ => cases hformula

/-- What decides requirements without ever failing: legible formulas, or a growth with finite
coefficients, except where it overflows. -/
inductive IsSteady : Option Curve → Option Growth → Prop
  | formulas {c : Curve} (growth : Option Growth) (h : c.IsLegible) : IsSteady (some c) growth
  | growth {c : Option Curve} {growth : Option Growth} (hc : ∀ curve ∈ c, curve.hasSegments = false)
      (hgrowth : ∀ g ∈ growth, g.IsFinite) : IsSteady c growth

/-- A growth formula that overflows decides the requirement of the level. -/
def Overflows (c : Option Curve) (growth : Option Growth) (level : Int) : Prop :=
  (∀ curve ∈ c, curve.hasSegments = false) ∧ ∃ g ∈ growth, g.Overflows level

variable {c : Option Curve} {growth : Option Growth}

theorem hasSegments_of_isLegible {c : Curve} (h : c.IsLegible) : c.hasSegments = true := by
  obtain ⟨segment, rest, hsegments⟩ := List.exists_cons_of_ne_nil h.nonempty
  unfold Curve.hasSegments Curve.active
  rw [h.byFormulas, hsegments]
  rfl

/-- A curve without active segments covers no level. -/
theorem segmentAt?_of_no_segments {c : Curve} (h : c.hasSegments = false) (level : Number) :
    c.segmentAt? level = none := by
  rw [Curve.hasSegments, Bool.not_eq_false', List.isEmpty_iff] at h
  rw [Curve.segmentAt?, h, List.find?_nil]

theorem strict_of_uncovered {c : Curve} {level : Number} (h : c.segmentAt? level = none)
    (hwritable : level.isWritable = true) : strict c level = .error (.uncovered level) := by
  have hshort : ¬(Failure.uncovered level).IsLong := by
    rintro ⟨d, hd, hlong⟩
    obtain rfl := List.mem_singleton.1 hd
    cases hwritable.symm.trans hlong
  unfold strict
  rw [h]
  exact congrArg Except.error (Failure.written_of_not_isLong hshort)

/-- An uncovered level that is too long for its message leaves no requirement at all. -/
theorem strict_of_not_writable {c : Curve} {level : Number} (h : c.segmentAt? level = none)
    (hlong : level.isWritable = false) : strict c level = .error (.refused .tooLongInDigits) := by
  unfold strict
  rw [h]
  exact congrArg Except.error (Failure.written_of_isLong ⟨_, List.mem_cons_self, hlong⟩)

theorem isWritable_of_le_greatest (hone : 1 ≤ level) (hlast : level ≤ greatest) :
    (Number.int level).isWritable = true := by
  have hbound : greatest.natAbs < 10 ^ Numeral.longest := by decide +kernel
  exact Numeral.isWritable_iff.2 (by omega)

theorem strict_of_isLegible {c : Curve} (h : c.IsLegible) (hone : 1 ≤ level)
    (hlast : level ≤ greatest) :
    (∃ exp, strict c (.int level) = .ok exp ∧ InRange exp) ∨
      (∃ error, strict c (.int level) = .error (.formula error)) ∨
      strict c (.int level) = .error (.uncovered (.int level)) := by
  cases hfound : c.segmentAt? (.int level) with
  | none =>
    exact Or.inr (Or.inr (strict_of_uncovered hfound (isWritable_of_le_greatest hone hlast)))
  | some found =>
    unfold strict
    rw [hfound]
    have hmem := List.mem_of_find?_eq_some hfound
    rw [Curve.active, h.byFormulas, if_neg Bool.false_ne_true] at hmem
    obtain ⟨segment, hsegment, rfl⟩ := List.mem_map.1 hmem
    rcases ofSegment_formula hone hlast (h.mistaken_of_error segment hsegment) with hexp | herror
    · exact Or.inl hexp
    · exact Or.inr (Or.inl herror)

theorem atLevel_of_ok {c : Curve} {level : Number} {exp : Int} (h : strict c level = .ok exp) :
    atLevel (some c) level = .ok (some exp) := by
  unfold atLevel
  dsimp only
  rw [h]

theorem atLevel_of_mistaken {c : Curve} {level : Number} {error : Formula.Error}
    (h : strict c level = .error (.formula error)) : atLevel (some c) level = .ok none := by
  unfold atLevel
  dsimp only
  rw [h]

theorem atLevel_of_uncovered {c : Curve} {level : Number}
    (h : strict c level = .error (.uncovered level)) :
    atLevel (some c) level = some <$> ofDefault level := by
  unfold atLevel
  dsimp only
  rw [h]

/-- The requirement at a level is undefined only where a formula is. -/
theorem atLevel_inRange (h : IsSteady c growth) (hone : 1 ≤ level) (hlast : level ≤ greatest) :
    atLevel c (.int level) = .ok none ∨
      ∃ exp, atLevel c (.int level) = .ok (some exp) ∧ InRange exp := by
  obtain ⟨usual, husual, hrange⟩ := ofDefault_inRange hone
  have hdefault : some <$> ofDefault (.int level) = .ok (some usual) := by
    rw [husual]
    rfl
  cases h with
  | @formulas c growth h =>
    rcases strict_of_isLegible h hone hlast with ⟨exp, hstrict, hexp⟩ | ⟨error, hstrict⟩ | hstrict
    · exact Or.inr ⟨exp, atLevel_of_ok hstrict, hexp⟩
    · exact Or.inl (atLevel_of_mistaken hstrict)
    · exact Or.inr ⟨usual, (atLevel_of_uncovered hstrict).trans hdefault, hrange⟩
  | growth hc hgrowth =>
    refine Or.inr ⟨usual, ?_, hrange⟩
    cases c with
    | none => exact hdefault
    | some c =>
      have hfound := segmentAt?_of_no_segments (hc c rfl) (.int level)
      have hstrict := strict_of_uncovered hfound (isWritable_of_le_greatest hone hlast)
      exact (atLevel_of_uncovered hstrict).trans hdefault

/-- With active segments they decide, and the default growth where they are undefined. -/
theorem effective_of_segments {c : Curve} (h : c.hasSegments = true) (level : Number) :
    effective (some c) growth level = (do
      match ← atLevel (some c) level with
      | some exp => return exp
      | none => ofDefault level) := if_pos h

/-- Without active segments the growth formula decides, or the default growth. -/
theorem effective_of_no_segments (hc : ∀ curve ∈ c, curve.hasSegments = false) (level : Number) :
    effective c growth level = ofGrowth? growth level := by
  cases c with
  | none => rfl
  | some c => exact if_neg (Bool.eq_false_iff.1 (hc c rfl))

theorem effective_inRange (h : IsSteady c growth) (hone : 1 ≤ level) (hlast : level ≤ greatest)
    (hfits : ¬Overflows c growth level) :
    ∃ exp, effective c growth (.int level) = .ok exp ∧ InRange exp := by
  have hat := atLevel_inRange h hone hlast
  obtain ⟨usual, husual, hrange⟩ := ofDefault_inRange hone
  cases h with
  | @formulas c growth h =>
    rw [effective_of_segments (hasSegments_of_isLegible h)]
    rcases hat with hat | ⟨exp, hat, hexp⟩
    · rw [hat]
      exact ⟨usual, husual, hrange⟩
    · rw [hat]
      exact ⟨exp, rfl, hexp⟩
  | growth hc hgrowth =>
    rw [effective_of_no_segments hc]
    cases growth with
    | none => exact ⟨usual, husual, hrange⟩
    | some g =>
      exact ofGrowth_inRange (hgrowth g rfl) hone hlast fun h => hfits ⟨hc, g, rfl, h⟩

theorem next_inRange (h : IsSteady c growth) (hone : 1 ≤ level) (hlast : level ≤ greatest)
    (hfits : ¬Overflows c growth level) :
    ∃ need, next c growth (.int level) = .ok need ∧ 0 ≤ need ∧ need ≤ greatest := by
  obtain ⟨exp, hexp, hlow, hhigh⟩ := effective_inRange h hone hlast hfits
  have hpositive := greatest_pos
  refine ⟨max 0 exp, ?_, Int.le_max_left 0 exp, by omega⟩
  unfold next
  rw [hexp]
  rfl

theorem next_of_overflows (h : IsSteady c growth) (hover : Overflows c growth level) :
    next c growth (.int level) = .error (.arithmetic .integerTooLarge) := by
  obtain ⟨hc, g, rfl, hover⟩ := hover
  have hg : g.IsFinite := by
    cases h with
    | formulas growth h =>
      have hsegments := (hasSegments_of_isLegible h).symm.trans (hc _ rfl)
      cases hsegments
    | growth hc hgrowth => exact hgrowth g rfl
  unfold next
  rw [effective_of_no_segments hc]
  unfold ofGrowth?
  dsimp only
  rw [ofGrowth_overflows hg hover]
  rfl

/-- Steady requirements are defined at every level within the range and lie within it, unless the
growth overflows there. Where they are defined ahead of a character, no grant fails. -/
theorem defined_and_granted (h : IsSteady c growth) :
    (∀ level, 1 ≤ level → level ≤ greatest →
      (atLevel c (.int level) = .ok none ∨
        ∃ exp, atLevel c (.int level) = .ok (some exp) ∧ InRange exp) ∧
      (¬Overflows c growth level →
        ∃ need, next c growth (.int level) = .ok need ∧ 0 ≤ need ∧ need ≤ greatest) ∧
      (Overflows c growth level →
        next c growth (.int level) = .error (.arithmetic .integerTooLarge))) ∧
    ∀ (s : Progression) (exp need maxLevel amount : Int), s.Counts exp need maxLevel →
      maxLevel ≤ greatest → 0 ≤ amount →
      (∀ level, s.level < level → level ≤ maxLevel → ¬Overflows c growth level) →
      ∃ r, s.grant c growth (.int amount) = .ok r := by
  constructor
  · intro level hone hlast
    exact ⟨atLevel_inRange h hone hlast, next_inRange h hone hlast, next_of_overflows h⟩
  · intro s exp need maxLevel amount hcounts hlast hamount hfits
    have hone := s.one_le_level
    refine Progression.exists_grant c growth s hcounts hamount ?_
    intro level habove hmax
    obtain ⟨need, hneed, -⟩ := next_inRange h (by omega) (by omega) (hfits level habove hmax)
    exact ⟨need, hneed⟩

/-- A formula that divides by zero on the way. -/
theorem defined_and_granted_division :
    let c : Curve := ⟨[⟨⟨"seg1", .int 1, .int 10⟩, "60/(x-5)"⟩], [], false, none⟩
    let s : Progression := ⟨1, .int 0, .int 10, .int 10, by decide, rfl, rfl⟩
    IsSteady (some c) none ∧
      (∃ need, next (some c) none (.int 5) = .ok need ∧ 0 ≤ need ∧ need ≤ greatest) ∧
      ∃ r, s.grant (some c) none (.int 1000) = .ok r := by
  intro c s
  have hpositional : Positional "60/(x-5)".toList := by decide +kernel
  have hlegible : c.IsLegible := by
    refine ⟨rfl, List.cons_ne_nil _ _, ?_⟩
    intro segment hsegment failure hfailure
    obtain rfl := List.mem_singleton.1 hsegment
    exact (Expr.ofText_error hfailure).resolve_right fun h => h.1 hpositional
  have hsteady : IsSteady (some c) none := .formulas none hlegible
  have hlast : (10 : Int) ≤ greatest := by decide +kernel
  have hfits (level : Int) : ¬Overflows (some c) none level := by
    rintro ⟨-, g, hg, -⟩
    cases hg
  obtain ⟨hlevels, hgrants⟩ := defined_and_granted hsteady
  exact ⟨hsteady, (hlevels 5 (by decide) (by omega)).2.1 (hfits 5),
    hgrants s 0 10 10 1000 ⟨rfl, rfl, rfl⟩ hlast (by decide) fun level _ _ => hfits level⟩

/-- A linear growth with the usual coefficients, at a level within the range. -/
theorem linear_overflow :
    let g : Growth := ⟨.linear, Growth.usual.a, Growth.usual.b⟩
    let level : Int := 10 ^ (307 : Nat)
    g.IsFinite ∧ 1 ≤ level ∧ level ≤ greatest ∧
      next none (some g) (.int level) = .error (.arithmetic .integerTooLarge) := by
  intro g level
  have hfinite : g.IsFinite := ⟨Or.inl rfl, Or.inl rfl⟩
  have hsteady : IsSteady none (some g) := by
    refine .growth (fun curve hcurve => nomatch hcurve) ?_
    intro g' hg'
    obtain rfl := Option.some.inj hg'
    exact hfinite
  have hproduct : ofInt? (100 * level) = .error .integerTooLarge := by decide +kernel
  have hover : Overflows none (some g) level :=
    ⟨(fun curve hcurve => nomatch hcurve), g, rfl, rfl, rfl, hproduct⟩
  exact ⟨hfinite, by decide +kernel, by decide +kernel, next_of_overflows hsteady hover⟩

end Requirement

end ExperienceCurves
