import ExperienceCurves.Proofs.BezierProgress
import ExperienceCurves.Proofs.Runs

/-!
Grants of any numbers, whole or binary, infinite or NaN. As long as the experience has an order,
every grant is refused or settles the state: the experience is at least zero, and it is either below
the requirement or none at the maximum. Two amounts escape the check for negative ones. NaN is taken
and the experience is NaN from then on, and a whole amount beyond the range of binary numbers cannot
be added to an experience that is binary.
-/
namespace ExperienceCurves

open Binary64

/-- A sum of numbers that are not below zero has an order unless one of them has none. -/
theorem Binary64.isNan_sum {x y : Binary64} (hx : x.lt 0 = false) (hy : y.lt 0 = false) :
    (x + y).isNan = (x.isNan || y.isNan) := by
  cases hxnan : x.isNan with
  | true =>
    cases x with
    | nan => cases y <;> rfl
    | infinite negative => cases hxnan
    | finite negative mantissa exponent hcanonical => cases hxnan
  | false =>
    cases hynan : y.isNan with
    | true =>
      cases y with
      | nan => cases x <;> rfl
      | infinite negative => cases hynan
      | finite negative mantissa exponent hcanonical => cases hynan
    | false => exact isNan_add_of_nonneg hxnan hynan hx hy

namespace Number

variable {m n total : Number}

theorem eq_nan_of_isNan (h : m.isNan = true) : m = .real .nan := by
  cases m with
  | truth b => cases h
  | int i => cases h
  | real x =>
    cases x with
    | nan => rfl
    | infinite negative => cases h
    | finite negative mantissa exponent hcanonical => cases h

theorem isNan_of_plain {i : Int} (hm : m.plain = .int i) : m.isNan = false := by
  cases m with
  | truth b => rfl
  | int j => rfl
  | real x => cases hm

/-- A number has a sum with one that has a binary number, unless it is too large for the binary one
that it meets. -/
theorem exists_add (hm : ∃ x, m.toBinary64 = .ok x)
    (hn : ¬(m.IsReal ∧ n.toBinary64 = .error .integerTooLarge)) : ∃ total, m.add n = .ok total := by
  obtain ⟨x, hx⟩ := hm
  rcases plain_cases n with ⟨j, hj⟩ | ⟨y, rfl, -⟩
  · rcases plain_cases m with ⟨i, hi⟩ | ⟨z, rfl, -⟩
    · refine ⟨.int (i + j), ?_⟩
      unfold add combine
      rw [hi, hj]
    · cases hy : n.toBinary64 with
      | ok y =>
        have hsame : real z = real x := congrArg real (Except.ok.inj hx)
        exact ⟨.real (x + y), combine_binary hx hy (Or.inl hsame)⟩
      | error fault =>
        have hlarge : ofInt? j = .error fault := by
          unfold toBinary64 at hy
          rwa [hj] at hy
        obtain rfl := ofInt?_error hlarge
        exact absurd ⟨⟨z, rfl⟩, hy⟩ hn
  · exact ⟨.real (x + y), add_real hx y⟩

theorem add_error {fault : Fault} (hm : m.IsReal) (hn : n.toBinary64 = .error fault) :
    m.add n = .error fault := by
  obtain ⟨x, rfl⟩ := hm
  rw [add, combine_eq (Or.inl ⟨x, rfl⟩), hn]
  rfl

theorem isNan_toBinary64 {x : Binary64} (hx : m.toBinary64 = .ok x) : x.isNan = m.isNan := by
  cases m with
  | truth b => exact isNan_of_isFinite (isInteger_of_ofInt? hx).1.isFinite
  | int i => exact isNan_of_isFinite (isInteger_of_ofInt? hx).1.isFinite
  | real y =>
    obtain rfl := Except.ok.inj hx
    rfl

theorem isNan_add (hm : m.lt 0 = false) (hn : n.lt 0 = false) (h : m.add n = .ok total) :
    total.isNan = (m.isNan || n.isNan) := by
  have hrounded (hreal : (∃ x, m = .real x) ∨ ∃ y, n = .real y) :
      total.isNan = (m.isNan || n.isNan) := by
    rw [add, combine_eq hreal] at h
    obtain ⟨x, hx, h⟩ := Outcome.bind_eq_ok_iff.1 h
    obtain ⟨y, hy, h⟩ := Outcome.bind_eq_ok_iff.1 h
    obtain rfl := Except.ok.inj h
    rw [← isNan_toBinary64 hx, ← isNan_toBinary64 hy]
    exact Binary64.isNan_sum (not_lt_zero_toBinary64 hm hx) (not_lt_zero_toBinary64 hn hy)
  rcases plain_cases m with ⟨i, hi⟩ | ⟨x, rfl, -⟩
  · rcases plain_cases n with ⟨j, hj⟩ | ⟨y, rfl, -⟩
    · unfold add combine at h
      rw [hi, hj] at h
      obtain rfl := Except.ok.inj h
      rw [isNan_of_plain hi, isNan_of_plain hj]
      rfl
    · exact hrounded (Or.inr ⟨y, rfl⟩)
  · exact hrounded (Or.inl ⟨x, rfl⟩)

/-- What does not cover a requirement has a binary number. -/
theorem exists_toBinary64 {need : Int} (hlow : m.lt 0 = false) (hneed : need ≤ Requirement.greatest)
    (h : (Number.int need).le m = false) : ∃ x, m.toBinary64 = .ok x := by
  rcases plain_cases m with ⟨i, hi⟩ | ⟨x, rfl, -⟩
  · have hgreatest : Requirement.greatest = (Binary64.greatest : Int) := rfl
    rw [not_lt_zero_iff hi] at hlow
    have hwhole : (int need).le m = (int need).le (int i) := by
      unfold le lt eq
      rw [hi]
      rfl
    rw [hwhole, le_int, decide_eq_false_iff_not] at h
    refine ⟨ofInt i, ?_⟩
    unfold toBinary64
    rw [hi]
    exact ofInt?_eq_ok (by omega)
  · exact ⟨x, rfl⟩

end Number

namespace Progression

variable {s : Progression} {maxLevel : Int}

/-- Below the last level a climb ends where the experience does not cover the requirement, which
stays within the range. By induction on the levels that are left. -/
theorem climb_ends {requirement : Int → Outcome Int}
    (hrequirement : ∀ level next, requirement level = .ok next →
      0 ≤ next ∧ next ≤ Requirement.greatest)
    {levels : Nat} {stand out : Stand} {need : Int} (hneed : stand.expToNext = .int need)
    (hlow : 0 ≤ need) (hhigh : need ≤ Requirement.greatest)
    (h : climb requirement levels stand = .ok out) :
    out.level ≤ stand.level + levels ∧ ∃ last : Int, out.expToNext = .int last ∧ 0 ≤ last ∧
      last ≤ Requirement.greatest ∧
      (out.level < stand.level + levels → (Number.int last).le out.exp = false) := by
  induction levels generalizing stand need with
  | zero =>
    obtain rfl := Except.ok.inj h
    exact ⟨by omega, need, hneed, hlow, hhigh, by omega⟩
  | succ levels ih =>
    rw [climb_succ requirement levels hneed] at h
    split at h
    · obtain ⟨rest, -, h⟩ := Outcome.bind_eq_ok_iff.1 h
      obtain ⟨next, hnext, h⟩ := Outcome.bind_eq_ok_iff.1 h
      obtain ⟨hnextLow, hnextHigh⟩ := hrequirement (stand.level + 1) next hnext
      obtain ⟨hlast, last, hneed', hlow', hhigh', hbelow⟩ := ih rfl hnextLow hnextHigh h
      dsimp only at hlast hbelow
      exact ⟨by omega, last, hneed', hlow', hhigh', fun hout => hbelow (by omega)⟩
    · next huncovered =>
      obtain rfl := Except.ok.inj h
      exact ⟨by omega, need, hneed, hlow, hhigh, fun _ => Bool.not_eq_true _ ▸ huncovered⟩

/-- An experience without an order pays for nothing. -/
theorem climb_nan (requirement : Int → Outcome Int) (levels : Nat) {stand : Stand} {need : Int}
    (hneed : stand.expToNext = .int need) (hexp : stand.exp.isNan = true) :
    climb requirement levels stand = .ok stand := by
  cases levels with
  | zero => rfl
  | succ levels =>
    have huncovered : ¬(Number.int need).le stand.exp = true := by
      rw [Number.eq_nan_of_isNan hexp]
      exact Bool.false_ne_true
    rw [climb_succ requirement levels hneed, if_neg huncovered]

/-- Any number of experience, with the requirements that are in effect when it is granted. -/
structure Award where
  curve : Option Curve
  growth : Option Growth
  amount : Number

/-- What an award to a state comes to. -/
def Award.outcome (a : Award) (s : Progression) : Outcome LevelUp :=
  s.grant a.curve a.growth a.amount

/-- The state after an award, which is the same if the award fails. -/
def awarded (s : Progression) (a : Award) : Progression :=
  match a.outcome s with
  | .ok r => r.state
  | .error _ => s

def awardedAll (s : Progression) (awards : List Award) : Progression := awards.foldl awarded s

/-- What every award keeps: the maximum is whole, the requirement is whole and within the range, the
experience has a binary number, and there is none at the maximum. -/
structure Measured (maxLevel : Int) (s : Progression) : Prop where
  maxLevel_eq : s.maxLevel = .int maxLevel
  expToNext : ∃ need : Int, s.expToNext = .int need ∧ 0 ≤ need ∧ need ≤ Requirement.greatest
  exp : ∃ x, s.exp.toBinary64 = .ok x
  exp_of_capped : s.isCapped = true → s.exp = .int 0

/-- The experience is at least zero. At the maximum there is none, and below it does not cover the
requirement. -/
def IsSettled (s : Progression) : Prop :=
  (0 : Number).le s.exp = true ∧
    (s.isCapped = true ∧ s.exp = .int 0 ∨
      s.isCapped = false ∧ ∃ need : Int, s.expToNext = .int need ∧ s.exp.lt (.int need) = true)

/-- Below the maximum an amount counts, and its sum with the experience has no order. -/
def LosesOrder (s : Progression) (amount : Number) : Prop :=
  s.isCapped = false ∧ (s.exp.isNan = true ∨ amount.isNan = true)

/-- Below the maximum an amount counts, and a whole one is too large for the experience that it is
added to. -/
def CannotAdd (s : Progression) (amount : Number) : Prop :=
  s.isCapped = false ∧ s.exp.IsReal ∧ amount.toBinary64 = .error .integerTooLarge

/-- What an award does to a state. -/
structure Receives (maxLevel : Int) (s : Progression) (a : Award) : Prop where
  refused : a.amount.lt 0 = true →
    a.outcome s = .error (Failure.refused (.negativeGrant a.amount)).written
  unaddable : a.amount.lt 0 = false → s.CannotAdd a.amount →
    a.outcome s = .error (.arithmetic .integerTooLarge)
  granted : a.amount.lt 0 = false → ¬s.CannotAdd a.amount →
    (∀ level, s.level < level → level ≤ maxLevel →
      ∃ need, Requirement.next a.curve a.growth (.int level) = .ok need) →
    ∃ r, a.outcome s = .ok r
  settled : ∀ r, a.outcome s = .ok r → ¬s.LosesOrder a.amount → r.state.IsSettled
  lost : ∀ r, a.outcome s = .ok r → s.LosesOrder a.amount →
    r.state.exp.isNan = true ∧ r.state.level = s.level

namespace Measured

theorem isCapped_iff (h : s.Measured maxLevel) : s.isCapped = true ↔ maxLevel ≤ s.level := by
  rw [isCapped, h.maxLevel_eq, Number.le_int, decide_eq_true_eq]

theorem level_le (h : s.Measured maxLevel) : s.level ≤ maxLevel := by
  have hlevel := s.level_le_maxLevel
  rwa [h.maxLevel_eq, Number.le_int, decide_eq_true_eq] at hlevel

/-- What a grant below the maximum leads to, when the climb with the sum has ended. -/
theorem of_climb {c : Option Curve} {growth : Option Growth} {total : Number} {stand : Stand}
    {t : Progression} (h : s.Measured maxLevel) (hcapped : s.isCapped = false)
    (hclimb : climb (fun level => Requirement.next c growth (.int level))
      (levelsLeft s.level s.maxLevel) ⟨s.level, total, s.expToNext, 0⟩ = .ok stand)
    (hmake : make stand.level stand.exp stand.expToNext s.maxLevel = .ok t) :
    t.Measured maxLevel ∧ (total.isNan = false → t.IsSettled) ∧
      (total.isNan = true → t.exp.isNan = true ∧ t.level = s.level) := by
  obtain ⟨need, hneed, hlow, hhigh⟩ := h.expToNext
  obtain ⟨htlevel, htexp, htneed, htmax⟩ := make_eq_ok hmake
  have hbelow : s.level < maxLevel := by
    rw [← Bool.not_eq_true, h.isCapped_iff] at hcapped
    omega
  have hlevels : levelsLeft s.level s.maxLevel = (maxLevel - s.level).toNat := by
    rw [h.maxLevel_eq]
    rfl
  rw [hlevels] at hclimb
  obtain ⟨-, hgone⟩ := climb_level hclimb
  obtain ⟨-, last, hlast, hlastLow, hlastHigh, huncovered⟩ := climb_ends
    (fun level next hnext => ⟨Requirement.next_nonneg hnext, Requirement.next_le hnext⟩)
    hneed hlow hhigh hclimb
  dsimp only at hgone huncovered
  have hcap : t.isCapped = true ↔ maxLevel ≤ stand.level := by
    rw [isCapped, htmax, h.maxLevel_eq, Number.le_int, decide_eq_true_eq, htlevel]
  -- At the maximum the experience is gone, and below it the climb has ended before
  have hnone (hmax : t.isCapped = true) : t.exp = .int 0 := by
    rw [hcap] at hmax
    rw [htexp]
    exact hgone (by omega) (by omega)
  have hsome (hmax : t.isCapped = false) : (Number.int last).le t.exp = false := by
    rw [← Bool.not_eq_true, hcap] at hmax
    rw [htexp]
    exact huncovered (by omega)
  have hmeasured : t.Measured maxLevel := by
    refine ⟨htmax.trans h.maxLevel_eq, ⟨last, htneed.trans hlast, hlastLow, hlastHigh⟩, ?_, hnone⟩
    cases hmax : t.isCapped with
    | true =>
      rw [hnone hmax]
      exact ⟨0, rfl⟩
    | false => exact Number.exists_toBinary64 t.exp_not_negative hlastHigh (hsome hmax)
  refine ⟨hmeasured, ?_, ?_⟩
  · intro hnan
    have horder : t.exp.isNan = false := by
      rw [htexp]
      exact climb_isNan hnan ⟨need, hneed⟩ hclimb
    refine ⟨Number.le_of_not_lt horder rfl t.exp_not_negative, ?_⟩
    cases hmax : t.isCapped with
    | true => exact Or.inl ⟨rfl, hnone hmax⟩
    | false =>
      exact Or.inr ⟨rfl, last, htneed.trans hlast, Number.lt_of_not_le rfl horder (hsome hmax)⟩
  · intro hnan
    rw [climb_nan _ _ hneed hnan] at hclimb
    obtain rfl := Except.ok.inj hclimb
    rw [htexp, htlevel]
    exact ⟨hnan, rfl⟩

/-- What a grant that succeeds leads to. -/
theorem grant {c : Option Curve} {growth : Option Growth} {amount : Number} {r : LevelUp}
    (h : s.Measured maxLevel) (hr : s.grant c growth amount = .ok r) :
    r.state.Measured maxLevel ∧ (¬s.LosesOrder amount → r.state.IsSettled) ∧
      (s.LosesOrder amount → r.state.exp.isNan = true ∧ r.state.level = s.level) := by
  obtain ⟨hamount, ⟨hcapped, hmake⟩ | ⟨hcapped, total, stand, hsum, hclimb, hmake⟩⟩ :=
    grant_cases hr
  · obtain ⟨hlevel, hexp, hneed, hmax⟩ := make_eq_ok hmake
    have hsame : r.state = s :=
      eq_of_fields hlevel (hexp.trans (h.exp_of_capped hcapped).symm) hneed hmax
    rw [hsame]
    refine ⟨h, fun _ => ⟨?_, Or.inl ⟨hcapped, h.exp_of_capped hcapped⟩⟩, fun hloses => ?_⟩
    · rw [h.exp_of_capped hcapped]
      rfl
    · cases hcapped.symm.trans hloses.1
  · obtain ⟨hmeasured, hsettled, hlost⟩ := h.of_climb hcapped hclimb hmake
    have hnan : total.isNan = true ↔ s.exp.isNan = true ∨ amount.isNan = true := by
      rw [Number.isNan_add s.exp_not_negative hamount hsum, Bool.or_eq_true]
    refine ⟨hmeasured, fun hkeeps => hsettled ?_, fun hloses => hlost (hnan.2 hloses.2)⟩
    rw [← Bool.not_eq_true, hnan]
    exact fun hloses => hkeeps ⟨hcapped, hloses⟩

/-- An amount that can be added is granted where the requirements ahead are defined. -/
theorem exists_grant {c : Option Curve} {growth : Option Growth} {amount : Number}
    (h : s.Measured maxLevel) (hamount : amount.lt 0 = false) (hadd : ¬s.CannotAdd amount)
    (hrequirement : ∀ level, s.level < level → level ≤ maxLevel →
      ∃ need, Requirement.next c growth (.int level) = .ok need) :
    ∃ r, s.grant c growth amount = .ok r := by
  obtain ⟨need, hneed, hlow, hhigh⟩ := h.expToNext
  have hlevel := h.level_le
  cases hcapped : s.isCapped with
  | true => exact exists_grant_of_capped h.maxLevel_eq hamount hcapped
  | false =>
    obtain ⟨total, hsum⟩ := Number.exists_add (n := amount) h.exp fun hlarge =>
      hadd ⟨hcapped, hlarge⟩
    rcases grant_defined s h.maxLevel_eq hneed hlow hhigh hamount hsum with
      hgranted | ⟨failure, -, level, habove, hlast, hfails⟩
    · exact hgranted
    · obtain ⟨need, hneed⟩ := hrequirement level habove hlast
      cases hneed.symm.trans hfails

/-- One award keeps the measure, and is received as it should be. -/
theorem step (h : s.Measured maxLevel) (a : Award) :
    (s.awarded a).Measured maxLevel ∧ Receives maxLevel s a := by
  have hrefused (hamount : a.amount.lt 0 = true) :
      a.outcome s = .error (Failure.refused (.negativeGrant a.amount)).written := by
    unfold Award.outcome Progression.grant
    rw [if_pos hamount]
    rfl
  have hunaddable (hamount : a.amount.lt 0 = false) (hlarge : s.CannotAdd a.amount) :
      a.outcome s = .error (.arithmetic .integerTooLarge) := by
    unfold Award.outcome Progression.grant
    rw [hamount, hlarge.1, if_neg Bool.false_ne_true, if_neg Bool.false_ne_true,
      Number.add_error hlarge.2.1 hlarge.2.2]
    rfl
  refine ⟨?_, hrefused, hunaddable, h.exists_grant, fun r hr => (h.grant hr).2.1,
    fun r hr => (h.grant hr).2.2⟩
  unfold awarded
  cases hr : a.outcome s with
  | error failure => exact h
  | ok r => exact (h.grant hr).1

/-- Only NaN takes the order from the experience. -/
theorem isNan_awarded (h : s.Measured maxLevel) (a : Award) (hexp : s.exp.isNan = false)
    (hamount : a.amount.isNan = false) : (s.awarded a).exp.isNan = false := by
  have hkeeps : ¬s.LosesOrder a.amount := by
    intro hloses
    rcases hloses.2 with hnan | hnan
    · cases hexp.symm.trans hnan
    · cases hamount.symm.trans hnan
  unfold awarded
  cases hr : a.outcome s with
  | error failure => exact hexp
  | ok r =>
    obtain ⟨hexp', -⟩ := (h.grant hr).2.1 hkeeps
    exact Number.isNan_of_le hexp'

theorem awardedAll (h : s.Measured maxLevel) (awards : List Award) :
    (s.awardedAll awards).Measured maxLevel := by
  induction awards generalizing s with
  | nil => exact h
  | cons a awards ih => exact ih (h.step a).1

theorem isNan_awardedAll (h : s.Measured maxLevel) (awards : List Award)
    (hexp : s.exp.isNan = false) (hamounts : ∀ a ∈ awards, a.amount.isNan = false) :
    (s.awardedAll awards).exp.isNan = false := by
  induction awards generalizing s with
  | nil => exact hexp
  | cons a awards ih =>
    have hfirst := h.isNan_awarded a hexp (hamounts a (List.mem_cons_self ..))
    exact ih (h.step a).1 hfirst fun b hb => hamounts b (List.mem_cons_of_mem a hb)

end Measured

theorem measured_of_new {c : Option Curve} {growth : Option Growth}
    (h : new c (.int maxLevel) growth = .ok s) : s.Measured (max 1 maxLevel) := by
  have hpositive := Requirement.greatest_pos
  have hmade {need top : Int} (hmake : make 1 0 (.int need) (.int top) = .ok s)
      (hlow : 0 ≤ need) (hhigh : need ≤ Requirement.greatest) : s.Measured top := by
    obtain ⟨-, hexp, hneed, hmax⟩ := make_eq_ok hmake
    refine ⟨hmax, ⟨need, hneed, hlow, hhigh⟩, ⟨0, ?_⟩, fun _ => hexp⟩
    rw [hexp]
    rfl
  obtain ⟨least, hleast, h⟩ := Outcome.bind_eq_ok_iff.1 h
  have hholds : (Datum.int maxLevel).holds .atMost (.int 1) = .ok (decide (maxLevel ≤ 1)) :=
    congrArg Except.ok (Number.le_int maxLevel 1)
  obtain rfl := Except.ok.inj (hholds.symm.trans (Outcome.liftM_eq_ok_iff.1 hleast))
  split at h
  · have hmax : Number.max 1 (.int maxLevel) = .int (max 1 maxLevel) := Number.max_int 1 maxLevel
    change make 1 0 (.int 0) (Number.max 1 (.int maxLevel)) = .ok s at h
    rw [hmax] at h
    exact hmade h le_rfl (by omega)
  · next habove =>
    obtain ⟨need, hneed, h⟩ := Outcome.bind_eq_ok_iff.1 h
    rw [decide_eq_true_eq] at habove
    rw [max_eq_right (by omega)]
    exact hmade h (Requirement.next_nonneg hneed) (Requirement.next_le hneed)

/-- Along every run from a new character, whatever numbers are granted: the experience has an order
unless NaN was granted, and the next award is refused, or cannot be added, or settles the state,
unless the experience has no order or the amount is NaN. In that case the award is taken, and the
level and every later one are lost. -/
theorem awards_settle_unless_nan (c : Option Curve) (growth : Option Growth) (maxLevel : Int)
    (hfirst : 1 < maxLevel → ∃ need, Requirement.next c growth (.int 1) = .ok need) :
    ∃ start, new c (.int maxLevel) growth = .ok start ∧
      ∀ (past : List Award) (a : Award),
        ((∀ b ∈ past, b.amount.isNan = false) → (start.awardedAll past).exp.isNan = false) ∧
          Receives (max 1 maxLevel) (start.awardedAll past) a := by
  obtain ⟨start, hnew, -⟩ := new_sound c growth maxLevel hfirst
  have hmeasured := measured_of_new hnew
  refine ⟨start, hnew, ?_⟩
  intro past a
  have hexp : start.exp.isNan = false := by
    rw [(isNew_of_new hnew).2]
    rfl
  exact ⟨hmeasured.isNan_awardedAll past hexp, ((hmeasured.awardedAll past).step a).2⟩

/-- Free first levels, and a maximum at the fifth. -/
theorem awards_settle_unless_nan_linear :
    let growth : Growth := ⟨.linear, .int 10, .int (-20)⟩
    (1 < (5 : Int) → ∃ need, Requirement.next none (some growth) (.int 1) = .ok need) ∧
      ∃ start, new none (.int 5) (some growth) = .ok start ∧
        ∀ (past : List Award) (a : Award),
          ((∀ b ∈ past, b.amount.isNan = false) → (start.awardedAll past).exp.isNan = false) ∧
            Receives (max 1 5) (start.awardedAll past) a := by
  intro growth
  have hfirst : 1 < (5 : Int) →
      ∃ need, Requirement.next none (some growth) (.int 1) = .ok need := fun _ =>
    ⟨_, Requirement.next_linear 10 (-20) 1⟩
  exact ⟨hfirst, awards_settle_unless_nan none (some growth) 5 hfirst⟩

/-- NaN is taken by a new character, and ten times its requirement after that gains no level. A
whole amount beyond the range of binary numbers is not refused either, but cannot be added to half a
point. -/
theorem nan_award_taken :
    let start : Progression := ⟨1, .int 0, .int 100, .int 100, by decide, rfl, rfl⟩
    let nothing : Award := ⟨none, none, .real .nan⟩
    let much : Award := ⟨none, none, .int 1000⟩
    let half : Award := ⟨none, none, .real (decimal 5 1)⟩
    let huge : Award := ⟨none, none, .int (10 ^ (400 : Nat))⟩
    new none (.int 100) none = .ok start ∧
      (∃ r, nothing.outcome start = .ok r ∧ r.state.exp = .real .nan ∧ ¬r.state.IsSettled) ∧
      (start.awardedAll [nothing, much]).level = 1 ∧ (start.awarded much).level = 5 ∧
      huge.outcome (start.awarded half) = .error (.arithmetic .integerTooLarge) := by
  intro start nothing much half huge
  have hneed : Requirement.next none none (.int 1) = .ok 100 :=
    Outcome.eq_ok_of_toOption (by decide +kernel)
  have hcounts : start.Counts 0 100 100 := ⟨rfl, rfl, rfl⟩
  have hmax : (1 : Int) < 100 := by decide
  obtain ⟨start', hnew, hlevel, hcounts'⟩ := new_counts none none hmax hneed
  rw [hcounts'.eq_of_level_eq hcounts hlevel] at hnew
  have hstart : start.Measured 100 := measured_of_new hnew
  obtain ⟨r, hr⟩ := Outcome.exists_of_isOk (x := nothing.outcome start) (by decide +kernel)
  have hexp : r.state.exp = .real .nan :=
    Number.eq_nan_of_isNan ((hstart.step nothing).2.lost r hr ⟨by decide +kernel, Or.inr rfl⟩).1
  have hunsettled : ¬r.state.IsSettled := by
    intro hsettled
    have hlow := hsettled.1
    rw [hexp] at hlow
    cases hlow
  have hlarge : (start.awarded half).CannotAdd huge.amount :=
    ⟨by decide +kernel, ⟨decimal 5 1, by decide +kernel⟩, by decide +kernel⟩
  exact ⟨hnew, ⟨r, hr, hexp, hunsettled⟩, by decide +kernel, by decide +kernel,
    ((hstart.step half).1.step huge).2.unaddable (by decide +kernel) hlarge⟩

end Progression

end ExperienceCurves
