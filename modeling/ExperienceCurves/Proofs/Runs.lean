import ExperienceCurves.Proofs.Grants

/-!
Runs of grants to one character. Each grant brings the curve and the growth that are in effect at
its time, and one that fails leaves the state as it was. Soundness of the state is what every grant
keeps, whatever the requirements were before it, and a sound state only ever moves forward.
-/
namespace ExperienceCurves.Progression

/-- An amount of experience with the requirements that are in effect when it is granted. -/
structure Grant where
  curve : Option Curve
  growth : Option Growth
  amount : Int

/-- What a grant to a state comes to. -/
def Grant.outcome (g : Grant) (s : Progression) : Outcome LevelUp :=
  s.grant g.curve g.growth (.int g.amount)

/-- The state after a grant, which is the same if the grant fails. -/
def after (s : Progression) (g : Grant) : Progression :=
  match g.outcome s with
  | .ok r => r.state
  | .error _ => s

def run (s : Progression) (grants : List Grant) : Progression := grants.foldl after s

/-- The state is in bounds, counts in whole numbers and holds no experience at the maximum. -/
structure Sound (maxLevel : Int) (s : Progression) : Prop where
  maxLevel_eq : s.maxLevel = .int maxLevel
  one_le_level : 1 ≤ s.level
  level_le : s.level ≤ maxLevel
  exp_nonneg : ∃ exp : Int, 0 ≤ exp ∧ s.exp = .int exp
  expToNext_whole : ∃ need : Int, s.expToNext = .int need
  exp_of_capped : s.isCapped = true → s.exp = .int 0

/-- What a grant may do to a state: it fails if it is negative and succeeds if it is not and the
requirements of the levels ahead are defined; if it succeeds, levels are only gained, the maximum is
never left, and below it the experience does not cover the requirement. -/
structure Advances (maxLevel : Int) (g : Grant) (s : Progression) : Prop where
  refused : g.amount < 0 →
    g.outcome s = .error (Failure.refused (.negativeGrant (.int g.amount))).written
  granted : 0 ≤ g.amount →
    (∀ level, s.level < level → level ≤ maxLevel →
      ∃ need, Requirement.next g.curve g.growth (.int level) = .ok need) →
    ∃ r, g.outcome s = .ok r
  level_le : s.level ≤ (s.after g).level
  capped : s.isCapped = true → (s.after g).isCapped = true
  levelsGained_eq : ∀ r, g.outcome s = .ok r → r.levelsGained = r.state.level - s.level
  exp_lt : ∀ r, g.outcome s = .ok r → r.state.isCapped = false →
    ∃ exp need : Int, r.state.exp = .int exp ∧ r.state.expToNext = .int need ∧ exp < need

variable {s : Progression} {maxLevel : Int}

theorem Sound.exists_counts (h : s.Sound maxLevel) : ∃ exp need, s.Counts exp need maxLevel := by
  obtain ⟨exp, -, hexp⟩ := h.exp_nonneg
  obtain ⟨need, hneed⟩ := h.expToNext_whole
  exact ⟨exp, need, hexp, hneed, h.maxLevel_eq⟩

theorem Counts.sound {exp need : Int} (h : s.Counts exp need maxLevel)
    (hcapped : maxLevel ≤ s.level → exp = 0) : s.Sound maxLevel where
  maxLevel_eq := h.maxLevel_eq
  one_le_level := s.one_le_level
  level_le := h.level_le
  exp_nonneg := ⟨exp, h.exp_nonneg, h.exp_eq⟩
  expToNext_whole := ⟨need, h.expToNext_eq⟩
  exp_of_capped hcap := by rw [h.exp_eq, hcapped (h.isCapped_iff.1 hcap)]

/-- A new character with levels to gain starts from the requirement of the first one. -/
theorem new_counts (c : Option Curve) (growth : Option Growth) {need : Int} (hmax : 1 < maxLevel)
    (hneed : Requirement.next c growth (.int 1) = .ok need) :
    ∃ start, new c (.int maxLevel) growth = .ok start ∧ start.level = 1 ∧
      start.Counts 0 need maxLevel := by
  have hholds : (Datum.int maxLevel).holds .atMost (.int 1) = .ok (decide (maxLevel ≤ 1)) :=
    congrArg Except.ok (Number.le_int maxLevel 1)
  obtain ⟨start, hmake, hlevel, hcounts⟩ := make_int 1 0 need maxLevel le_rfl (by omega) le_rfl
  refine ⟨start, ?_, hlevel, hcounts⟩
  rw [new, hholds, decide_eq_false (by omega), Number.one_eq, hneed]
  exact hmake

/-- A new character is sound. Without a level to gain its maximum is the first level. -/
theorem new_sound (c : Option Curve) (growth : Option Growth) (maxLevel : Int)
    (hfirst : 1 < maxLevel → ∃ need, Requirement.next c growth (.int 1) = .ok need) :
    ∃ start, new c (.int maxLevel) growth = .ok start ∧ start.level = 1 ∧
      start.Sound (max 1 maxLevel) := by
  by_cases hmax : 1 < maxLevel
  · obtain ⟨need, hneed⟩ := hfirst hmax
    obtain ⟨start, hnew, hlevel, hcounts⟩ := new_counts c growth hmax hneed
    refine ⟨start, hnew, hlevel, ?_⟩
    rw [max_eq_right (by omega)]
    exact hcounts.sound fun _ => rfl
  · have hholds : (Datum.int maxLevel).holds .atMost (.int 1) = .ok (decide (maxLevel ≤ 1)) :=
      congrArg Except.ok (Number.le_int maxLevel 1)
    obtain ⟨start, hmake, hlevel, hcounts⟩ := make_int 1 0 0 1 le_rfl le_rfl le_rfl
    have hone : Number.max 1 (.int maxLevel) = .int 1 := by
      rw [Number.max, Number.one_eq, Number.lt_int, decide_eq_false (by omega)]
      rfl
    refine ⟨start, ?_, hlevel, ?_⟩
    · rw [new, hholds, decide_eq_true (by omega)]
      change make 1 0 (.int 0) (Number.max 1 (.int maxLevel)) = _
      rw [hone]
      exact hmake
    · rw [max_eq_left (by omega)]
      exact hcounts.sound fun _ => rfl

/-- A grant that succeeds, in the terms of the levels that it gains. -/
theorem exists_gain {c : Option Curve} {growth : Option Growth} {amount : Int} {r : LevelUp}
    (h : s.Sound maxLevel) (hr : s.grant c growth (.int amount) = .ok r) :
    ∃ (k : ℕ) (exp need : Int), r.levelsGained = k ∧ r.state.level = s.level + k ∧
      r.state.Counts exp need maxLevel ∧ (maxLevel ≤ s.level + k → exp = 0) ∧
      (s.level + k < maxLevel → exp < need) := by
  obtain ⟨exp, need, hcounts⟩ := h.exists_counts
  have hexp := hcounts.exp_nonneg
  by_cases hamount : amount < 0
  · rw [grant_of_neg s c growth hamount] at hr
    exact absurd hr (by simp)
  have hnonneg : 0 ≤ amount := by omega
  by_cases hcapped : maxLevel ≤ s.level
  · obtain ⟨t, ht, hlevel, htcounts⟩ := grant_of_capped s c growth hcounts hnonneg hcapped
    obtain rfl := Except.ok.inj (ht.symm.trans hr)
    exact ⟨0, 0, need, rfl, by simpa using hlevel, htcounts, fun _ => rfl, by omega⟩
  · rw [grant_of_uncapped s c growth hcounts hnonneg (by omega), Outcome.bind_eq_ok_iff] at hr
    obtain ⟨stand, hclimb, hr⟩ := hr
    obtain ⟨k, rest, next, rfl, hk, hrest, hbelow, -, hlast⟩ :=
      climb_bounds _ _ _ _ _ (by omega) hclimb
    obtain ⟨t, hmake, hlevel, htcounts⟩ := make_int (s.level + k) rest next maxLevel
      (by have := s.one_le_level; omega) (by omega) hrest
    obtain ⟨t', hmake', hr⟩ := Outcome.bind_eq_ok_iff.1 hr
    obtain rfl := Except.ok.inj (hmake.symm.trans hmake')
    obtain rfl := Except.ok.inj hr
    exact ⟨k, rest, next, by simp, hlevel, htcounts, fun hmax => hlast (by omega) (by omega),
      fun hmax => hbelow (by omega)⟩

/-- One grant advances a sound state and leaves it sound. -/
theorem Sound.step (h : s.Sound maxLevel) (g : Grant) :
    (s.after g).Sound maxLevel ∧ Advances maxLevel g s := by
  obtain ⟨exp, need, hcounts⟩ := h.exists_counts
  have hrefused (hneg : g.amount < 0) :
      g.outcome s = .error (Failure.refused (.negativeGrant (.int g.amount))).written :=
    grant_of_neg s g.curve g.growth hneg
  have hgranted (hnonneg : 0 ≤ g.amount)
      (hreq : ∀ level, s.level < level → level ≤ maxLevel →
        ∃ need, Requirement.next g.curve g.growth (.int level) = .ok need) :
      ∃ r, g.outcome s = .ok r :=
    exists_grant g.curve g.growth s hcounts hnonneg hreq
  cases hr : g.outcome s with
  | error failure =>
    have hsame : s.after g = s := by rw [after, hr]
    rw [hsame]
    exact ⟨h, hrefused, hgranted, by rw [hsame], fun hcap => by rwa [hsame],
      fun r hr' => absurd (hr.symm.trans hr') (by simp),
      fun r hr' => absurd (hr.symm.trans hr') (by simp)⟩
  | ok r =>
    have hnew : s.after g = r.state := by rw [after, hr]
    obtain ⟨k, exp', need', hgained, hlevel, hcounts', hcapped, hbelow⟩ := exists_gain h hr
    rw [hnew]
    refine ⟨hcounts'.sound fun hmax => hcapped (by omega), hrefused, hgranted, ?_, ?_, ?_, ?_⟩
    · rw [hnew]
      omega
    · rw [hnew, hcounts.isCapped_iff, hcounts'.isCapped_iff]
      omega
    · intro r' hr'
      obtain rfl := Except.ok.inj (hr.symm.trans hr')
      omega
    · intro r' hr' huncapped
      obtain rfl := Except.ok.inj (hr.symm.trans hr')
      have hlt : ¬ maxLevel ≤ r.state.level := by
        rw [← hcounts'.isCapped_iff, huncapped]
        exact Bool.false_ne_true
      exact ⟨exp', need', hcounts'.exp_eq, hcounts'.expToNext_eq, hbelow (by omega)⟩

theorem Sound.run (h : s.Sound maxLevel) (grants : List Grant) : (s.run grants).Sound maxLevel := by
  induction grants generalizing s with
  | nil => exact h
  | cons g grants ih => exact ih (h.step g).1

/-- Along every run from a new character each state is sound, and the next grant advances it,
whatever curves and growths come with the grants. -/
theorem run_sound_and_advances (c : Option Curve) (growth : Option Growth) (maxLevel : Int)
    (hfirst : 1 < maxLevel → ∃ need, Requirement.next c growth (.int 1) = .ok need) :
    ∃ start, new c (.int maxLevel) growth = .ok start ∧ start.level = 1 ∧
      ∀ (past : List Grant) (g : Grant),
        (start.run past).Sound (max 1 maxLevel) ∧
          Advances (max 1 maxLevel) g (start.run past) := by
  obtain ⟨start, hnew, hlevel, hsound⟩ := new_sound c growth maxLevel hfirst
  refine ⟨start, hnew, hlevel, ?_⟩
  intro past g
  have hpast := hsound.run past
  exact ⟨hpast, (hpast.step g).2⟩

/-- A linear growth whose first levels are free defines the requirement of the first level. -/
theorem run_sound_and_advances_linear :
    let growth : Growth := ⟨.linear, .int 10, .int (-20)⟩
    (1 < (5 : Int) → ∃ need, Requirement.next none (some growth) (.int 1) = .ok need) ∧
      ∃ start, new none (.int 5) (some growth) = .ok start ∧ start.level = 1 ∧
        ∀ (past : List Grant) (g : Grant),
          (start.run past).Sound (max 1 5) ∧ Advances (max 1 5) g (start.run past) := by
  intro growth
  have hfirst : 1 < (5 : Int) →
      ∃ need, Requirement.next none (some growth) (.int 1) = .ok need := fun _ =>
    ⟨_, Requirement.next_linear 10 (-20) 1⟩
  exact ⟨hfirst, run_sound_and_advances none (some growth) 5 hfirst⟩

end ExperienceCurves.Progression
