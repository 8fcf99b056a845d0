import ExperienceCurves.Proofs.Climb
import Mathlib.Algebra.Ring.Int.Defs

/-!
Grants to characters that count in whole numbers. A grant pays for the greatest number of levels
whose requirements the experience covers together, and what is left over stays, unless the maximum
is reached. Grants therefore add up: it makes no difference in which portions experience comes.
-/
namespace ExperienceCurves

/-- The requirement is defined at every level up to a maximum. -/
def Requirement.DefinedTo (c : Option Curve) (growth : Option Growth) (maxLevel : Int) : Prop :=
  ∀ level, 1 ≤ level → level ≤ maxLevel → ∃ exp, next c growth (.int level) = .ok exp

namespace Requirement

theorem saturate_int (n : Int) : saturate (.int n) = .ok (max (-greatest) (min n greatest)) := by
  have hgreatest : 0 < greatest := by decide +kernel
  unfold saturate
  rw [Number.le_int, Number.le_int]
  by_cases hhigh : greatest ≤ n
  · rw [if_pos (decide_eq_true hhigh), min_eq_right hhigh, max_eq_right (by omega)]
  · rw [if_neg (by simpa using hhigh), min_eq_left (by omega)]
    by_cases hlow : n ≤ -greatest
    · rw [if_pos (decide_eq_true hlow), max_eq_left hlow]
    · rw [if_neg (by simpa using hlow), max_eq_right (by omega)]
      rfl

/-- Whole coefficients define a requirement at every level. -/
theorem next_linear (a b level : Int) :
    next none (some ⟨.linear, .int a, .int b⟩) (.int level) =
      .ok (max 0 (min (a * level + b) greatest)) := by
  have hgreatest : 0 < greatest := by decide +kernel
  change (Outcome.ofFault (saturate (.int (a * level + b))) >>= fun exp => pure (max 0 exp)) = _
  rw [saturate_int]
  change Except.ok (max 0 (max (-greatest) (min (a * level + b) greatest))) = _
  rw [max_left_comm, max_eq_right (by omega)]

end Requirement

namespace Progression

/-- The state counts experience, requirement and maximum level in whole numbers. -/
structure Counts (s : Progression) (exp need maxLevel : Int) : Prop where
  exp_eq : s.exp = .int exp
  expToNext_eq : s.expToNext = .int need
  maxLevel_eq : s.maxLevel = .int maxLevel

namespace Counts

variable {s t : Progression} {exp need maxLevel : Int}

theorem exp_nonneg (h : s.Counts exp need maxLevel) : 0 ≤ exp := by
  have hexp := s.exp_not_negative
  rw [h.exp_eq, Number.zero_eq, Number.lt_int, decide_eq_false_iff_not] at hexp
  omega

theorem level_le (h : s.Counts exp need maxLevel) : s.level ≤ maxLevel := by
  have hlevel := s.level_le_maxLevel
  rwa [h.maxLevel_eq, Number.le_int, decide_eq_true_eq] at hlevel

theorem isCapped_iff (h : s.Counts exp need maxLevel) : s.isCapped = true ↔ maxLevel ≤ s.level := by
  rw [isCapped, h.maxLevel_eq, Number.le_int, decide_eq_true_eq]

theorem levelsLeft_eq (h : s.Counts exp need maxLevel) :
    levelsLeft s.level s.maxLevel = (maxLevel - s.level).toNat := by
  rw [h.maxLevel_eq]
  rfl

/-- Level and counts make up the whole state. -/
theorem eq_of_level_eq (hs : s.Counts exp need maxLevel) (ht : t.Counts exp need maxLevel)
    (hlevel : s.level = t.level) : s = t := by
  cases s
  cases t
  obtain ⟨rfl, rfl, rfl⟩ := hs
  obtain ⟨rfl, rfl, rfl⟩ := ht
  subst hlevel
  rfl

end Counts

theorem exists_make {level maxLevel : Int} {exp : Number} (expToNext : Datum) (hone : 1 ≤ level)
    (hmax : level ≤ maxLevel) (hexp : exp.lt 0 = false) :
    ∃ t, make level exp expToNext (.int maxLevel) = .ok t ∧ t.level = level ∧ t.exp = exp ∧
      t.expToNext = expToNext ∧ t.maxLevel = .int maxLevel := by
  have hlow : ¬ (Number.int maxLevel).lt 1 = true := by
    rw [Number.one_eq, Number.lt_int, decide_eq_true_eq]
    omega
  have hlevel : 1 ≤ level ∧ (Number.int level).le (.int maxLevel) = true := by
    rw [Number.le_int, decide_eq_true_eq]
    exact ⟨hone, hmax⟩
  refine ⟨⟨level, exp, expToNext, .int maxLevel, hlevel.1, hlevel.2, hexp⟩, ?_, rfl, rfl, rfl, rfl⟩
  rw [make, if_neg hlow, dif_pos hlevel, dif_pos hexp]

theorem make_int (level exp need maxLevel : Int) (hone : 1 ≤ level) (hmax : level ≤ maxLevel)
    (hexp : 0 ≤ exp) :
    ∃ t, make level (.int exp) (.int need) (.int maxLevel) = .ok t ∧ t.level = level ∧
      t.Counts exp need maxLevel := by
  have hnonneg : (Number.int exp).lt 0 = false := by
    rw [Number.zero_eq, Number.lt_int, decide_eq_false_iff_not]
    omega
  obtain ⟨t, hmake, hlevel, htexp, hneed, htmax⟩ := exists_make (.int need) hone hmax hnonneg
  exact ⟨t, hmake, hlevel, htexp, hneed, htmax⟩

section Grant

variable (s : Progression) (c : Option Curve) (growth : Option Growth)
variable {exp need maxLevel amount : Int}

private theorem not_lt_zero (h : 0 ≤ amount) : ¬ (Number.int amount).lt 0 = true := by
  rw [Number.zero_eq, Number.lt_int, decide_eq_true_eq]
  omega

theorem grant_of_neg (h : amount < 0) :
    s.grant c growth (.int amount) =
      .error (Failure.refused (.negativeGrant (.int amount))).written := by
  have hneg : (Number.int amount).lt 0 = true := by
    rwa [Number.zero_eq, Number.lt_int, decide_eq_true_eq]
  rw [grant, if_pos hneg]
  rfl

/-- At the maximum level a grant takes away what is left of the experience. -/
theorem grant_of_capped (h : s.Counts exp need maxLevel) (hamount : 0 ≤ amount)
    (hcapped : maxLevel ≤ s.level) :
    ∃ t, s.grant c growth (.int amount) = .ok ⟨t, 0⟩ ∧ t.level = s.level ∧
      t.Counts 0 need maxLevel := by
  obtain ⟨t, hmake, ht⟩ := make_int s.level 0 need maxLevel s.one_le_level h.level_le le_rfl
  refine ⟨t, ?_, ht⟩
  rw [grant, if_neg (not_lt_zero hamount), if_pos (h.isCapped_iff.2 hcapped), h.expToNext_eq,
    h.maxLevel_eq, Number.zero_eq, hmake]
  rfl

/-- Below the maximum level a grant is a climb with the experience taken together. -/
theorem grant_of_uncapped (h : s.Counts exp need maxLevel) (hamount : 0 ≤ amount)
    (huncapped : s.level < maxLevel) :
    s.grant c growth (.int amount) = do
      let stand ← climb (fun level => Requirement.next c growth (.int level))
        (maxLevel - s.level).toNat ⟨s.level, .int (exp + amount), .int need, 0⟩
      let state ← make stand.level stand.exp stand.expToNext (.int maxLevel)
      return ⟨state, stand.gained⟩ := by
  have hcap : ¬ s.isCapped = true := by
    rw [h.isCapped_iff]
    omega
  rw [grant, if_neg (not_lt_zero hamount), if_neg hcap, h.levelsLeft_eq, h.exp_eq,
    h.expToNext_eq, h.maxLevel_eq]
  rfl

/-- Below the maximum level a grant pays for the greatest number of levels that it can. -/
theorem grant_greatest (R : ℕ → Int) (h : s.Counts exp (R 0) maxLevel) (hamount : 0 ≤ amount)
    (huncapped : s.level < maxLevel)
    (hreq : ∀ i : ℕ, 1 ≤ i → s.level + i ≤ maxLevel →
      Requirement.next c growth (.int (s.level + i)) = .ok (R i)) :
    ∃ t k, IsGreatest (Affordable R (maxLevel - s.level).toNat (exp + amount)) k ∧
      s.grant c growth (.int amount) = .ok ⟨t, k⟩ ∧ t.level = s.level + k ∧
      t.Counts (if s.level + k < maxLevel then exp + amount - total R k else 0) (R k)
        maxLevel := by
  have hexp := h.exp_nonneg
  obtain ⟨left, hleft⟩ : ∃ left, (maxLevel - s.level).toNat = left + 1 :=
    ⟨(maxLevel - s.level).toNat - 1, by omega⟩
  obtain ⟨k, hk, hclimb⟩ := climb_greatest (fun level => Requirement.next c growth (.int level))
    R left s.level (exp + amount) 0 (by omega)
    (fun i hi hilast => hreq i hi (by omega))
    (fun i hi hilast => Requirement.next_nonneg (hreq i hi (by omega)))
  obtain ⟨hklast, hktotal⟩ := hk.1
  have hrest : (if k ≤ left then exp + amount - total R k else 0) =
      if s.level + k < maxLevel then exp + amount - total R k else 0 := by
    split <;> split <;> omega
  obtain ⟨t, hmake, hlevel, hcounts⟩ := make_int (s.level + k)
    (if s.level + k < maxLevel then exp + amount - total R k else 0) (R k) maxLevel
    (by have := s.one_le_level; omega) (by omega) (by split <;> omega)
  refine ⟨t, k, hleft ▸ hk, ?_, hlevel, hcounts⟩
  rw [grant_of_uncapped s c growth h hamount huncapped, hleft, hclimb, hrest]
  change (make _ _ _ _ >>= fun state => _) = _
  rw [hmake]
  change Except.ok (LevelUp.mk t (0 + k)) = _
  rw [zero_add]

end Grant

variable (c : Option Curve) (growth : Option Growth)

/-- The requirements from a level on, with the stored one first. -/
theorem exists_requirements {maxLevel : Int} (level need : Int)
    (hreq : ∀ next, level < next → next ≤ maxLevel →
      ∃ exp, Requirement.next c growth (.int next) = .ok exp) :
    ∃ R : ℕ → Int, R 0 = need ∧ ∀ i : ℕ, 1 ≤ i → level + i ≤ maxLevel →
      Requirement.next c growth (.int (level + i)) = .ok (R i) := by
  let found (i : ℕ) : Int := (Requirement.next c growth (.int (level + i))).toOption.getD 0
  refine ⟨fun i => if i = 0 then need else found i, if_pos rfl, ?_⟩
  intro i hi hlast
  obtain ⟨exp, hexp⟩ := hreq (level + i) (by omega) hlast
  change _ = Except.ok (if i = 0 then need else found i)
  rw [if_neg (by omega), hexp]
  simp only [found, hexp]
  rfl

/-- A grant succeeds where the requirements of the levels ahead are defined. -/
theorem exists_grant (s : Progression) {exp need maxLevel amount : Int}
    (h : s.Counts exp need maxLevel) (hamount : 0 ≤ amount)
    (hreq : ∀ level, s.level < level → level ≤ maxLevel →
      ∃ need, Requirement.next c growth (.int level) = .ok need) :
    ∃ r, s.grant c growth (.int amount) = .ok r := by
  by_cases hcapped : maxLevel ≤ s.level
  · obtain ⟨t, ht, -⟩ := grant_of_capped s c growth h hamount hcapped
    exact ⟨_, ht⟩
  · obtain ⟨R, rfl, hR⟩ := exists_requirements c growth s.level need hreq
    obtain ⟨t, k, -, ht, -⟩ := grant_greatest s c growth R h hamount (by omega) hR
    exact ⟨_, ht⟩

/-- A grant `j` levels above a level, in terms of the requirements from that level on: what was
spent on the levels between is spent in the same order by a grant from there. -/
theorem grant_greatest_above (t : Progression) (R : ℕ → Int) (j : ℕ)
    {level exp maxLevel amount : Int} (hlevel : t.level = level + j)
    (h : t.Counts (exp - total R j) (R j) maxLevel) (hamount : 0 ≤ amount)
    (huncapped : t.level < maxLevel)
    (hreq : ∀ i : ℕ, 1 ≤ i → level + i ≤ maxLevel →
      Requirement.next c growth (.int (level + i)) = .ok (R i)) :
    ∃ u d, IsGreatest (Affordable R (maxLevel - level).toNat (exp + amount)) (j + d) ∧
      t.grant c growth (.int amount) = .ok ⟨u, d⟩ ∧ u.level = level + (j + d : ℕ) ∧
      u.Counts (if level + (j + d : ℕ) < maxLevel then exp + amount - total R (j + d) else 0)
        (R (j + d)) maxLevel := by
  have hlevels (i : ℕ) : t.level + i = level + (j + i : ℕ) := by omega
  have hreqs (i : ℕ) (hi : 1 ≤ i) (hlast : t.level + i ≤ maxLevel) :
      Requirement.next c growth (.int (t.level + i)) = .ok (R (j + i)) := by
    rw [hlevels] at hlast ⊢
    exact hreq (j + i) (by omega) hlast
  obtain ⟨u, d, hd, hu, hulevel, hucounts⟩ :=
    grant_greatest t c growth (fun i => R (j + i)) h hamount huncapped hreqs
  have hleft : (maxLevel - t.level).toNat = (maxLevel - level).toNat - j := by omega
  have hexp : exp - total R j + amount = exp + amount - total R j := by omega
  have hrest : exp + amount - total R j - total (fun i => R (j + i)) d =
      exp + amount - total R (j + d) := by
    rw [total_shift]
    omega
  rw [hleft, hexp] at hd
  rw [hlevels] at hulevel
  rw [hexp, hlevels, hrest] at hucounts
  exact ⟨u, d, isGreatest_affordable_add R j d _ _ (by omega) hd, hu, hulevel, hucounts⟩

/-- A grant in two portions. -/
theorem grant_add (s : Progression) {exp need maxLevel a b : Int}
    (h : s.Counts exp need maxLevel) (hreq : Requirement.DefinedTo c growth maxLevel)
    (ha : 0 ≤ a) (hb : 0 ≤ b) :
    ∃ first second exp' need', s.grant c growth (.int a) = .ok first ∧
      first.state.Counts exp' need' maxLevel ∧
      first.state.grant c growth (.int b) = .ok second ∧
      s.grant c growth (.int (a + b)) =
        .ok ⟨second.state, first.levelsGained + second.levelsGained⟩ := by
  by_cases hcapped : maxLevel ≤ s.level
  · obtain ⟨t, ht, htlevel, htcounts⟩ := grant_of_capped s c growth h ha hcapped
    obtain ⟨u, hu, hulevel, hucounts⟩ := grant_of_capped t c growth htcounts hb (by omega)
    obtain ⟨v, hv, hvlevel, hvcounts⟩ :=
      grant_of_capped s c growth h (show 0 ≤ a + b by omega) hcapped
    obtain rfl := hucounts.eq_of_level_eq hvcounts (by omega)
    exact ⟨_, _, _, _, ht, htcounts, hu, hv⟩
  · have hone := s.one_le_level
    obtain ⟨R, rfl, hR⟩ := exists_requirements c growth s.level need
      fun level hlevel hlast => hreq level (by omega) hlast
    obtain ⟨t, j, hj, ht, htlevel, htcounts⟩ :=
      grant_greatest s c growth R h ha (by omega) hR
    obtain ⟨v, k, hk, hv, hvlevel, hvcounts⟩ :=
      grant_greatest s c growth R h (show 0 ≤ a + b by omega) (by omega) hR
    rw [← Int.add_assoc] at hk hvcounts
    by_cases hlast : s.level + j < maxLevel
    · -- the second portion climbs on from where the first one stands
      rw [if_pos hlast] at htcounts
      obtain ⟨u, d, hd, hu, hulevel, hucounts⟩ :=
        grant_greatest_above c growth t R j htlevel htcounts hb (by omega) hR
      obtain rfl := hk.unique hd
      obtain rfl := hucounts.eq_of_level_eq hvcounts (by omega)
      refine ⟨_, _, _, _, ht, htcounts, hu, ?_⟩
      rw [hv, Int.natCast_add]
    · -- the first portion reaches the maximum, and both together cannot go further
      obtain ⟨u, hu, hulevel, hucounts⟩ := grant_of_capped t c growth htcounts hb (by omega)
      obtain ⟨hjlast, hjtotal⟩ := hj.1
      have hjk : j ≤ k := hk.2 ⟨hjlast, by omega⟩
      have hklast := hk.1.1
      obtain rfl : j = k := by omega
      rw [if_neg hlast] at hvcounts
      obtain rfl := hucounts.eq_of_level_eq hvcounts (by omega)
      refine ⟨_, _, _, _, ht, htcounts, hu, ?_⟩
      rw [hv, add_zero]

/-- Grants one after the other, with the levels that they gain together. -/
def grantEach (s : Progression) : List Int → Outcome LevelUp
  | [] => .ok ⟨s, 0⟩
  | amount :: rest => do
      let first ← s.grant c growth (.int amount)
      let others ← first.state.grantEach rest
      return ⟨others.state, first.levelsGained + others.levelsGained⟩

private theorem exists_grantEach_eq (s : Progression) {exp need maxLevel : Int}
    (h : s.Counts exp need maxLevel) (hreq : Requirement.DefinedTo c growth maxLevel)
    (amounts : List Int) (hne : amounts ≠ []) (hamounts : ∀ amount ∈ amounts, 0 ≤ amount) :
    ∃ r, s.grant c growth (.int amounts.sum) = .ok r ∧ s.grantEach c growth amounts = .ok r := by
  induction amounts generalizing s exp need with
  | nil => exact absurd rfl hne
  | cons amount rest ih =>
    have hamount := hamounts amount List.mem_cons_self
    have hrest : ∀ other ∈ rest, 0 ≤ other := fun other hother =>
      hamounts other (List.mem_cons_of_mem amount hother)
    obtain ⟨first, second, exp', need', hfirst, hcounts, hsecond, hboth⟩ :=
      grant_add c growth s h hreq hamount (List.sum_nonneg hrest)
    cases rest with
    | nil =>
      refine ⟨first, ?_, ?_⟩
      · simpa using hfirst
      · simp [grantEach, hfirst, bind, Except.bind, pure, Except.pure]
    | cons other others =>
      obtain ⟨r, hsum, heach⟩ := ih first.state hcounts (List.cons_ne_nil _ _) hrest
      obtain rfl : r = second := Except.ok.inj (hsum.symm.trans hsecond)
      refine ⟨⟨r.state, first.levelsGained + r.levelsGained⟩, ?_, ?_⟩
      · rw [List.sum_cons]
        exact hboth
      · rw [grantEach, hfirst]
        change (first.state.grantEach c growth (other :: others) >>= fun r => _) = _
        rw [heach]
        rfl

/-- Grants add up: one after the other and in any order they lead to the same state as their sum
at once, and gain as many levels together. -/
theorem grantEach_eq_grant_sum (s : Progression) {exp need maxLevel : Int}
    (h : s.Counts exp need maxLevel) (hreq : Requirement.DefinedTo c growth maxLevel)
    (amounts : List Int) (hne : amounts ≠ []) (hamounts : ∀ amount ∈ amounts, 0 ≤ amount) :
    ∃ r, s.grant c growth (.int amounts.sum) = .ok r ∧
      ∀ order, order.Perm amounts → s.grantEach c growth order = .ok r := by
  obtain ⟨r, hsum, -⟩ := exists_grantEach_eq c growth s h hreq amounts hne hamounts
  refine ⟨r, hsum, ?_⟩
  intro order hperm
  obtain ⟨r', hsum', heach⟩ := exists_grantEach_eq c growth s h hreq order
    (fun hnil => hne (hnil ▸ hperm).symm.eq_nil)
    (fun amount h => hamounts amount (hperm.mem_iff.1 h))
  rw [hperm.sum_eq, hsum] at hsum'
  rw [heach, Except.ok.inj hsum']

/-- Two free levels, a level that is paid for in portions and the maximum on the way. -/
theorem grantEach_eq_grant_sum_linear :
    let growth : Growth := ⟨.linear, .int 10, .int (-20)⟩
    let s : Progression := ⟨1, .int 5, .int 3, .int 5, by decide, rfl, rfl⟩
    s.Counts 5 3 5 ∧ Requirement.DefinedTo none (some growth) 5 ∧
      ∃ r, s.grant none (some growth) (.int 106) = .ok r ∧
        ∀ order, order.Perm [0, 6, 100] → s.grantEach none (some growth) order = .ok r := by
  intro growth s
  have hcounts : s.Counts 5 3 5 := ⟨rfl, rfl, rfl⟩
  have hreq : Requirement.DefinedTo none (some growth) 5 := fun level _ _ =>
    ⟨_, Requirement.next_linear 10 (-20) level⟩
  exact ⟨hcounts, hreq, grantEach_eq_grant_sum none (some growth) s hcounts hreq [0, 6, 100]
    (by decide) (by decide)⟩

/-- The closed form of a grant below the maximum level, for the requirements `R` from the level of
the state on. -/
theorem grant_closed_form (s : Progression) (R : ℕ → Int) {exp maxLevel amount : Int}
    (h : s.Counts exp (R 0) maxLevel) (huncapped : s.level < maxLevel)
    (hreq : ∀ i : ℕ, 1 ≤ i → s.level + i ≤ maxLevel →
      Requirement.next c growth (.int (s.level + i)) = .ok (R i))
    (hamount : 0 ≤ amount) :
    ∃ r k, s.grant c growth (.int amount) = .ok r ∧
      IsGreatest {k : ℕ | s.level + k ≤ maxLevel ∧ total R k ≤ exp + amount} k ∧
      r.levelsGained = k ∧ (r.leveledUp = true ↔ 0 < k) ∧ r.state.level = s.level + k ∧
      r.state.exp = .int (if s.level + k < maxLevel then exp + amount - total R k else 0) ∧
      r.state.expToNext = .int (R k) ∧ r.state.maxLevel = .int maxLevel ∧
      ∀ n : ℕ, 1 ≤ n → s.level + n ≤ maxLevel → amount = total R n - exp →
        0 < R n ∨ s.level + n = maxLevel → k = n := by
  obtain ⟨t, k, hk, ht, hlevel, hcounts⟩ := grant_greatest s c growth R h hamount huncapped hreq
  have hset : Affordable R (maxLevel - s.level).toNat (exp + amount) =
      {k : ℕ | s.level + k ≤ maxLevel ∧ total R k ≤ exp + amount} := by
    ext i
    simp only [Affordable, Set.mem_ofPred_eq]
    omega
  rw [hset] at hk
  refine ⟨⟨t, k⟩, k, ht, hk, rfl, ?_, hlevel, hcounts.exp_eq, hcounts.expToNext_eq,
    hcounts.maxLevel_eq, ?_⟩
  · simp [LevelUp.leveledUp]
  · intro n hn hlast hexact hend
    obtain ⟨hklast, hktotal⟩ := hk.1
    have hnk : n ≤ k := hk.2 ⟨hlast, by omega⟩
    rcases hend with hpos | hmax
    · by_contra hne
      obtain ⟨d, rfl⟩ : ∃ d, k = n + 1 + d := ⟨k - (n + 1), by omega⟩
      have hrest : 0 ≤ total (fun i => R (n + 1 + i)) d := total_nonneg _ d fun i hi =>
        Requirement.next_nonneg (hreq (n + 1 + i) (by omega) (by omega))
      rw [total_shift, total_succ] at hktotal
      omega
    · omega

/-- The requirements of three levels, the second of which is free, pay for exactly these. -/
theorem grant_closed_form_linear :
    let growth : Growth := ⟨.linear, .int 10, .int (-20)⟩
    let R (i : ℕ) : Int := if i = 0 then 3 else max 0 (10 * (1 + i) - 20)
    let s : Progression := ⟨1, .int 5, .int 3, .int 5, by decide, rfl, rfl⟩
    s.Counts 5 (R 0) 5 ∧ s.level < 5 ∧
      (∀ i : ℕ, 1 ≤ i → s.level + i ≤ 5 →
        Requirement.next none (some growth) (.int (s.level + i)) = .ok (R i)) ∧
      ∃ r, s.grant none (some growth) (.int 8) = .ok r ∧ r.levelsGained = 3 ∧
        r.state.level = 4 ∧ r.state.exp = .int 0 ∧ r.state.expToNext = .int 20 := by
  intro growth R s
  have hcounts : s.Counts 5 (R 0) 5 := ⟨rfl, rfl, rfl⟩
  have hreq (i : ℕ) (hi : 1 ≤ i) (hlast : s.level + i ≤ 5) :
      Requirement.next none (some growth) (.int (s.level + i)) = .ok (R i) := by
    have hle : i ≤ 4 := by
      change 1 + (i : Int) ≤ 5 at hlast
      omega
    rw [Requirement.next_linear]
    have hgreatest : 1000 < Requirement.greatest := by decide +kernel
    simp only [R, s]
    congr 1
    rw [if_neg (by omega)]
    omega
  obtain ⟨r, k, hr, -, hgained, -, hlevel, hexp, hnext, -, hexact⟩ :=
    grant_closed_form none (some growth) s R hcounts (by decide) hreq (show (0 : Int) ≤ 8 by decide)
  obtain rfl := hexact 3 (by decide) (by decide) (by decide) (Or.inl (by decide))
  exact ⟨hcounts, by decide, hreq, r, hr, hgained, hlevel, hexp, hnext⟩

end Progression

end ExperienceCurves
