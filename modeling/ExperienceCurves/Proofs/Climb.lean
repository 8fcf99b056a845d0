import ExperienceCurves.Progression
import Mathlib.Algebra.BigOperators.Intervals
import Mathlib.Algebra.Order.BigOperators.Group.Finset
import Mathlib.Order.Bounds.Basic

/-!
Climbs in whole numbers. The requirements from a level on form a sequence, and a climb gains the
greatest number of levels whose requirements the experience covers together. This holds for every
sequence, also where requirements are zero and many levels come for free.
-/
namespace ExperienceCurves.Progression

/-- The experience that the first requirements of a sequence take together. -/
def total (R : ℕ → Int) (k : ℕ) : Int := ∑ i ∈ Finset.range k, R i

/-- The numbers of levels that an amount of experience pays for, with so many levels left. -/
def Affordable (R : ℕ → Int) (left : ℕ) (exp : Int) : Set ℕ := {k | k ≤ left ∧ total R k ≤ exp}

@[simp] theorem total_zero (R : ℕ → Int) : total R 0 = 0 := rfl

theorem total_succ (R : ℕ → Int) (k : ℕ) : total R (k + 1) = total R k + R k :=
  Finset.sum_range_succ R k

theorem total_shift (R : ℕ → Int) (j k : ℕ) :
    total R (j + k) = total R j + total (fun i => R (j + i)) k :=
  Finset.sum_range_add R j k

theorem total_nonneg (R : ℕ → Int) (k : ℕ) (hR : ∀ i, i < k → 0 ≤ R i) : 0 ≤ total R k :=
  Finset.sum_nonneg fun i hi => hR i (Finset.mem_range.mp hi)

theorem total_le_total (R : ℕ → Int) {j k : ℕ} (hjk : j ≤ k) (hR : ∀ i, i < k → 0 ≤ R i) :
    total R j ≤ total R k := by
  obtain ⟨d, rfl⟩ := Nat.exists_eq_add_of_le hjk
  have hrest : 0 ≤ total (fun i => R (j + i)) d := total_nonneg _ d fun i hi =>
    hR (j + i) (by omega)
  rw [total_shift]
  omega

/-- Paying for the first levels and then for the most of the others pays for the most of all. -/
theorem isGreatest_affordable_add (R : ℕ → Int) (j k left : ℕ) (exp : Int)
    (hj : j ≤ left)
    (hk : IsGreatest (Affordable (fun i => R (j + i)) (left - j) (exp - total R j)) k) :
    IsGreatest (Affordable R left exp) (j + k) := by
  obtain ⟨⟨hkleft, hkexp⟩, hbound⟩ := hk
  constructor
  · refine ⟨by omega, ?_⟩
    rw [total_shift]
    omega
  · intro i hi
    by_cases hij : i ≤ j
    · omega
    · obtain ⟨d, rfl⟩ : ∃ d, i = j + d := ⟨i - j, by omega⟩
      obtain ⟨hleft, htotal⟩ := hi
      rw [total_shift] at htotal
      have hd : d ≤ k := hbound ⟨by omega, by omega⟩
      omega

/-- Without the experience for the first level no level is gained. -/
theorem isGreatest_affordable_zero (R : ℕ → Int) (left : ℕ) (exp : Int) (hexp : 0 ≤ exp)
    (hfirst : exp < R 0) (hR : ∀ i, 1 ≤ i → i ≤ left → 0 ≤ R i) :
    IsGreatest (Affordable R left exp) 0 := by
  refine ⟨⟨by omega, hexp⟩, ?_⟩
  intro i hi
  by_contra hpos
  obtain ⟨d, rfl⟩ : ∃ d, i = 1 + d := ⟨i - 1, by omega⟩
  obtain ⟨hleft, htotal⟩ := hi
  have hrest : 0 ≤ total (fun i => R (1 + i)) d :=
    total_nonneg _ d fun i hi => hR (1 + i) (by omega) (by omega)
  rw [total_shift, total_succ, total_zero] at htotal
  omega

section Round

variable (requirement : Int → Outcome Int) (left : ℕ) (level exp need gained : Int)

theorem climb_of_lt (h : exp < need) :
    climb requirement left ⟨level, .int exp, .int need, gained⟩ =
      .ok ⟨level, .int exp, .int need, gained⟩ := by
  cases left with
  | zero => rfl
  | succ left =>
    have hle : (Number.int need).le (.int exp) = false := by
      rw [Number.le_int, decide_eq_false_iff_not]
      omega
    simp [climb, Datum.int, Datum.toNumber, hle, bind, Except.bind, pure, Except.pure]

theorem climb_of_le (h : need ≤ exp) :
    climb requirement (left + 1) ⟨level, .int exp, .int need, gained⟩ =
      (do
        let next ← requirement (level + 1)
        climb requirement left
          ⟨level + 1, .int (if left = 0 then 0 else exp - need), .int next, gained + 1⟩) := by
  have hle : (Number.int need).le (.int exp) = true := by
    rw [Number.le_int, decide_eq_true_eq]
    exact h
  have hexp : (if left = 0 then (0 : Number) else .int (exp - need)) =
      .int (if left = 0 then 0 else exp - need) := by
    split <;> rfl
  rw [← hexp]
  simp [climb, Datum.int, Datum.toNumber, hle, bind, Except.bind]

end Round

variable (requirement : Int → Outcome Int)

private theorem climb_greatest_zero (R : ℕ → Int) (left : ℕ) (level exp gained : Int)
    (hexp : 0 ≤ exp) (hfirst : exp < R 0) (hR : ∀ i, 1 ≤ i → i ≤ left + 1 → 0 ≤ R i) :
    IsGreatest (Affordable R (left + 1) exp) 0 ∧
      climb requirement (left + 1) ⟨level, .int exp, .int (R 0), gained⟩ =
        .ok ⟨level + (0 : ℕ), .int (if 0 ≤ left then exp - total R 0 else 0), .int (R 0),
          gained + (0 : ℕ)⟩ := by
  refine ⟨isGreatest_affordable_zero R _ exp hexp hfirst hR, ?_⟩
  rw [climb_of_lt _ _ _ _ _ _ hfirst]
  simp

/-- The climb gains the greatest number of levels that the experience pays for. Below the last
level it keeps the experience that is left. -/
theorem climb_greatest (R : ℕ → Int) (left : ℕ) (level exp gained : Int) (hexp : 0 ≤ exp)
    (hreq : ∀ i : ℕ, 1 ≤ i → i ≤ left + 1 → requirement (level + i) = .ok (R i))
    (hR : ∀ i, 1 ≤ i → i ≤ left + 1 → 0 ≤ R i) :
    ∃ k, IsGreatest (Affordable R (left + 1) exp) k ∧
      climb requirement (left + 1) ⟨level, .int exp, .int (R 0), gained⟩ =
        .ok ⟨level + k, .int (if k ≤ left then exp - total R k else 0), .int (R k),
          gained + k⟩ := by
  have hfirst : requirement (level + 1) = .ok (R 1) := hreq 1 le_rfl (by omega)
  induction left generalizing R level exp gained with
  | zero =>
    by_cases hneed : R 0 ≤ exp
    · refine ⟨1, ?_, ?_⟩
      · apply isGreatest_affordable_add R 1 0 1 exp le_rfl
        refine ⟨⟨le_rfl, ?_⟩, fun i hi => hi.1⟩
        simpa [total_succ] using hneed
      · rw [climb_of_le _ _ _ _ _ _ hneed, hfirst]
        rfl
    · exact ⟨0, climb_greatest_zero requirement R 0 level exp gained hexp (by omega) hR⟩
  | succ left ih =>
    by_cases hneed : R 0 ≤ exp
    · -- the levels after the first one start from the experience that the first one leaves
      have hlevel (i : ℕ) : level + 1 + (i : Int) = level + ((1 + i : ℕ) : Int) := by omega
      have hgained (i : ℕ) : gained + 1 + (i : Int) = gained + ((1 + i : ℕ) : Int) := by omega
      have hrest (i : ℕ) (hi : 1 ≤ i) (hleft : i ≤ left + 1) :
          requirement (level + 1 + i) = .ok (R (1 + i)) := by
        rw [hlevel]
        exact hreq (1 + i) (by omega) (by omega)
      obtain ⟨k, hk, hclimb⟩ := ih (fun i => R (1 + i)) (level + 1) (exp - R 0) (gained + 1) (by omega)
        hrest (fun i hi hleft => hR (1 + i) (by omega) (by omega)) (hrest 1 le_rfl (by omega))
      refine ⟨1 + k, ?_, ?_⟩
      · apply isGreatest_affordable_add R 1 k _ exp (by omega)
        simpa [total_succ] using hk
      · have hexps : (if 1 + k ≤ left + 1 then exp - total R (1 + k) else 0) =
            if k ≤ left then exp - R 0 - total (fun i => R (1 + i)) k else 0 := by
          rw [total_shift, total_succ, total_zero]
          split <;> split <;> omega
        rw [climb_of_le _ _ _ _ _ _ hneed, hfirst, hexps, ← hlevel, ← hgained]
        exact hclimb
    · exact ⟨0, climb_greatest_zero requirement R _ level exp gained hexp (by omega) hR⟩

/-- Whatever the requirements are, a climb that ends stands on one of the levels that were left,
with less experience than the next level takes unless it is the last one. -/
theorem climb_bounds {requirement : Int → Outcome Int} (left : ℕ) (level exp need gained : Int)
    (hexp : 0 ≤ exp) {stand : Stand}
    (h : climb requirement left ⟨level, .int exp, .int need, gained⟩ = .ok stand) :
    ∃ (k : ℕ) (rest next : Int), stand = ⟨level + k, .int rest, .int next, gained + k⟩ ∧
      k ≤ left ∧ 0 ≤ rest ∧ (k < left → rest < next) ∧ (k = 0 → rest = exp) ∧
      (0 < k → k = left → rest = 0) := by
  induction left generalizing level exp need gained with
  | zero =>
    obtain rfl := Except.ok.inj h
    exact ⟨0, exp, need, by simp, le_rfl, hexp, by omega, fun _ => rfl, by omega⟩
  | succ left ih =>
    by_cases hneed : need ≤ exp
    · rw [climb_of_le _ _ _ _ _ _ hneed, Outcome.bind_eq_ok_iff] at h
      obtain ⟨next, -, h⟩ := h
      obtain ⟨k, rest, next, rfl, hk, hrest, hbelow, hsame, hlast⟩ :=
        ih (level + 1) _ next (gained + 1) (by split <;> omega) h
      refine ⟨k + 1, rest, next, ?_, by omega, hrest, by omega, by omega, ?_⟩
      · rw [show level + 1 + (k : Int) = level + ((k + 1 : ℕ) : Int) by omega,
          show gained + 1 + (k : Int) = gained + ((k + 1 : ℕ) : Int) by omega]
      · intro _ hleft
        by_cases hzero : k = 0
        · rw [hsame hzero, if_pos (by omega)]
        · exact hlast (by omega) (by omega)
    · rw [climb_of_lt _ _ _ _ _ _ (by omega)] at h
      obtain rfl := Except.ok.inj h
      exact ⟨0, exp, need, by simp, by omega, hexp, by omega, fun _ => rfl, by omega⟩

end ExperienceCurves.Progression
