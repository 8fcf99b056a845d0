import ExperienceCurves.Proofs.Ranges

/-!
Redistribution. The levels are divided into consecutive parts whose lengths differ by at most one,
the longer ones last. Where a part begins is a formula in its index, so the division need not be
followed segment by segment.
-/
namespace ExperienceCurves.Editing

/-- Where the part with the given index begins, if parts from the `firstLong`-th on have one level
more than `base`. -/
def partStart (base firstLong : Int) (index : ℕ) : Int :=
  1 + base * index + max 0 (index - firstLong)

theorem partStart_succ (base firstLong : Int) (index : ℕ) :
    partStart base firstLong (index + 1) =
      partStart base firstLong index + (base + if firstLong ≤ index then 1 else 0) := by
  unfold partStart
  rw [Int.natCast_add, Int.natCast_one, Int.mul_add, Int.mul_one]
  split <;> omega

section Spread

variable {α : Type} [Spanned α]

/-- The segments over consecutive parts, from the part with the given index on. -/
def overParts (base firstLong : Int) (index : ℕ) (segments : List α) : List α :=
  (segments.zipIdx index).map fun s =>
    withRange s.1 (.int (partStart base firstLong s.2)) (.int (partStart base firstLong (s.2 + 1)))

theorem spread_eq_overParts (base firstLong : Int) (index : ℕ) (segments : List α) :
    spread (.int base) (.int firstLong) index (.int (partStart base firstLong index)) segments =
      .ok (overParts base firstLong index segments) := by
  induction segments generalizing index with
  | nil => rfl
  | cons segment rest ih =>
    have hlong : (if (Number.int firstLong).le (.int (index : ℕ)) then (1 : Number) else 0) =
        .int (if firstLong ≤ index then 1 else 0) := by
      rw [Number.le_int]
      split <;> simp_all
    have hnext := ih (index + 1)
    unfold spread
    rw [hlong, Number.add_int]
    simp only [bind, Except.bind, Number.add_int]
    rw [← partStart_succ, hnext]
    rfl

/-- With room for all, the levels are divided into parts for the segments in order. -/
theorem redistribute_int {maxLevel : Int} {segments : List α} (hsome : segments ≠ [])
    (hroom : (segments.length : Int) ≤ maxLevel - 1) :
    redistribute (.int maxLevel) segments =
      .ok (overParts ((maxLevel - 1) / segments.length)
        (segments.length - (maxLevel - 1) % segments.length) 0 segments) := by
  have hpositive : 0 < (segments.length : Int) :=
    Int.natCast_pos.2 (List.length_pos_iff.2 hsome)
  have hrest := Int.emod_lt_of_pos (maxLevel - 1) hpositive
  have hfirst : partStart ((maxLevel - 1) / segments.length)
      (segments.length - (maxLevel - 1) % segments.length) 0 = 1 := by
    simp only [partStart, Int.natCast_zero, Int.mul_zero]
    omega
  have hspread := spread_eq_overParts ((maxLevel - 1) / segments.length)
    (segments.length - (maxLevel - 1) % segments.length) 0 segments
  rw [hfirst] at hspread
  unfold redistribute
  simp only [Number.one_eq, Datum.less_int, Outcome.liftM_ok, bind, Except.bind, Number.lt_int,
    decide_eq_true_eq]
  rw [if_neg (Int.not_lt.2 hroom), Number.divMod_int _ (Int.natCast_pos.1 hpositive)]
  simp only [Outcome.liftM_ok, Number.sub_int, hspread]

/-- The parts begin at level one and end at the maximum. -/
theorem partStart_last (total : Int) {count : ℕ} (hcount : 0 < count) :
    partStart (total / count) (count - total % count) count = 1 + total := by
  have hrest := Int.emod_nonneg total (show (count : Int) ≠ 0 by omega)
  have hdivision := Int.mul_ediv_add_emod total count
  unfold partStart
  rw [Int.mul_comm]
  omega

theorem partStart_lt_succ {base firstLong : Int} (hbase : 1 ≤ base) (index : ℕ) :
    partStart base firstLong index < partStart base firstLong (index + 1) := by
  rw [partStart_succ]
  split <;> omega

theorem partStart_mono (firstLong : Int) {base : Int} (hbase : 0 ≤ base) {i j : ℕ} (hij : i ≤ j) :
    partStart base firstLong i ≤ partStart base firstLong j := by
  obtain ⟨steps, rfl⟩ := Nat.exists_eq_add_of_le hij
  induction steps with
  | zero => exact Int.le_refl _
  | succ steps ih =>
    have hprevious := ih (Nat.le_add_right i steps)
    rw [← Nat.add_assoc, partStart_succ]
    split <;> omega

theorem map_idOf_overParts (base firstLong : Int) (index : ℕ) (segments : List α) :
    (overParts base firstLong index segments).map idOf = segments.map idOf := by
  rw [overParts, List.map_map]
  conv => rhs; rw [← List.zipIdx_map_fst index segments, List.map_map]
  exact List.map_congr_left fun s _ => idOf_withRange s.1 _ _

/-- With no more segments than levels to divide, every part is within the maximum. -/
theorem within_overParts {maxLevel : Int} {segments : List α} {s : α}
    (hroom : (segments.length : Int) ≤ maxLevel - 1)
    (hs : s ∈ overParts ((maxLevel - 1) / segments.length)
      (segments.length - (maxLevel - 1) % segments.length) 0 segments) :
    (Spanned.span s).Within maxLevel := by
  obtain ⟨⟨segment, index⟩, hmem, rfl⟩ := List.mem_map.1 hs
  obtain ⟨-, hindex, -⟩ := List.mem_zipIdx hmem
  have hcount : 0 < segments.length := by omega
  have hbase : 1 ≤ (maxLevel - 1) / segments.length :=
    (Int.le_ediv_iff_mul_le (Int.natCast_pos.2 hcount)).2 (by omega)
  have hrest := Int.emod_lt_of_pos (maxLevel - 1) (Int.natCast_pos.2 hcount)
  have hlast := partStart_last (maxLevel - 1) hcount
  have hlow := partStart_mono (segments.length - (maxLevel - 1) % segments.length)
    (Int.le_trans Int.one_nonneg hbase) (Nat.zero_le index)
  have hhigh := partStart_mono (segments.length - (maxLevel - 1) % segments.length)
    (Int.le_trans Int.one_nonneg hbase) (show index + 1 ≤ segments.length by omega)
  have hfirst : 1 ≤ partStart ((maxLevel - 1) / segments.length)
      (segments.length - (maxLevel - 1) % segments.length) 0 := by
    simp only [partStart, Int.natCast_zero, Int.mul_zero]
    omega
  refine within_withRange (Int.le_trans hfirst hlow) (partStart_lt_succ hbase index) ?_
  exact Int.le_trans hhigh (by omega)

/-- A redistribution that succeeds had room for all segments. -/
theorem redistribute_eq_ok {maxLevel : Int} {segments out : List α} (hsome : segments ≠ [])
    (h : redistribute (.int maxLevel) segments = .ok out) :
    (segments.length : Int) ≤ maxLevel - 1 ∧
      out = overParts ((maxLevel - 1) / segments.length)
        (segments.length - (maxLevel - 1) % segments.length) 0 segments := by
  by_cases hroom : (segments.length : Int) ≤ maxLevel - 1
  · rw [redistribute_int hsome hroom] at h
    exact ⟨hroom, (Except.ok.inj h).symm⟩
  · unfold redistribute at h
    simp only [Number.one_eq, Datum.less_int, Outcome.liftM_ok, bind, Except.bind, Number.lt_int,
      decide_eq_true_eq] at h
    rw [if_pos (Int.not_le.1 hroom)] at h
    cases h

/-- A redistribution keeps the names, and every range is then within the maximum. -/
theorem redistribute_spec {maxLevel : Int} {segments out : List α} (hsome : segments ≠ [])
    (h : redistribute (.int maxLevel) segments = .ok out) :
    out.map idOf = segments.map idOf ∧ ∀ s ∈ out, (Spanned.span s).Within maxLevel := by
  obtain ⟨hroom, rfl⟩ := redistribute_eq_ok hsome h
  exact ⟨map_idOf_overParts _ _ _ _, fun s => within_overParts hroom⟩

/-- A redistribution only replaces ranges. -/
theorem exists_withRange_of_redistribute {maxLevel : Int} {segments out : List α} {s : α}
    (hsome : segments ≠ []) (h : redistribute (.int maxLevel) segments = .ok out) (hs : s ∈ out) :
    ∃ old ∈ segments, ∃ startLevel endLevel, s = withRange old startLevel endLevel := by
  obtain ⟨-, rfl⟩ := redistribute_eq_ok hsome h
  obtain ⟨⟨old, index⟩, hmem, rfl⟩ := List.mem_map.1 hs
  exact ⟨old, List.fst_mem_of_mem_zipIdx hmem, _, _, rfl⟩

end Spread

end ExperienceCurves.Editing
