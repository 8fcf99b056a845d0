import ExperienceCurves.Proofs.Requirements
import ExperienceCurves.Table

/-!
What a table promises to a new character. A table adds up the requirements that the curve gives at
its levels, and a climb subtracts the requirements in effect. Where the curve decides without a gap
both charge the same, so the sum of a row is the smallest grant that leaves the level of the row.
-/
namespace ExperienceCurves

theorem TableRow.make_eq_ok {level sum : Int} {exp previous : Option Int} {row : TableRow}
    (h : make level exp sum previous = .ok row) :
    row.level = level ∧ row.exp = exp ∧ ∀ e ∈ exp, row.cumulativeExp = sum + e := by
  match exp, previous with
  | none, _ =>
    obtain rfl := Except.ok.inj h
    exact ⟨rfl, rfl, fun e he => nomatch he⟩
  | some exp, none =>
    obtain rfl := Except.ok.inj h
    exact ⟨rfl, rfl, fun e he => by rw [Option.some.inj he]⟩
  | some exp, some previous =>
    obtain ⟨growthPercent, rfl⟩ : ∃ growthPercent,
        row = ⟨level, some exp, sum + exp, exp - previous, growthPercent⟩ := by
      rw [make] at h
      split at h
      · obtain ⟨growthPercent, -, h⟩ := Outcome.bind_eq_ok_iff.1 h
        exact ⟨growthPercent, (Except.ok.inj h).symm⟩
      · exact ⟨0, (Except.ok.inj h).symm⟩
    exact ⟨rfl, rfl, fun e he => by rw [Option.some.inj he]⟩

namespace Table

variable {requirement : Int → Outcome (Option Int)} {levels : List Int} {sum : Int}
  {previous : Option Int} {rows : List TableRow} {row : TableRow} {i : ℕ}

theorem rowsFrom_cons_eq_ok {level : Int}
    (h : rowsFrom requirement sum previous (level :: levels) = .ok rows) :
    ∃ exp row others, rows = row :: others ∧ requirement level = .ok exp ∧
      TableRow.make level exp sum previous = .ok row ∧
      rowsFrom requirement row.cumulativeExp exp levels = .ok others := by
  obtain ⟨exp, hexp, h⟩ := Outcome.bind_eq_ok_iff.1 h
  obtain ⟨row, hrow, h⟩ := Outcome.bind_eq_ok_iff.1 h
  obtain ⟨others, hothers, h⟩ := Outcome.bind_eq_ok_iff.1 h
  exact ⟨exp, row, others, (Except.ok.inj h).symm, hexp, Outcome.liftM_eq_ok_iff.1 hrow, hothers⟩

/-- The rows stand at the levels, in order. -/
theorem map_level_rowsFrom (h : rowsFrom requirement sum previous levels = .ok rows) :
    rows.map TableRow.level = levels := by
  induction levels generalizing sum previous rows with
  | nil =>
    obtain rfl := Except.ok.inj h
    rfl
  | cons level levels ih =>
    obtain ⟨exp, row, others, rfl, -, hrow, hothers⟩ := rowsFrom_cons_eq_ok h
    rw [List.map_cons, ih hothers, (TableRow.make_eq_ok hrow).1]

theorem requirement_of_mem_rowsFrom (h : rowsFrom requirement sum previous levels = .ok rows)
    (hrow : row ∈ rows) : requirement row.level = .ok row.exp := by
  induction levels generalizing sum previous rows with
  | nil =>
    obtain rfl := Except.ok.inj h
    cases hrow
  | cons level levels ih =>
    obtain ⟨exp, first, others, rfl, hexp, hfirst, hothers⟩ := rowsFrom_cons_eq_ok h
    rcases List.mem_cons.1 hrow with rfl | hrow
    · obtain ⟨hlevel, hrowexp, -⟩ := TableRow.make_eq_ok hfirst
      rw [hlevel, hrowexp, hexp]
    · exact ih hothers hrow

/-- Each row adds up the requirements of all rows up to it. -/
theorem cumulativeExp_rowsFrom (R : ℕ → Int)
    (h : rowsFrom requirement sum previous levels = .ok rows)
    (hR : ∀ i row, rows[i]? = some row → row.exp = some (R i)) (hrow : rows[i]? = some row) :
    row.cumulativeExp = sum + Progression.total R (i + 1) := by
  induction levels generalizing sum previous rows R i with
  | nil =>
    obtain rfl := Except.ok.inj h
    cases hrow
  | cons level levels ih =>
    obtain ⟨exp, first, others, rfl, hexp, hfirst, hothers⟩ := rowsFrom_cons_eq_ok h
    obtain ⟨-, hfirstexp, hsum⟩ := TableRow.make_eq_ok hfirst
    have hfirstsum : first.cumulativeExp = sum + R 0 :=
      hsum (R 0) (hfirstexp.symm.trans (hR 0 first rfl))
    cases i with
    | zero =>
      obtain rfl := Option.some.inj hrow
      rw [hfirstsum, Progression.total_succ, Progression.total_zero, zero_add]
    | succ i =>
      have hrest := ih (fun i => R (1 + i)) hothers
        (fun i row hrow => by rw [Nat.add_comm]; exact hR (i + 1) row hrow) hrow
      rw [hrest, hfirstsum, Nat.add_comm (i + 1) 1, Progression.total_shift R 1,
        Progression.total_succ R, Progression.total_zero]
      omega

/-- The rows of a table are those of the levels from its first one on. -/
theorem level_of_project {c : Option Curve} {first last : Int}
    (h : project c first last = .ok rows) (hrow : rows[i]? = some row) :
    row.level = first + i ∧ first + i ≤ last := by
  have hlevels : (rows.map TableRow.level)[i]? = some row.level := by
    rw [List.getElem?_map, hrow]
    rfl
  rw [map_level_rowsFrom h, Table.levels, List.getElem?_map, Option.map_eq_some_iff] at hlevels
  obtain ⟨j, hj, hlevel⟩ := hlevels
  obtain ⟨hlt, rfl⟩ := List.getElem?_eq_some_iff.1 hj
  rw [List.getElem_range] at hlevel
  rw [List.length_range] at hlt
  omega

theorem exists_last_row {c : Option Curve} {first last : Int}
    (h : project c first last = .ok rows) (hle : first ≤ last) :
    ∃ row ∈ rows, row.level = last := by
  apply List.mem_map.1
  rw [map_level_rowsFrom h]
  exact List.mem_map.2 ⟨(last - first).toNat, List.mem_range.2 (by omega), by omega⟩

end Table

/-- What the curve gives at a level is in effect there. -/
theorem Requirement.next_of_atLevel {c : Curve} (growth : Option Growth) {level : Number}
    {exp : Int} (hsegments : c.hasSegments = true) (hexp : atLevel (some c) level = .ok (some exp))
    (hnonneg : 0 ≤ exp) : next (some c) growth level = .ok exp := by
  unfold next
  rw [effective_of_segments hsegments, hexp]
  exact congrArg Except.ok (max_eq_right hnonneg)

/-- The smallest grants to a new character: what its first requirements take together. -/
theorem Progression.isLeast_total {c : Option Curve} {growth : Option Growth} {maxLevel : Int}
    {start : Progression} (R : ℕ → Int) (n : ℕ) (hlevel : start.level = 1)
    (hstart : start.Counts 0 (R 0) maxLevel) (hn : 1 + (n : Int) ≤ maxLevel)
    (hR : ∀ i : ℕ, 1 + (i : Int) ≤ maxLevel →
      Requirement.next c growth (.int (1 + i)) = .ok (R i)) (hpos : 0 < n) :
    IsLeast {amount : Int | 0 ≤ amount ∧ ∃ r, start.grant c growth (.int amount) = .ok r ∧
      1 + (n : Int) ≤ r.state.level} (total R n) := by
  have hnonneg (i : ℕ) (hi : 1 + (i : Int) ≤ maxLevel) : 0 ≤ R i :=
    Requirement.next_nonneg (hR i hi)
  have hgreatest (amount : Int) (hamount : 0 ≤ amount) :=
    grant_greatest start c growth R hstart hamount (by omega)
      fun i _ hi => hlevel ▸ hR i (hlevel ▸ hi)
  have htotal : 0 ≤ total R n := total_nonneg R n fun i hi => hnonneg i (by omega)
  constructor
  · obtain ⟨t, k, hk, ht, htlevel, -⟩ := hgreatest (total R n) htotal
    have hle : n ≤ k := hk.2 ⟨by omega, by omega⟩
    exact ⟨htotal, _, ht, by rw [htlevel, hlevel]; omega⟩
  · rintro amount ⟨hamount, r, hr, hreached⟩
    obtain ⟨t, k, ⟨⟨hlast, hpaid⟩, -⟩, ht, htlevel, -⟩ := hgreatest amount hamount
    obtain rfl := Except.ok.inj (ht.symm.trans hr)
    have hle : n ≤ k := by
      rw [htlevel, hlevel] at hreached
      omega
    calc total R n ≤ total R k := total_le_total R hle fun i hi => hnonneg i (by omega)
      _ ≤ amount := by omega

/-- The smallest grant that takes a new character beyond the level of a row, in one go, is the sum
of the row. The table reaches up to its last level, below the maximum of the character. -/
theorem Table.isLeast_cumulativeExp {c : Curve} {growth : Option Growth} {maxLevel last : Int}
    {rows : List TableRow} (hsegments : c.hasSegments = true) (hone : 1 ≤ last)
    (hlast : last < maxLevel) (hrows : project (some c) 1 last = .ok rows)
    (hdefined : ∀ row ∈ rows, ∃ exp, row.exp = some exp ∧ 0 ≤ exp)
    (hreq : Requirement.DefinedTo (some c) growth maxLevel) :
    ∃ start, Progression.new (some c) (.int maxLevel) growth = .ok start ∧
      (∃ row ∈ rows, row.level = last) ∧
      ∀ row ∈ rows, IsLeast {amount : Int | 0 ≤ amount ∧
        ∃ r, start.grant (some c) growth (.int amount) = .ok r ∧
          row.level + 1 ≤ r.state.level} row.cumulativeExp := by
  obtain ⟨need, hneed⟩ := hreq 1 le_rfl (by omega)
  obtain ⟨start, hnew, hlevel, hcounts⟩ :=
    Progression.new_counts (some c) growth (hone.trans_lt hlast) hneed
  refine ⟨start, hnew, exists_last_row hrows hone, ?_⟩
  obtain ⟨R, rfl, hR⟩ := Progression.exists_requirements (some c) growth 1 need
    fun level hlevel hmax => hreq level (by omega) hmax
  have hnext (i : ℕ) (hi : 1 + (i : Int) ≤ maxLevel) :
      Requirement.next (some c) growth (.int (1 + i)) = .ok (R i) := by
    cases i with
    | zero => exact hneed
    | succ i => exact hR (i + 1) (by omega) hi
  -- what the table charges at a level is what the climb charges there
  have hexp (i : ℕ) (row : TableRow) (hi : rows[i]? = some row) : row.exp = some (R i) := by
    have hmem := List.mem_of_getElem? hi
    obtain ⟨hrowlevel, hbound⟩ := level_of_project hrows hi
    obtain ⟨exp, hrowexp, hnonneg⟩ := hdefined row hmem
    have hat := requirement_of_mem_rowsFrom hrows hmem
    rw [hrowlevel, hrowexp] at hat
    have hcharged := Requirement.next_of_atLevel growth hsegments hat hnonneg
    rw [hrowexp, Except.ok.inj (hcharged.symm.trans (hnext i (by omega)))]
  intro row hmem
  obtain ⟨i, hi⟩ := List.mem_iff_getElem?.1 hmem
  obtain ⟨hrowlevel, hbound⟩ := level_of_project hrows hi
  have hreached : row.level + 1 = 1 + ((i + 1 : ℕ) : Int) := by omega
  rw [cumulativeExp_rowsFrom R hrows hexp hi, zero_add, hreached]
  exact Progression.isLeast_total R (i + 1) hlevel hcounts (by omega) hnext (Nat.succ_pos i)

/-- Two free levels come with the experience for the third, and only with it the fourth. -/
theorem Table.isLeast_cumulativeExp_plateau :
    let c : Curve := ⟨[⟨⟨"seg1", .int 1, .int 10⟩, "MAX(0, x-2)"⟩], [], false, none⟩
    let rows : List TableRow :=
      [⟨1, some 0, 0, 0, 0⟩, ⟨2, some 0, 0, 0, 0⟩, ⟨3, some 1, 1, 1, 0⟩]
    c.hasSegments = true ∧ project (some c) 1 3 = .ok rows ∧
      Requirement.DefinedTo (some c) none 5 ∧
      ∃ start, Progression.new (some c) (.int 5) none = .ok start ∧
        IsLeast {amount : Int | 0 ≤ amount ∧
          ∃ r, start.grant (some c) none (.int amount) = .ok r ∧ 3 ≤ r.state.level} 0 ∧
        IsLeast {amount : Int | 0 ≤ amount ∧
          ∃ r, start.grant (some c) none (.int amount) = .ok r ∧ 4 ≤ r.state.level} 1 := by
  intro c rows
  have hpositional : Formula.Positional "MAX(0, x-2)".toList := by decide +kernel
  have hlegible : c.IsLegible := by
    refine ⟨rfl, List.cons_ne_nil _ _, ?_⟩
    intro segment hsegment failure hfailure
    obtain rfl := List.mem_singleton.1 hsegment
    exact (Formula.Expr.ofText_error hfailure).resolve_right fun h => h.1 hpositional
  have hgreatest : (5 : Int) ≤ Requirement.greatest := by decide +kernel
  have hreq : Requirement.DefinedTo (some c) none 5 := by
    intro level hone hlast
    obtain ⟨need, hneed, -⟩ := Requirement.next_inRange (.formulas none hlegible) hone
      (hlast.trans hgreatest) (by rintro ⟨-, g, hg, -⟩; cases hg)
    exact ⟨need, hneed⟩
  have hrows : project (some c) 1 3 = .ok rows :=
    Outcome.eq_ok_of_toOption (by decide +kernel)
  have hdefined : ∀ row ∈ rows, ∃ exp, row.exp = some exp ∧ 0 ≤ exp := by
    simp [rows]
  obtain ⟨start, hnew, -, hleast⟩ :=
    isLeast_cumulativeExp rfl (by decide) (by decide) hrows hdefined hreq
  exact ⟨rfl, hrows, hreq, start, hnew, hleast ⟨2, some 0, 0, 0, 0⟩ (by simp [rows]),
    hleast ⟨3, some 1, 1, 1, 0⟩ (by simp [rows])⟩

end ExperienceCurves
