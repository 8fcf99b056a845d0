import ExperienceCurves.Proofs.BezierValues
import ExperienceCurves.Proofs.TableGrants

/-!
The columns of a table. Three values run along its levels: the sum goes on over undefined rows, the
growth starts again after them, and its percentage also after requirements that are not positive. A
table that is cut in two gives the same rows, but for the sum of the first part, which the second
part lacks, and for the growth of the row after the cut.
-/
namespace ExperienceCurves

namespace TableRow

/-- The growth columns against the requirement of the level before: the difference of two defined
requirements, in percent of a positive one, and nothing otherwise. -/
structure GrowsFrom (previous : Option Int) (row : TableRow) : Prop where
  growth_eq : ∀ before ∈ previous, ∀ exp ∈ row.exp, row.growth = exp - before
  growth_zero : previous = none ∨ row.exp = none → row.growth = 0
  percent_eq : ∀ before ∈ previous, ∀ exp ∈ row.exp, 0 < before →
    percent (exp - before) before = .ok row.growthPercent
  percent_zero : (∀ before ∈ previous, before ≤ 0) ∨ row.exp = none → row.growthPercent = 0

/-- The row as it stands after other rows with the given sum. -/
def raisedBy (sum : Int) (row : TableRow) : TableRow :=
  { row with cumulativeExp := sum + row.cumulativeExp }

theorem raisedBy_comp_neg (sum : Int) : raisedBy sum ∘ raisedBy (-sum) = id := by
  funext row
  rw [Function.comp_apply, raisedBy, raisedBy, add_neg_cancel_left, id]

variable {level sum : Int} {exp previous : Option Int} {row : TableRow}

theorem make_of_defined (level sum exp before : Int) :
    make level (some exp) sum (some before) =
      (if 0 < before then percent (exp - before) before else .ok 0) >>= fun growthPercent =>
        .ok ⟨level, some exp, sum + exp, exp - before, growthPercent⟩ := by
  change (if 0 < before then percent (exp - before) before >>= _ else _) = _
  split
  · rfl
  · rfl

theorem cumulativeExp_of_make (h : make level exp sum previous = .ok row) :
    row.cumulativeExp = sum + exp.getD 0 := by
  cases exp with
  | some exp => exact (make_eq_ok h).2.2 exp rfl
  | none =>
    obtain rfl := Except.ok.inj h
    exact (add_zero sum).symm

theorem growsFrom_of_make (h : make level exp sum previous = .ok row) :
    row.GrowsFrom previous := by
  match exp, previous with
  | none, _ =>
    obtain rfl := Except.ok.inj h
    exact ⟨nofun, fun _ => rfl, nofun, fun _ => rfl⟩
  | some exp, none =>
    obtain rfl := Except.ok.inj h
    exact ⟨nofun, fun _ => rfl, nofun, fun _ => rfl⟩
  | some exp, some before =>
    rw [make_of_defined] at h
    obtain ⟨growthPercent, hpercent, h⟩ := Outcome.bind_eq_ok_iff.1 h
    obtain rfl := Except.ok.inj h
    constructor
    case growth_eq =>
      intro b hb e he
      rw [← Option.some.inj hb, ← Option.some.inj he]
    case growth_zero => rintro (h | h) <;> cases h
    case percent_eq =>
      intro b hb e he hpositive
      rw [← Option.some.inj hb] at hpositive ⊢
      rw [← Option.some.inj he]
      rwa [if_pos hpositive] at hpercent
    case percent_zero =>
      rintro (hbefore | h)
      · rw [if_neg (hbefore before rfl).not_gt] at hpercent
        exact (Except.ok.inj hpercent).symm
      · cases h

/-- Only the sum of a row depends on the sum before it. -/
theorem make_add (a : Int) (h : make level exp sum previous = .ok row) :
    make level exp (a + sum) previous = .ok (row.raisedBy a) := by
  match exp, previous with
  | none, _ =>
    obtain rfl := Except.ok.inj h
    rfl
  | some exp, none =>
    obtain rfl := Except.ok.inj h
    rw [raisedBy, ← add_assoc]
    rfl
  | some exp, some before =>
    rw [make_of_defined] at h
    obtain ⟨growthPercent, hpercent, h⟩ := Outcome.bind_eq_ok_iff.1 h
    obtain rfl := Except.ok.inj h
    rw [make_of_defined, raisedBy, ← add_assoc]
    exact Outcome.bind_eq_ok_iff.2 ⟨growthPercent, hpercent, rfl⟩

/-- Growth from a positive number to one of a range, but for the last step below the range. -/
theorem growth_bounds {top exp before : Int} (htop : 2 ≤ top) (hlow : -top ≤ exp) (hhigh : exp ≤ top)
    (hpositive : 0 < before) (hlast : ¬(before = 1 ∧ exp = -top)) :
    -top * before ≤ exp - before ∧ exp - before ≤ top * before := by
  constructor
  · rcases (Int.add_one_le_iff.2 hpositive).eq_or_lt with hone | htwo
    · rw [← hone] at hlast ⊢
      omega
    · nlinarith
  · nlinarith

theorem quotient_least :
    Number.quotient (-Requirement.greatest - 1) 1 =
      .ok (.real (Binary64.ofInt (-Requirement.greatest))) :=
  Outcome.eq_ok_of_toOption (by decide +kernel)

/-- Growth is never so steep that its percentage is undefined. A requirement at the lower end of
the range after a requirement of one falls by more than the range, but is rounded into it. -/
theorem exists_percent {exp before : Int} (hexp : Requirement.InRange exp)
    (hpositive : 0 < before) : ∃ x, percent (exp - before) before = .ok x := by
  obtain ⟨share, hshare⟩ : ∃ x, Number.quotient (exp - before) before = .ok (.real x) := by
    by_cases hlast : before = 1 ∧ exp = -Requirement.greatest
    · rw [hlast.1, hlast.2]
      exact ⟨_, quotient_least⟩
    · obtain ⟨hroom, hle⟩ :=
        growth_bounds (by decide +kernel) hexp.1 hexp.2 hpositive hlast
      have hgreatest : ((Requirement.greatest : Int) : Rat) = (Binary64.greatest : Rat) := rfl
      have hbefore : (0 : Rat) < before := by exact_mod_cast hpositive
      obtain ⟨x, hx, -⟩ := Number.between_quotient hpositive Binary64.exact_greatest.neg
        Binary64.exact_greatest
        (by rw [le_div_iff₀ hbefore, ← hgreatest]; exact_mod_cast hroom)
        (by rw [div_le_iff₀ hbefore, ← hgreatest]; exact_mod_cast hle)
      exact ⟨x, hx⟩
  exact ⟨_, Outcome.bind_eq_ok_iff.2 ⟨_, hshare, rfl⟩⟩

theorem exists_make (level sum : Int) (previous : Option Int)
    (hexp : ∀ e ∈ exp, Requirement.InRange e) :
    ∃ row, make level exp sum previous = .ok row := by
  match exp, previous with
  | none, _ => exact ⟨_, rfl⟩
  | some exp, none => exact ⟨_, rfl⟩
  | some exp, some before =>
    rw [make_of_defined]
    by_cases hpositive : 0 < before
    · obtain ⟨x, hx⟩ := exists_percent (hexp exp rfl) hpositive
      exact ⟨_, Outcome.bind_eq_ok_iff.2 ⟨x, (if_pos hpositive).trans hx, rfl⟩⟩
    · exact ⟨_, Outcome.bind_eq_ok_iff.2 ⟨0, if_neg hpositive, rfl⟩⟩

end TableRow

namespace Table

variable {requirement : Int → Outcome (Option Int)} {levels others : List Int} {sum : Int}
  {previous : Option Int} {rows : List TableRow} {row before : TableRow} {i : ℕ}

theorem rowsFrom_cons {level : Int} {exp : Option Int} (hexp : requirement level = .ok exp)
    (hrow : TableRow.make level exp sum previous = .ok row)
    (hrows : rowsFrom requirement row.cumulativeExp exp levels = .ok rows) :
    rowsFrom requirement sum previous (level :: levels) = .ok (row :: rows) :=
  Outcome.bind_eq_ok_iff.2 ⟨exp, hexp, Outcome.bind_eq_ok_iff.2
    ⟨row, Outcome.liftM_eq_ok_iff.2 hrow, Outcome.bind_eq_ok_iff.2 ⟨rows, hrows, rfl⟩⟩⟩

theorem exists_rowsFrom (sum : Int) (previous : Option Int)
    (h : ∀ level ∈ levels, ∃ exp, requirement level = .ok exp ∧
      ∀ e ∈ exp, Requirement.InRange e) :
    ∃ rows, rowsFrom requirement sum previous levels = .ok rows := by
  induction levels generalizing sum previous with
  | nil => exact ⟨[], rfl⟩
  | cons level levels ih =>
    obtain ⟨exp, hexp, hrange⟩ := h level List.mem_cons_self
    obtain ⟨row, hrow⟩ := TableRow.exists_make level sum previous hrange
    obtain ⟨rows, hrows⟩ := ih row.cumulativeExp exp fun level hlevel =>
      h level (List.mem_cons_of_mem _ hlevel)
    exact ⟨row :: rows, rowsFrom_cons hexp hrow hrows⟩

/-- Undefined requirements add nothing to the sum. -/
theorem cumulativeExp_eq_sum (h : rowsFrom requirement sum previous levels = .ok rows)
    (hrow : rows[i]? = some row) :
    row.cumulativeExp = sum + ((rows.take (i + 1)).filterMap TableRow.exp).sum := by
  induction levels generalizing sum previous rows i with
  | nil =>
    obtain rfl := Except.ok.inj h
    cases hrow
  | cons level levels ih =>
    obtain ⟨exp, first, rest, rfl, -, hfirst, hrest⟩ := rowsFrom_cons_eq_ok h
    obtain ⟨-, hexp, -⟩ := TableRow.make_eq_ok hfirst
    have hsum := TableRow.cumulativeExp_of_make hfirst
    have hadded (tail : List TableRow) :
        ((first :: tail).filterMap TableRow.exp).sum =
          exp.getD 0 + (tail.filterMap TableRow.exp).sum := by
      rw [List.filterMap_cons, hexp]
      cases exp with
      | none => exact (zero_add _).symm
      | some exp => exact List.sum_cons
    cases i with
    | zero =>
      obtain rfl := Option.some.inj hrow
      rw [hsum, List.take_succ_cons, hadded, List.take_zero, List.filterMap_nil, List.sum_nil,
        add_zero]
    | succ i =>
      rw [ih hrest hrow, hsum, List.take_succ_cons, hadded, add_assoc]

/-- The first row grows from what was before the table, and every other row from the row before
it. -/
theorem growsFrom_of_rowsFrom (h : rowsFrom requirement sum previous levels = .ok rows) :
    (∀ row, rows[0]? = some row → row.GrowsFrom previous) ∧
      ∀ i before row, rows[i]? = some before → rows[i + 1]? = some row →
        row.GrowsFrom before.exp := by
  induction levels generalizing sum previous rows with
  | nil =>
    obtain rfl := Except.ok.inj h
    exact ⟨fun row hrow => (nomatch hrow), fun i before row hbefore => (nomatch hbefore)⟩
  | cons level levels ih =>
    obtain ⟨exp, first, rest, rfl, -, hfirst, hrest⟩ := rowsFrom_cons_eq_ok h
    obtain ⟨hhead, hnext⟩ := ih hrest
    constructor
    · intro row hrow
      obtain rfl := Option.some.inj hrow
      exact TableRow.growsFrom_of_make hfirst
    · intro i before row hbefore hrow
      cases i with
      | zero =>
        obtain rfl := Option.some.inj hbefore
        rw [(TableRow.make_eq_ok hfirst).2.1]
        exact hhead row hrow
      | succ i => exact hnext i before row hbefore hrow

/-- The rows after others start from the sum and the requirement of the last row. -/
theorem rowsFrom_append_eq_ok
    (h : rowsFrom requirement sum previous (levels ++ others) = .ok rows) :
    ∃ front back, rows = front ++ back ∧ rowsFrom requirement sum previous levels = .ok front ∧
      rowsFrom requirement (front.foldl (fun _ row => row.cumulativeExp) sum)
        (front.foldl (fun _ row => row.exp) previous) others = .ok back := by
  induction levels generalizing sum previous rows with
  | nil => exact ⟨[], rows, rfl, rfl, h⟩
  | cons level levels ih =>
    obtain ⟨exp, first, rest, rfl, hexp, hfirst, hrest⟩ := rowsFrom_cons_eq_ok h
    obtain ⟨front, back, rfl, hfront, hback⟩ := ih hrest
    refine ⟨first :: front, back, rfl, ?_, ?_⟩
    · exact rowsFrom_cons hexp hfirst hfront
    · rw [List.foldl_cons, List.foldl_cons, (TableRow.make_eq_ok hfirst).2.1]
      exact hback

/-- A larger sum to start from is added to every row. -/
theorem rowsFrom_add (a : Int) (h : rowsFrom requirement sum previous levels = .ok rows) :
    rowsFrom requirement (a + sum) previous levels = .ok (rows.map (TableRow.raisedBy a)) := by
  induction levels generalizing sum previous rows with
  | nil =>
    obtain rfl := Except.ok.inj h
    rfl
  | cons level levels ih =>
    obtain ⟨exp, first, rest, rfl, hexp, hfirst, hrest⟩ := rowsFrom_cons_eq_ok h
    exact rowsFrom_cons hexp (TableRow.make_add a hfirst) (ih hrest)

theorem levels_eq_cons {first last : Int} (h : first ≤ last) :
    Table.levels first last = first :: Table.levels (first + 1) last := by
  unfold Table.levels
  obtain ⟨n, hn⟩ : ∃ n : ℕ, last = first + n := ⟨(last - first).toNat, by omega⟩
  rw [show (last + 1 - first).toNat = n + 1 by omega,
    show (last + 1 - (first + 1)).toNat = n by omega, List.range_succ_eq_map, List.map_cons,
    List.map_map]
  congr 1
  · exact add_zero first
  · apply List.map_congr_left
    intro i _
    simp only [Function.comp_apply, Nat.cast_succ]
    ring

theorem levels_append {first middle last : Int} (hfirst : first ≤ middle + 1)
    (hlast : middle ≤ last) :
    Table.levels first last = Table.levels first middle ++ Table.levels (middle + 1) last := by
  unfold Table.levels
  rw [show (last + 1 - first).toNat = (middle + 1 - first).toNat + (last + 1 - (middle + 1)).toNat
    by omega, List.range_add, List.map_append, List.map_map]
  congr 1
  apply List.map_congr_left
  intro i _
  simp only [Function.comp_apply, Nat.cast_add]
  omega

theorem length_levels (first last : Int) :
    (Table.levels first last).length = (last + 1 - first).toNat := by
  rw [Table.levels, List.length_map, List.length_range]

theorem mem_levels {first last level : Int} (h : level ∈ Table.levels first last) :
    first ≤ level ∧ level ≤ last := by
  obtain ⟨i, hi, rfl⟩ := List.mem_map.1 h
  have hlt := List.mem_range.1 hi
  omega

variable {c : Option Curve} {first last : Int}

theorem inRange_of_atLevel {level : Number} {exp : Option Int}
    (h : Requirement.atLevel c level = .ok exp) : ∀ e ∈ exp, Requirement.InRange e := by
  rintro e rfl
  exact Requirement.inRange_of_atLevel h

theorem exists_project (h : ∀ level, first ≤ level → level ≤ last →
    ∃ exp, Requirement.atLevel c (.int level) = .ok exp) :
    ∃ rows, project c first last = .ok rows := by
  apply exists_rowsFrom
  intro level hlevel
  obtain ⟨hfirst, hlast⟩ := mem_levels hlevel
  obtain ⟨exp, hexp⟩ := h level hfirst hlast
  exact ⟨exp, hexp, inRange_of_atLevel hexp⟩

/-- A second part that starts anew only lacks the sum of the first part, and its first row the
growth from the last row of the first part. -/
theorem exists_anew {bottom : TableRow} (hle : first ≤ last)
    (h : rowsFrom (fun level => Requirement.atLevel c (.int level)) bottom.cumulativeExp bottom.exp
      (Table.levels first last) = .ok rows) :
    ∃ next rest joined, project c first last = .ok (next :: rest) ∧
      rows = joined :: rest.map (TableRow.raisedBy bottom.cumulativeExp) ∧
      joined.level = next.level ∧ joined.exp = next.exp ∧
      joined.cumulativeExp = bottom.cumulativeExp + next.cumulativeExp ∧
      joined.GrowsFrom bottom.exp := by
  unfold project
  rw [levels_eq_cons hle] at h ⊢
  obtain ⟨exp, joined, back, rfl, hexp, hjoined, hback⟩ := rowsFrom_cons_eq_ok h
  obtain ⟨next, hnext⟩ := TableRow.exists_make first 0 none (inRange_of_atLevel hexp)
  have hsum : joined.cumulativeExp = bottom.cumulativeExp + next.cumulativeExp := by
    rw [TableRow.cumulativeExp_of_make hjoined, TableRow.cumulativeExp_of_make hnext, zero_add]
  obtain ⟨hjoinedlevel, hjoinedexp, -⟩ := TableRow.make_eq_ok hjoined
  obtain ⟨hnextlevel, hnextexp, -⟩ := TableRow.make_eq_ok hnext
  have hrest := rowsFrom_add (-bottom.cumulativeExp) hback
  rw [hsum, neg_add_cancel_left] at hrest
  refine ⟨next, back.map (TableRow.raisedBy (-bottom.cumulativeExp)), joined, ?_, ?_,
    hjoinedlevel.trans hnextlevel.symm, hjoinedexp.trans hnextexp.symm, hsum,
    TableRow.growsFrom_of_make hjoined⟩
  · exact rowsFrom_cons hexp hnext hrest
  · rw [List.map_map, TableRow.raisedBy_comp_neg, List.map_id]

/-- A table has one row for each of its levels. Its sum runs over the defined requirements, its
growth compares neighbours, and a table of a part of the levels is found in it. -/
theorem project_folds
    (hreq : ∀ level, first ≤ level → level ≤ last →
      ∃ exp, Requirement.atLevel c (.int level) = .ok exp) :
    ∃ rows, project c first last = .ok rows ∧ rows.length = (last + 1 - first).toNat ∧
      (∀ (i : ℕ) row, rows[i]? = some row → row.level = first + i ∧
        Requirement.atLevel c (.int row.level) = .ok row.exp ∧
        row.cumulativeExp = ((rows.take (i + 1)).filterMap TableRow.exp).sum) ∧
      (∀ row, rows[0]? = some row → row.GrowsFrom none) ∧
      (∀ (i : ℕ) before row, rows[i]? = some before → rows[i + 1]? = some row →
        row.GrowsFrom before.exp) ∧
      ∀ middle, first ≤ middle → middle < last →
        ∃ front bottom next rest joined,
          project c first middle = .ok (front ++ [bottom]) ∧
          project c (middle + 1) last = .ok (next :: rest) ∧
          rows = front ++ bottom :: joined :: rest.map (TableRow.raisedBy bottom.cumulativeExp) ∧
          joined.level = next.level ∧ joined.exp = next.exp ∧
          joined.cumulativeExp = bottom.cumulativeExp + next.cumulativeExp ∧
          joined.GrowsFrom bottom.exp := by
  obtain ⟨rows, hrows⟩ := exists_project hreq
  have hlength : rows.length = (last + 1 - first).toNat := by
    rw [← length_levels, ← map_level_rowsFrom hrows, List.length_map]
  obtain ⟨hhead, hnext⟩ := growsFrom_of_rowsFrom hrows
  refine ⟨rows, hrows, hlength, ?_, hhead, hnext, ?_⟩
  · intro i row hrow
    refine ⟨(level_of_project hrows hrow).1,
      requirement_of_mem_rowsFrom hrows (List.mem_of_getElem? hrow), ?_⟩
    rw [cumulativeExp_eq_sum hrows hrow, zero_add]
  · intro middle hmiddle hbelow
    unfold project at hrows
    rw [levels_append (by omega) hbelow.le] at hrows
    obtain ⟨front, back, rfl, hfront, hback⟩ := rowsFrom_append_eq_ok hrows
    have hnonempty : front ≠ [] := by
      rintro rfl
      have hlevels := map_level_rowsFrom hfront
      rw [levels_eq_cons hmiddle] at hlevels
      cases hlevels
    obtain ⟨front, bottom, rfl⟩ := (List.eq_nil_or_concat' front).resolve_left hnonempty
    rw [List.foldl_append, List.foldl_append] at hback
    obtain ⟨next, rest, joined, hsecond, rfl, hjoined⟩ := exists_anew (by omega) hback
    exact ⟨front, bottom, next, rest, joined, hfront, hsecond, by simp, hjoined⟩

/-- A formula without a value at its third level. The sum goes on after it, growth starts again. -/
theorem project_folds_around_gap :
    let c : Curve := ⟨[⟨⟨"seg1", .int 1, .int 10⟩, "60/(x-3)"⟩], [], false, none⟩
    let rows : List TableRow := [⟨2, some (-60), -60, 0, 0⟩, ⟨3, none, -60, 0, 0⟩,
      ⟨4, some 60, 0, 0, 0⟩, ⟨5, some 30, 30, -30, Binary64.ofInt (-50)⟩]
    (∀ level, 2 ≤ level → level ≤ 5 →
        ∃ exp, Requirement.atLevel (some c) (.int level) = .ok exp) ∧
      project (some c) 2 5 = .ok rows ∧
      (∀ (i : ℕ) before row, rows[i]? = some before → rows[i + 1]? = some row →
        row.GrowsFrom before.exp) ∧
      ∀ middle, 2 ≤ middle → middle < 5 → ∃ front bottom next rest joined,
        project (some c) 2 middle = .ok (front ++ [bottom]) ∧
        project (some c) (middle + 1) 5 = .ok (next :: rest) ∧
        rows = front ++ bottom :: joined :: rest.map (TableRow.raisedBy bottom.cumulativeExp) := by
  intro c rows
  have hreq : ∀ level, 2 ≤ level → level ≤ 5 →
      ∃ exp, Requirement.atLevel (some c) (.int level) = .ok exp := by
    intro level hfirst hlast
    rcases (by omega : level = 2 ∨ level = 3 ∨ level = 4 ∨ level = 5) with rfl | rfl | rfl | rfl
    · exact ⟨some (-60), Outcome.eq_ok_of_toOption (by decide +kernel)⟩
    · exact ⟨none, Outcome.eq_ok_of_toOption (by decide +kernel)⟩
    · exact ⟨some 60, Outcome.eq_ok_of_toOption (by decide +kernel)⟩
    · exact ⟨some 30, Outcome.eq_ok_of_toOption (by decide +kernel)⟩
  have hrows : project (some c) 2 5 = .ok rows := Outcome.eq_ok_of_toOption (by decide +kernel)
  obtain ⟨found, hfound, -, -, -, hgrows, hsplit⟩ := project_folds hreq
  obtain rfl := Except.ok.inj (hrows.symm.trans hfound)
  refine ⟨hreq, hrows, hgrows, fun middle hfirst hlast => ?_⟩
  obtain ⟨front, bottom, next, rest, joined, hfront, hback, hjoin, -⟩ := hsplit middle hfirst hlast
  exact ⟨front, bottom, next, rest, joined, hfront, hback, hjoin⟩

end Table
end ExperienceCurves
