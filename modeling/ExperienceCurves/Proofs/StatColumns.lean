import ExperienceCurves.Proofs.TableColumns
import ExperienceCurves.Stats

/-!
The columns of a table of stats. A stat is computed at each level anew, as its base and the sum of
all increases since level 2, and its growth column is computed beside it. For whole base values the
two agree: a stat rises from level to level by its growth, wherever the table starts, and up to
level 1 it stays at its base.
-/
namespace ExperienceCurves

/-- Reading every element of a list, where each one has a result. -/
theorem mapM_eq_ok {α β ε : Type} {f : α → Except ε β} {g : α → β} {as : List α}
    (h : ∀ a ∈ as, f a = .ok (g a)) : as.mapM f = .ok (as.map g) := by
  induction as with
  | nil => rfl
  | cons a as ih =>
    rw [List.mapM_cons, h a List.mem_cons_self, ih fun a ha => h a (List.mem_cons_of_mem _ ha)]
    rfl

theorem Datum.toCount_eq_ok {d : Datum} {n : Int} (h : d.toCount = .ok n) :
    ∃ x, d = .number x ∧ x.plain = .int n := by
  unfold toCount at h
  split at h
  case h_1 x =>
    split at h
    case h_1 count hx => exact ⟨x, rfl, by rw [hx, Except.ok.inj h]⟩
    case h_2 => cases h
  case h_2 => cases h

theorem Number.add_of_plain {x y : Number} {m n : Int} (hx : x.plain = .int m)
    (hy : y.plain = .int n) : x.add y = .ok (.int (m + n)) := by
  rw [add, combine, hx, hy]

theorem Number.mul_of_plain {x y : Number} {m n : Int} (hx : x.plain = .int m)
    (hy : y.plain = .int n) : x.mul y = .ok (.int (m * n)) := by
  rw [mul, combine, hx, hy]

theorem Table.levels_eq_nil {first last : Int} (h : last < first) :
    Table.levels first last = [] := by
  rw [Table.levels, show (last + 1 - first).toNat = 0 by omega]
  rfl

theorem Table.levels_eq_concat {first last : Int} (h : first ≤ last) :
    Table.levels first last = Table.levels first (last - 1) ++ [last] := by
  rw [levels_append (by omega) (by omega : last - 1 ≤ last), sub_add_cancel,
    levels_eq_cons (le_refl last), levels_eq_nil (by omega : last < last + 1)]

namespace StatGrowth

variable {g : StatGrowth} {gain : Int → Int} {level a b : Int}

theorem increase_of_le_one (g : StatGrowth) (h : level ≤ 1) : g.increase (.int level) = .ok 0 := by
  rw [increase, Number.one_eq, Number.le_int, if_pos (decide_eq_true h)]
  rfl

theorem increase_of_whole (ha : g.a.toCount = .ok a) (hb : g.b.toCount = .ok b)
    (h : 2 ≤ level) : g.increase (.int level) = .ok (a * (level - 1) + b) := by
  obtain ⟨x, hga, hx⟩ := Datum.toCount_eq_ok ha
  obtain ⟨y, hgb, hy⟩ := Datum.toCount_eq_ok hb
  have hlevel : ¬decide (level ≤ 1) = true := by simpa using Int.lt_iff_add_one_le.2 h
  have hslope : x.mul (.int (level - 1)) = .ok (.int (a * (level - 1))) :=
    Number.mul_of_plain hx rfl
  have hsum : (Number.int (a * (level - 1))).add y = .ok (.int (a * (level - 1) + b)) :=
    Number.add_of_plain rfl hy
  rw [increase, Number.one_eq, Number.le_int, if_neg hlevel, hga, hgb]
  simp only [Datum.toNumber, Number.sub_int, Outcome.liftM_ok, hslope, hsum, Number.floor_int,
    bind, Except.bind]

/-- The sum of all increases up to a level, each of which has a value. -/
theorem total_eq_sum (h : ∀ l ≤ level, g.increase (.int l) = .ok (gain l)) :
    g.total level = .ok ((Table.levels 2 level).map gain).sum := by
  have hfold (sum : Int) : ∀ levels : List Int, (∀ l ∈ levels, g.increase (.int l) = .ok (gain l)) →
      levels.foldlM (fun sum l => do return sum + (← g.increase (.int l))) sum =
        (.ok (sum + (levels.map gain).sum) : Outcome Int) := by
    intro levels hlevels
    induction levels generalizing sum with
    | nil => rw [List.foldlM_nil, List.map_nil, List.sum_nil, add_zero]; rfl
    | cons l levels ih =>
      rw [List.foldlM_cons, hlevels l List.mem_cons_self, List.map_cons, List.sum_cons, ← add_assoc]
      exact ih _ fun l hl => hlevels l (List.mem_cons_of_mem _ hl)
  rw [total, hfold 0 _ fun l hl => h l (Table.mem_levels hl).2, zero_add]

/-- The increases `a * (level - 1) + b` on the way to a level add up to a quadratic polynomial. -/
theorem sum_linear (hgain : ∀ l, 2 ≤ l → l ≤ level → gain l = a * (l - 1) + b) (h : 1 ≤ level) :
    ((Table.levels 2 level).map gain).sum = a * level * (level - 1) / 2 + b * (level - 1) := by
  have hdouble : 2 * ((Table.levels 2 level).map gain).sum =
      a * level * (level - 1) + 2 * (b * (level - 1)) := by
    induction level, h using Int.leInduction with
    | base =>
      rw [Table.levels_eq_nil (by decide)]
      simp
    | succ level h ih =>
      rw [Table.levels_eq_concat (by omega), add_sub_cancel_right, List.map_append, List.sum_append,
        mul_add, ih fun l hl hlevel => hgain l hl (by omega), List.map_singleton,
        List.sum_singleton, hgain _ (by omega) (le_refl _)]
      ring
  omega

end StatGrowth

namespace StatsProfile

variable {p : StatsProfile} {stat growth : Int → String → Int} {name : String} {level last : Int}

/-- The base value of a stat, which is zero if it is missing. -/
def baseOf (p : StatsProfile) (name : String) : Int :=
  match (Datum.lookup name p.base).map Datum.toCount with
  | some (.ok n) => n
  | _ => 0

/-- All base values that there are are whole. -/
def HasWholeBase (p : StatsProfile) : Prop :=
  ∀ name ∈ names, ∀ value, Datum.lookup name p.base = some value → ∃ n, value.toCount = .ok n

/-- Every stat has an increase at all levels up to the given one. -/
def GrowsTo (p : StatsProfile) (last : Int) : Prop :=
  ∀ name ∈ names, ∀ level ≤ last, ∃ n, (p.growthOf name).increase (.int level) = .ok n

/-- A level with its stats. -/
def columns (level : Int) (stat : String → Int) : List (String × Number) :=
  ("level", .int level) :: names.map fun name => (name, .int (stat name))

def growthColumns (growth : String → Int) : List (String × Number) :=
  names.map fun name => (name ++ "Growth", .int (growth name))

/-- The increase on reaching a level, and nothing where there is none. -/
def gainAt (p : StatsProfile) (level : Int) (name : String) : Int :=
  match (p.growthOf name).increase (.int level) with
  | .ok n => n
  | .error _ => 0

def statAt (p : StatsProfile) (level : Int) (name : String) : Int :=
  p.baseOf name + ((Table.levels 2 level).map fun l => p.gainAt l name).sum

theorem exists_plain_base (h : p.HasWholeBase) (hname : name ∈ names) :
    ∃ x, (Datum.lookup name p.base).getD (.int 0) = .number x ∧ x.plain = .int (p.baseOf name) := by
  unfold baseOf
  cases hvalue : Datum.lookup name p.base with
  | none => exact ⟨_, rfl, rfl⟩
  | some value =>
    obtain ⟨n, hn⟩ := h name hname value hvalue
    rw [Option.map_some, hn]
    exact Datum.toCount_eq_ok hn

theorem GrowsTo.increase_eq (h : p.GrowsTo last) (hname : name ∈ names) (hlevel : level ≤ last) :
    (p.growthOf name).increase (.int level) = .ok (p.gainAt level name) := by
  obtain ⟨n, hn⟩ := h name hname level hlevel
  rw [gainAt, hn]

/-- Below level 2 nothing can fail. -/
theorem growsTo_of_isOk (h : ∀ name ∈ names, ∀ level ∈ Table.levels 2 last,
    ((p.growthOf name).increase (.int level)).isOk = true) : p.GrowsTo last := by
  intro name hname level hlevel
  by_cases hone : level ≤ 1
  · exact ⟨0, StatGrowth.increase_of_le_one _ hone⟩
  · have hmem : level ∈ Table.levels 2 last :=
      List.mem_map.2 ⟨(level - 2).toNat, List.mem_range.2 (by omega), by omega⟩
    have hok := h name hname level hmem
    cases hincrease : (p.growthOf name).increase (.int level) with
    | ok n => exact ⟨n, rfl⟩
    | error failure =>
      rw [hincrease] at hok
      cases hok

section Levels

variable (hbase : p.HasWholeBase) (hgrowth : p.GrowsTo last)
include hbase hgrowth

theorem stat_eq (hname : name ∈ names) (hlevel : level ≤ last) :
    p.stat (.int level) name = .ok (.int (p.statAt level name)) := by
  obtain ⟨x, hvalue, hx⟩ := exists_plain_base hbase hname
  have htotal := StatGrowth.total_eq_sum (g := p.growthOf name)
    fun l hl => hgrowth.increase_eq hname (hl.trans hlevel)
  change ((p.growthOf name).total level >>= _) = _
  rw [htotal, hvalue]
  exact Outcome.liftM_eq_ok_iff.2 (Number.add_of_plain hx rfl)

theorem atLevel_eq (hlevel : level ≤ last) :
    p.atLevel (.int level) = .ok (columns level (p.statAt level)) := by
  have hstats : names.mapM (fun name => do return (name, ← p.stat (.int level) name)) =
      (.ok (names.map fun name => (name, .int (p.statAt level name))) : Outcome _) := by
    apply mapM_eq_ok
    intro name hname
    rw [stat_eq hbase hgrowth hname hlevel]
    rfl
  exact Outcome.bind_eq_ok_iff.2 ⟨_, hstats, rfl⟩

theorem row_eq (hlevel : level ≤ last) :
    p.row (.int level) = .ok (columns level (p.statAt level) ++ growthColumns (p.gainAt level)) := by
  have hgains : names.mapM (fun name => do
      return (name ++ "Growth", Number.int (← (p.growthOf name).increase (.int level)))) =
      (.ok (growthColumns (p.gainAt level)) : Outcome _) := by
    apply mapM_eq_ok
    intro name hname
    rw [hgrowth.increase_eq hname hlevel]
    rfl
  exact Outcome.bind_eq_ok_iff.2 ⟨_, atLevel_eq hbase hgrowth hlevel,
    Outcome.bind_eq_ok_iff.2 ⟨_, hgains, rfl⟩⟩

end Levels

theorem statAt_of_le_one (p : StatsProfile) (name : String) (h : level ≤ 1) :
    p.statAt level name = p.baseOf name := by
  rw [statAt, Table.levels_eq_nil (by omega), List.map_nil, List.sum_nil, add_zero]

theorem statAt_eq_add (p : StatsProfile) (name : String) (h : 2 ≤ level) :
    p.statAt level name = p.statAt (level - 1) name + p.gainAt level name := by
  rw [statAt, Table.levels_eq_concat h, List.map_append, List.sum_append, List.map_singleton,
    List.sum_singleton, ← add_assoc, ← statAt]

theorem gainAt_of_le_one (p : StatsProfile) (name : String) (h : level ≤ 1) :
    p.gainAt level name = 0 := by
  rw [gainAt, StatGrowth.increase_of_le_one _ h]

theorem gainAt_of_whole {a b : Int} (ha : (p.growthOf name).a.toCount = .ok a)
    (hb : (p.growthOf name).b.toCount = .ok b) (h : 2 ≤ level) :
    p.gainAt level name = a * (level - 1) + b := by
  rw [gainAt, StatGrowth.increase_of_whole ha hb h]

/-- Every row of a table holds the stats at its level and their growth, which do not depend on where
the table starts. Stats start at their base and rise by their growth; with a whole slope and a whole
constant increase they are a polynomial of the level. -/
theorem stats_add_up (hbase : p.HasWholeBase) (hgrowth : p.GrowsTo last) :
    ∃ stat growth : Int → String → Int,
      (∀ level ≤ last, p.atLevel (.int level) = .ok (columns level (stat level))) ∧
      (∀ bottom, ∀ top ≤ last, p.table bottom top = .ok ((Table.levels bottom top).map fun level =>
        columns level (stat level) ++ growthColumns (growth level))) ∧
      ∀ name ∈ names, ∀ level ≤ last,
        (p.growthOf name).increase (.int level) = .ok (growth level name) ∧
        (2 ≤ level → stat level name = stat (level - 1) name + growth level name) ∧
        (level ≤ 1 → stat level name = p.baseOf name ∧ growth level name = 0) ∧
        ∀ a b, (p.growthOf name).a.toCount = .ok a → (p.growthOf name).b.toCount = .ok b →
          1 ≤ level →
            stat level name = p.baseOf name + a * level * (level - 1) / 2 + b * (level - 1) := by
  refine ⟨p.statAt, p.gainAt, fun level => atLevel_eq hbase hgrowth, ?_, ?_⟩
  · intro bottom top htop
    apply mapM_eq_ok
    intro level hlevel
    exact row_eq hbase hgrowth ((Table.mem_levels hlevel).2.trans htop)
  · intro name hname level hlevel
    refine ⟨hgrowth.increase_eq hname hlevel, statAt_eq_add p name, fun hone =>
      ⟨statAt_of_le_one p name hone, gainAt_of_le_one p name hone⟩, fun a b ha hb hone => ?_⟩
    rw [statAt, StatGrowth.sum_linear (fun l hl _ => gainAt_of_whole ha hb hl) hone, add_assoc]

/-- The first stat rises by one and a half per level, rounded down, and another one, without a base
value, by whole numbers. -/
theorem stats_add_up_with_halves :
    let p : StatsProfile := ⟨[("hp", .int 100)],
      [("hp", ⟨.real (Binary64.ofDecimal false 15 (-1)), .int 0⟩), ("attack", ⟨.int 2, .int 1⟩)]⟩
    p.HasWholeBase ∧ p.GrowsTo 4 ∧ ∃ stat growth : Int → String → Int,
      (∀ bottom, ∀ top ≤ 4, p.table bottom top = .ok ((Table.levels bottom top).map fun level =>
        columns level (stat level) ++ growthColumns (growth level))) ∧
      stat 1 "hp" = 100 ∧ growth 4 "hp" = 4 ∧ stat 4 "hp" = stat 3 "hp" + 4 ∧
      stat 4 "attack" = 15 := by
  intro p
  have hbase : p.HasWholeBase := by
    intro name _ value hvalue
    obtain ⟨-, rfl⟩ : name = "hp" ∧ value = .int 100 := by
      simpa [p, Datum.lookup, eq_comm] using hvalue
    exact ⟨100, rfl⟩
  have hgrowth : p.GrowsTo 4 := growsTo_of_isOk (by decide +kernel)
  obtain ⟨stat, growth, -, htable, hstats⟩ := stats_add_up hbase hgrowth
  obtain ⟨hgain, hstep, -⟩ := hstats "hp" (by decide) 4 (le_refl _)
  obtain ⟨-, -, hone, -⟩ := hstats "hp" (by decide) 1 (by decide)
  obtain ⟨-, -, -, hwhole⟩ := hstats "attack" (by decide) 4 (le_refl _)
  have hfour : (p.growthOf "hp").increase (.int 4) = .ok 4 :=
    Outcome.eq_ok_of_toOption (by decide +kernel)
  have hgrown : growth 4 "hp" = 4 := Except.ok.inj (hgain.symm.trans hfour)
  refine ⟨hbase, hgrowth, stat, growth, htable, (hone (le_refl _)).1, hgrown, ?_,
    hwhole 2 1 rfl rfl (by decide)⟩
  rw [hstep (by decide), hgrown]
  rfl

end StatsProfile
end ExperienceCurves
