import ExperienceCurves.Profile
import ExperienceCurves.Proofs.Grants
import ExperienceCurves.Proofs.NumberOrder
import ExperienceCurves.Proofs.NumericNames

/-!
Plain data of curves, characters, growth formulas and stats. Reading converts fields, which writing
does not: names become texts, levels whole numbers and requirements binary ones. What was read once
has such fields, so reading it again, as it is written, gives the same value.
-/
namespace ExperienceCurves

variable {d : Datum}

/-- A list whose elements are read back one by one is read back. -/
theorem mapM_map_eq_ok {α β ε : Type} {read : β → Except ε α} {write : α → β} {as : List α}
    (h : ∀ a ∈ as, read (write a) = .ok a) : (as.map write).mapM read = .ok as := by
  induction as with
  | nil => rfl
  | cons a as ih =>
    rw [List.map_cons, List.mapM_cons, h a List.mem_cons_self,
      ih fun a ha => h a (List.mem_cons_of_mem _ ha)]
    rfl

/-- What holds of all that is read from one datum holds of all that is read from a list. -/
theorem forall_of_mapM {α β ε : Type} {read : β → Except ε α} {P : α → Prop} {ds : List β}
    {as : List α} (hread : ∀ d a, read d = .ok a → P a) (h : ds.mapM read = .ok as) :
    ∀ a ∈ as, P a := by
  rcases Editing.mapM_cases read ds with ⟨bs, hbs, -, hfrom⟩ | ⟨-, -, failure, -, hfailure⟩
  · obtain rfl := Except.ok.inj (h.symm.trans hbs)
    intro a ha
    obtain ⟨d, -, hd⟩ := hfrom a ha
    exact hread d a hd
  · cases h.symm.trans hfailure

theorem Datum.toItems_list (items : List Datum) : (Datum.list items).toItems = .ok items := by
  unfold toItems
  cases items <;> rfl

theorem Datum.toFields_record (fields : List (String × Datum)) :
    (Datum.record fields).toFields = .ok fields := by
  unfold toFields
  cases fields <;> rfl

namespace Span

theorem whole_of_ofDatum {s : Span} (h : ofDatum d = .ok s) :
    ∃ id first last, s = ⟨id, .int first, .int last⟩ := by
  obtain ⟨_, -, h⟩ := Outcome.bind_eq_ok_iff.1 h
  obtain ⟨id, -, h⟩ := Outcome.bind_eq_ok_iff.1 h
  obtain ⟨_, -, h⟩ := Outcome.bind_eq_ok_iff.1 h
  obtain ⟨first, -, h⟩ := Outcome.bind_eq_ok_iff.1 h
  obtain ⟨_, -, h⟩ := Outcome.bind_eq_ok_iff.1 h
  obtain ⟨last, -, h⟩ := Outcome.bind_eq_ok_iff.1 h
  exact ⟨id, first, last, (Except.ok.inj h).symm⟩

end Span

/-- A formula segment that was read is read again. -/
theorem FormulaSegment.ofDatum_toDatum {s : FormulaSegment} (h : ofDatum d = .ok s) :
    ofDatum s.toDatum = .ok s := by
  obtain ⟨span, hspan, h⟩ := Outcome.bind_eq_ok_iff.1 h
  obtain ⟨_, -, h⟩ := Outcome.bind_eq_ok_iff.1 h
  obtain ⟨formula, -, h⟩ := Outcome.bind_eq_ok_iff.1 h
  obtain rfl := Except.ok.inj h
  obtain ⟨id, first, last, rfl⟩ := Span.whole_of_ofDatum hspan
  rfl

/-- A Bezier segment that was read is read again. Control points that were missing are there
now. -/
theorem BezierSegment.ofDatum_toDatum {s : BezierSegment} (h : ofDatum d = .ok s) :
    ofDatum s.toDatum = .ok s := by
  obtain ⟨span, hspan, h⟩ := Outcome.bind_eq_ok_iff.1 h
  obtain ⟨_, -, h⟩ := Outcome.bind_eq_ok_iff.1 h
  obtain ⟨startExp, -, h⟩ := Outcome.bind_eq_ok_iff.1 h
  obtain ⟨_, -, h⟩ := Outcome.bind_eq_ok_iff.1 h
  obtain ⟨endExp, -, h⟩ := Outcome.bind_eq_ok_iff.1 h
  obtain ⟨control1, -, h⟩ := Outcome.bind_eq_ok_iff.1 h
  obtain ⟨control2, -, h⟩ := Outcome.bind_eq_ok_iff.1 h
  obtain rfl := Except.ok.inj h
  obtain ⟨id, first, last, rfl⟩ := Span.whole_of_ofDatum hspan
  rfl

namespace Curve

/-- Both sequences hold segments that are read again, and no scale is null. -/
theorem ofDatum_eq_ok {c : Curve} (h : ofDatum d = .ok c) :
    (∀ s ∈ c.segments, FormulaSegment.ofDatum s.toDatum = .ok s) ∧
      (∀ s ∈ c.bezierSegments, BezierSegment.ofDatum s.toDatum = .ok s) ∧
      c.yAxisMax ≠ some .null := by
  obtain ⟨_, -, h⟩ := Outcome.bind_eq_ok_iff.1 h
  obtain ⟨_, -, h⟩ := Outcome.bind_eq_ok_iff.1 h
  obtain ⟨segments, hsegments, h⟩ := Outcome.bind_eq_ok_iff.1 h
  obtain ⟨_, -, h⟩ := Outcome.bind_eq_ok_iff.1 h
  obtain ⟨_, -, h⟩ := Outcome.bind_eq_ok_iff.1 h
  obtain ⟨bezierSegments, hbezier, h⟩ := Outcome.bind_eq_ok_iff.1 h
  obtain ⟨useBezier, -, h⟩ := Outcome.bind_eq_ok_iff.1 h
  obtain ⟨scale, -, h⟩ := Outcome.bind_eq_ok_iff.1 h
  obtain rfl := Except.ok.inj h
  refine ⟨forall_of_mapM (fun _ _ => FormulaSegment.ofDatum_toDatum) hsegments,
    forall_of_mapM (fun _ _ => BezierSegment.ofDatum_toDatum) hbezier, ?_⟩
  dsimp only
  split
  · nofun
  · next hnotNull => exact hnotNull

/-- A curve that was read is read again. A scale is only written where there is one. -/
theorem ofDatum_toDatum {c : Curve} (h : ofDatum d = .ok c) : ofDatum c.toDatum = .ok c := by
  obtain ⟨hsegments, hbezier, hscale⟩ := ofDatum_eq_ok h
  refine Outcome.bind_eq_ok_iff.2 ⟨_, rfl, ?_⟩
  refine Outcome.bind_eq_ok_iff.2 ⟨_, Datum.toItems_list _, ?_⟩
  refine Outcome.bind_eq_ok_iff.2 ⟨_, mapM_map_eq_ok hsegments, ?_⟩
  refine Outcome.bind_eq_ok_iff.2 ⟨_, rfl, ?_⟩
  refine Outcome.bind_eq_ok_iff.2 ⟨_, Datum.toItems_list _, ?_⟩
  refine Outcome.bind_eq_ok_iff.2 ⟨_, mapM_map_eq_ok hbezier, ?_⟩
  refine Outcome.bind_eq_ok_iff.2 ⟨_, rfl, ?_⟩
  obtain ⟨segments, bezierSegments, useBezier, yAxisMax⟩ := c
  cases yAxisMax with
  | none => cases useBezier <;> rfl
  | some scale =>
    cases scale with
    | null => exact absurd rfl hscale
    | number _ | text _ | list _ | record _ => cases useBezier <;> rfl

end Curve

/-- A whole part of a maximum is not below a level that the maximum is not below. -/
theorem Number.le_of_truncate {n top : Int} {x : Number} (hn : 0 ≤ n) (hle : (int n).le x = true)
    (h : x.truncate = .ok top) : n ≤ top := by
  have hposition := (le_iff rfl (isNan_of_le hle)).1 hle
  unfold truncate at h
  rcases plain_cases x with ⟨m, hm⟩ | ⟨b, rfl, hb⟩
  · rw [hm] at h
    obtain rfl := Except.ok.inj h
    rw [(position_of_plain hm).2] at hposition
    exact Rat.intCast_le_intCast.1 (WithTop.coe_le_coe.1 (WithBot.coe_le_coe.1 hposition))
  · cases b with
    | nan => cases h
    | infinite negative => cases h
    | finite negative mantissa exponent hcanonical =>
      have hle : (n : Rat) ≤ (Binary64.finite negative mantissa exponent hcanonical).toRat :=
        WithTop.coe_le_coe.1 (WithBot.coe_le_coe.1 hposition)
      have hnonneg : (0 : Rat) ≤ n := by exact_mod_cast hn
      rw [← Except.ok.inj h, if_neg (hnonneg.trans hle).not_gt]
      exact Rat.le_floor_iff.2 hle

namespace Progression

/-- Reading cuts a maximum that is no whole number, and gives everything else as it was. -/
theorem exists_ofDatum_toDatum (s : Progression) {top : Int} (h : s.maxLevel.truncate = .ok top) :
    ∃ t, ofDatum s.toDatum = .ok t ∧ t.level = s.level ∧ t.exp = s.exp ∧
      t.expToNext = s.expToNext ∧ t.maxLevel = .int top := by
  have hone := s.one_le_level
  have hmax := Number.le_of_truncate (by omega) s.level_le_maxLevel h
  have hnothing : (0 : Number).lt 0 = false := rfl
  obtain ⟨probe, hprobe, -⟩ := exists_make s.expToNext hone hmax hnothing
  obtain ⟨t, ht, hfields⟩ := exists_make s.expToNext hone hmax s.exp_not_negative
  refine ⟨t, ?_, hfields⟩
  change (Outcome.ofFault s.maxLevel.truncate >>= fun maxLevel =>
    make s.level 0 s.expToNext (.int maxLevel) >>= fun _ =>
      make s.level s.exp s.expToNext (.int maxLevel)) = _
  rw [h]
  exact Outcome.bind_eq_ok_iff.2 ⟨top, rfl, Outcome.bind_eq_ok_iff.2 ⟨probe, hprobe, ht⟩⟩

theorem ofDatum_toDatum (s : Progression) {maxLevel : Int} (h : s.maxLevel = .int maxLevel) :
    ofDatum s.toDatum = .ok s := by
  obtain ⟨level, exp, expToNext, _, _, _, _⟩ := s
  subst h
  obtain ⟨t, ht, hlevel, hexp, hneed, hmax⟩ :=
    exists_ofDatum_toDatum ⟨level, exp, expToNext, .int maxLevel, ‹_›, ‹_›, ‹_›⟩ rfl
  obtain ⟨_, _, _, _, _, _, _⟩ := t
  subst hlevel hexp hneed hmax
  exact ht

end Progression

theorem Growth.ofDatum_toDatum (g : Growth) : ofDatum g.toDatum = .ok g := by
  obtain ⟨kind, a, b⟩ := g
  cases kind <;> rfl

namespace StatsProfile

theorem baseOfDatum_record (fields : List (String × Datum)) :
    baseOfDatum (.record fields) = .ok fields := by
  unfold baseOfDatum
  cases fields <;> rfl

theorem ofDatum_toDatum (p : StatsProfile) : ofDatum p.toDatum = .ok p := by
  have hgrowth : (p.growth.map fun entry => (entry.1, entry.2.toDatum)).mapM (fun field => do
      return (field.1, ← StatGrowth.ofDatum field.2)) = (.ok p.growth : Outcome _) :=
    mapM_map_eq_ok fun _ _ => rfl
  refine Outcome.bind_eq_ok_iff.2 ⟨_, rfl, ?_⟩
  refine Outcome.bind_eq_ok_iff.2 ⟨_, baseOfDatum_record _, ?_⟩
  refine Outcome.bind_eq_ok_iff.2 ⟨_, rfl, ?_⟩
  refine Outcome.bind_eq_ok_iff.2 ⟨_, Datum.toFields_record _, ?_⟩
  exact Outcome.bind_eq_ok_iff.2 ⟨_, hgrowth, rfl⟩

end StatsProfile

end ExperienceCurves
