import ExperienceCurves.Proofs.Ranges
import ExperienceCurves.Proofs.Requirements
import Mathlib.Data.List.Chain
import Mathlib.Data.Prod.Lex

/-!
Which segments cover which levels. Overlaps are found by comparing all pairs of active segments, and
breaks by comparing neighbours only. For rising segments neighbours tell enough: where each one ends
with the level that the next one starts with, all of them together cover a range without a gap, and
no two share more than a boundary.
-/
namespace ExperienceCurves

/-- The whole number that a level is. -/
def Number.whole : Number → Int
  | int n => n
  | _ => 0

namespace Span

def first (s : Span) : Int := s.startLevel.whole

def last (s : Span) : Int := s.endLevel.whole

/-- Two ranges have more than one level in common. -/
def shares (s t : Span) : Bool := decide (max s.first t.first < min s.last t.last)

variable {s t : Span} {level : Int}

theorem IsWhole.startLevel_eq (h : s.IsWhole) : s.startLevel = .int s.first := by
  obtain ⟨a, b, ha, -⟩ := h
  rw [first, ha]
  rfl

theorem IsWhole.endLevel_eq (h : s.IsWhole) : s.endLevel = .int s.last := by
  obtain ⟨a, b, -, hb⟩ := h
  rw [last, hb]
  rfl

theorem IsWhole.covers_iff (h : s.IsWhole) :
    s.covers (.int level) = true ↔ s.first ≤ level ∧ level ≤ s.last := by
  rw [covers, h.startLevel_eq, h.endLevel_eq, Number.le_int, Number.le_int, Bool.and_eq_true,
    decide_eq_true_eq, decide_eq_true_eq]

theorem shares_iff : s.shares t = true ↔ ∃ k l : Int, k < l ∧
    (s.first ≤ k ∧ k ≤ s.last) ∧ (t.first ≤ k ∧ k ≤ t.last) ∧
    (s.first ≤ l ∧ l ≤ s.last) ∧ (t.first ≤ l ∧ l ≤ t.last) := by
  rw [shares, decide_eq_true_eq]
  constructor
  · intro h
    exact ⟨max s.first t.first, min s.last t.last, h, by omega, by omega, by omega, by omega⟩
  · rintro ⟨k, l, hkl, hsk, htk, hsl, htl⟩
    omega

end Span

/-- Asking about each element keeps those with the answer yes. -/
theorem filterM_eq_ok {α : Type} {ask : α → Except Fault Bool} (answer : α → Bool)
    {elements : List α} (h : ∀ a ∈ elements, ask a = .ok (answer a)) :
    elements.filterM ask = .ok (elements.filter answer) := by
  have haux (before : List α) : List.filterAuxM ask elements before =
      .ok ((elements.filter answer).reverse ++ before) := by
    induction elements generalizing before with
    | nil => rfl
    | cons a rest ih =>
      unfold List.filterAuxM
      rw [h a List.mem_cons_self]
      refine (ih (fun b hb => h b (List.mem_cons_of_mem a hb)) _).trans ?_
      cases hanswer : answer a <;> simp [hanswer]
  unfold List.filterM
  rw [haux, List.append_nil]
  exact congrArg Except.ok (List.reverse_reverse _)

namespace Curve

theorem shareLevels_eq {s t : Span} (hs : s.IsWhole) (ht : t.IsWhole) :
    shareLevels s t = .ok (s.shares t) := by
  unfold shareLevels sharedLevels
  rw [hs.startLevel_eq, hs.endLevel_eq, ht.startLevel_eq, ht.endLevel_eq, Number.min_int,
    Number.max_int, Number.sub_int]
  change Except.ok (decide (0 < min s.last t.last - max s.first t.first)) = _
  simp only [Span.shares, Int.sub_pos]

/-- The positions of the pairs that share levels, in the order of their first elements. -/
def overlapPositions : List Span → List (ℕ × ℕ)
  | [] => []
  | s :: rest =>
      ((rest.zipIdx 1).filter fun entry => s.shares entry.1).map (fun entry => (0, entry.2)) ++
        (overlapPositions rest).map (Prod.map Nat.succ Nat.succ)

/-- The name at a position. -/
def nameAt (spans : List Span) (i : ℕ) : String := (spans[i]?.map Span.id).getD ""

variable {spans : List Span}

theorem mem_overlapPositions {i j : ℕ} : (i, j) ∈ overlapPositions spans ↔
    i < j ∧ ∃ s t, spans[i]? = some s ∧ spans[j]? = some t ∧ s.shares t = true := by
  induction spans generalizing i j with
  | nil => simp [overlapPositions]
  | cons s rest ih =>
    have hrest : (i, j) ∈ (overlapPositions rest).map (Prod.map Nat.succ Nat.succ) ↔
        ∃ k l, i = k + 1 ∧ j = l + 1 ∧ (k, l) ∈ overlapPositions rest := by
      constructor
      · intro h
        obtain ⟨⟨k, l⟩, hkl, heq⟩ := List.mem_map.1 h
        cases heq
        exact ⟨k, l, rfl, rfl, hkl⟩
      · rintro ⟨k, l, rfl, rfl, h⟩
        exact List.mem_map.2 ⟨(k, l), h, rfl⟩
    rw [overlapPositions, List.mem_append, hrest]
    cases i with
    | zero =>
      cases j with
      | zero => simp [List.mem_zipIdx_iff_le_and_getElem?_sub]
      | succ j => simp [List.mem_zipIdx_iff_le_and_getElem?_sub]
    | succ i =>
      cases j with
      | zero => simp
      | succ j => simp [ih]

theorem overlapPositions_pairwise :
    (overlapPositions spans).Pairwise (Prod.Lex (· < ·) (· < ·)) := by
  have hsorted (rest : List Span) (k : ℕ) : (rest.zipIdx k).Pairwise fun a b => a.2 < b.2 := by
    induction rest generalizing k with
    | nil => exact List.Pairwise.nil
    | cons s rest ih =>
      exact List.pairwise_cons.2 ⟨fun entry h => List.le_snd_of_mem_zipIdx h, ih (k + 1)⟩
  induction spans with
  | nil => exact List.Pairwise.nil
  | cons s rest ih =>
    rw [overlapPositions, List.pairwise_append, List.pairwise_map, List.pairwise_map]
    refine ⟨((hsorted rest 1).filter _).imp fun h => .right _ h, ih.imp ?_, ?_⟩
    · intro p q h
      cases h with
      | left _ _ h => exact .left _ _ (Nat.succ_lt_succ h)
      | right _ h => exact .right _ (Nat.succ_lt_succ h)
    · intro p hp q hq
      obtain ⟨entry, -, rfl⟩ := List.mem_map.1 hp
      obtain ⟨r, -, rfl⟩ := List.mem_map.1 hq
      exact .left _ _ (Nat.succ_pos _)

/-- The overlaps are those of the pairs that share levels, each once and in order. -/
theorem overlapsAlong_eq (h : ∀ s ∈ spans, s.IsWhole) : overlapsAlong spans =
    .ok ((overlapPositions spans).map fun p => (nameAt spans p.1, nameAt spans p.2)) := by
  induction spans with
  | nil => rfl
  | cons s rest ih =>
    have hkept := filterM_eq_ok s.shares fun t ht =>
      shareLevels_eq (h s List.mem_cons_self) (h t (List.mem_cons_of_mem s ht))
    have hrest := ih fun t ht => h t (List.mem_cons_of_mem s ht)
    unfold overlapsAlong
    rw [hkept, hrest, overlapPositions, List.map_append, List.map_map, List.map_map]
    have hfirst : (rest.filter s.shares).map (fun t => (s.id, t.id)) =
        ((rest.zipIdx 1).filter fun entry => s.shares entry.1).map
          ((fun p : ℕ × ℕ => (nameAt (s :: rest) p.1, nameAt (s :: rest) p.2)) ∘
            fun entry => (0, entry.2)) := by
      conv_lhs => rw [← List.zipIdx_map_fst 1 rest, List.filter_map, List.map_map]
      apply List.map_congr_left
      rintro ⟨t, i⟩ hentry
      obtain ⟨hle, ht⟩ :=
        List.mem_zipIdx_iff_le_and_getElem?_sub.1 (List.mem_of_mem_filter hentry)
      obtain ⟨k, rfl⟩ : ∃ k, i = k + 1 := ⟨i - 1, by omega⟩
      simp only [Nat.add_sub_cancel] at ht
      simp [nameAt, ht]
    rw [← hfirst]
    rfl

/-- Whole rising ranges, each of which ends with the level that the next one starts with. -/
structure Touching (spans : List Span) : Prop where
  whole : ∀ s ∈ spans, s.IsWhole
  rising : ∀ s ∈ spans, s.first < s.last
  touches : spans.IsChain fun s t => s.last = t.first

namespace Touching

variable {s t : Span} {i j : ℕ} {level : Int}

theorem tail {rest : List Span} (h : Touching (s :: rest)) : Touching rest :=
  ⟨fun t ht => h.whole t (List.mem_cons_of_mem s ht),
    fun t ht => h.rising t (List.mem_cons_of_mem s ht), h.touches.tail⟩

theorem last_eq (h : Touching spans) (hs : spans[i]? = some s) (ht : spans[i + 1]? = some t) :
    s.last = t.first := by
  obtain ⟨hi, rfl⟩ := List.getElem?_eq_some_iff.1 hs
  obtain ⟨hj, rfl⟩ := List.getElem?_eq_some_iff.1 ht
  exact h.touches.getElem i hj

/-- Each range ends before all later ones start, or where the next one does. -/
theorem last_le (h : Touching spans) (hij : i < j) (hs : spans[i]? = some s)
    (ht : spans[j]? = some t) : s.last ≤ t.first ∧ (i + 1 < j → s.last < t.first) := by
  obtain ⟨d, rfl⟩ := Nat.exists_eq_add_of_lt hij
  induction d generalizing t with
  | zero => exact ⟨(h.last_eq hs ht).le, fun hlt => by omega⟩
  | succ d ih =>
    obtain ⟨r, hr⟩ : ∃ r, spans[i + d + 1]? = some r := by
      obtain ⟨hlt, -⟩ := List.getElem?_eq_some_iff.1 ht
      exact ⟨_, List.getElem?_eq_getElem (by omega)⟩
    obtain ⟨hle, -⟩ := ih (by omega) hr
    have hnext := h.last_eq hr ht
    have hrising := h.rising r (List.mem_of_getElem? hr)
    omega

theorem not_shares (h : Touching spans) (hij : i < j) (hs : spans[i]? = some s)
    (ht : spans[j]? = some t) : s.shares t = false := by
  have hle := (h.last_le hij hs ht).1
  rw [Span.shares, decide_eq_false_iff_not]
  omega

/-- Together the ranges cover all levels from the first start to the last end. By induction along
the sequence. -/
theorem covered_iff (h : Touching (s :: spans)) (ht : (s :: spans).getLast? = some t) :
    s.first < t.last ∧ ((∃ r ∈ s :: spans, r.first ≤ level ∧ level ≤ r.last) ↔
      s.first ≤ level ∧ level ≤ t.last) := by
  have hs := h.rising s List.mem_cons_self
  induction spans generalizing s with
  | nil =>
    obtain rfl : s = t := Option.some.inj ht
    exact ⟨hs, by simp⟩
  | cons next rest ih =>
    have hnext := h.rising next (List.mem_cons_of_mem s List.mem_cons_self)
    have hmeet : s.last = next.first := h.last_eq (i := 0) rfl rfl
    obtain ⟨hlt, hrest⟩ := ih h.tail (by rwa [List.getLast?_cons_cons] at ht) hnext
    rw [List.exists_mem_cons_iff, hrest]
    omega

end Touching

theorem last_eq_of_levelIssues {s t : Span} (hs : s.IsWhole) (ht : t.IsWhole)
    (h : ∀ i ∈ levelIssues s t, i.kind ≠ .levelGap ∧ i.kind ≠ .levelOverlap) :
    s.last = t.first := by
  unfold levelIssues at h
  rw [hs.endLevel_eq, ht.startLevel_eq, Number.lt_int, Number.lt_int] at h
  by_cases hgap : s.last < t.first
  · rw [if_pos (decide_eq_true hgap)] at h
    exact absurd rfl (h _ List.mem_cons_self).1
  · rw [if_neg (by simpa using hgap)] at h
    by_cases hoverlap : t.first < s.last
    · rw [if_pos (decide_eq_true hoverlap)] at h
      exact absurd rfl (h _ List.mem_cons_self).2
    · omega

/-- Rising segments without a gap or an overlap among the breaks touch. -/
theorem touching_of_issuesAlong {tolerance : Datum} {segments : List Segment}
    {issues : List ContinuityIssue} (hwhole : ∀ s ∈ segments, (Spanned.span s).IsWhole)
    (hrising : ∀ s ∈ segments, (Spanned.span s).startLevel.lt (Spanned.span s).endLevel = true)
    (h : issuesAlong tolerance segments = .ok issues)
    (hkinds : ∀ i ∈ issues, i.kind ≠ .levelGap ∧ i.kind ≠ .levelOverlap) :
    Touching (segments.map Spanned.span) where
  whole := List.forall_mem_map.2 hwhole
  rising := List.forall_mem_map.2 fun s hs => by
    have hlt := hrising s hs
    rwa [(hwhole s hs).startLevel_eq, (hwhole s hs).endLevel_eq, Number.lt_int,
      decide_eq_true_eq] at hlt
  touches := by
    clear hrising
    induction segments generalizing issues with
    | nil => exact List.isChain_nil
    | cons previous rest ih =>
      cases rest with
      | nil => exact List.isChain_singleton _
      | cons next rest =>
        obtain ⟨jumps, -, h⟩ := Outcome.bind_eq_ok_iff.1 h
        obtain ⟨others, hothers, h⟩ := Outcome.bind_eq_ok_iff.1 h
        obtain rfl := Except.ok.inj h
        have hnext := List.mem_cons_of_mem previous (List.mem_cons_self (a := next) (l := rest))
        refine .cons_cons (last_eq_of_levelIssues (hwhole previous List.mem_cons_self)
          (hwhole next hnext) fun i hi => hkinds i ?_) (ih ?_ hothers fun i hi => hkinds i ?_)
        · exact List.mem_append_left _ (List.mem_append_left _ hi)
        · exact fun s hs => hwhole s (List.mem_cons_of_mem previous hs)
        · exact List.mem_append_right _ hi

end Curve

namespace Requirement

/-- The requirement by one segment alone; nothing where its formula is undefined. -/
def bySegment (segment : Segment) (level : Number) : Outcome (Option Int) :=
  match ofSegment segment level with
  | .ok exp => .ok (some exp)
  | .error (.formula _) => .ok none
  | .error failure => .error failure

/-- A segment never leaves a level to the default growth. -/
theorem ofSegment_ne_uncovered (segment : Segment) (level other : Number) :
    ofSegment segment level ≠ .error (.uncovered other) := by
  intro h
  cases segment with
  | bezier segment =>
    obtain ⟨fault, -, hfailure⟩ := Outcome.ofFault_eq_error_iff.1 h
    cases hfailure
  | formula segment =>
    rcases Outcome.bind_eq_error_iff.1 h with hvalue | ⟨x, -, hsaturate⟩
    · rcases Formula.evaluate_failure hvalue with hformula | hread | ⟨v, given, hgiven, hfails⟩
      · cases hformula
      · rcases Formula.Expr.ofText_error hread with hformula | ⟨-, literal, hliteral⟩
        · cases hformula
        · cases hliteral
      · cases v with
        | level =>
          obtain rfl := Option.some.inj hgiven
          obtain ⟨fault, -, hfailure⟩ := Outcome.ofFault_eq_error_iff.1 hfails
          cases hfailure
        | size => cases hgiven
    · obtain ⟨fault, -, hfailure⟩ := Outcome.ofFault_eq_error_iff.1 hsaturate
      cases hfailure

/-- Where a segment covers the level it decides, and the default growth does not. -/
theorem atLevel_of_segmentAt? {c : Curve} {level : Number} {segment : Segment}
    (h : c.segmentAt? level = some segment) :
    atLevel (some c) level = bySegment segment level := by
  have hne := ofSegment_ne_uncovered segment level
  have hstrict : strict c level = ofSegment segment level := by
    unfold strict
    rw [h]
  unfold atLevel bySegment
  dsimp only
  rw [hstrict]
  cases hsegment : ofSegment segment level with
  | ok exp => rfl
  | error failure =>
    cases failure with
    | uncovered other => exact absurd hsegment (hne other)
    | _ => rfl

end Requirement

namespace Curve

/-- The active segment at a position covers the level. -/
def CoversAt (c : Curve) (i : ℕ) (level : Int) : Prop :=
  ∃ s, c.active[i]? = some s ∧ (Spanned.span s).covers (.int level) = true

/-- The level lies between the start of the first active segment and the end of the last. -/
def IsBetween (c : Curve) (level : Int) : Prop :=
  ∃ first last, c.active.head? = some first ∧ c.active.getLast? = some last ∧
    (Spanned.span first).startLevel.le (.int level) = true ∧
    (Number.int level).le (Spanned.span last).endLevel = true

/-- The active segment at a position ends with the level, and the next one starts with it. -/
def MeetsAt (c : Curve) (i : ℕ) (level : Int) : Prop :=
  ∃ s t, c.active[i]? = some s ∧ c.active[i + 1]? = some t ∧
    (Spanned.span s).endLevel = .int level ∧ (Spanned.span t).startLevel = .int level

/-- The active segments divide the levels among themselves: they have no overlap, they cover just
the levels between the first start and the last end, only a boundary of neighbours is covered twice
and belongs to the earlier one, and no level between the ends is left to the default growth. -/
structure Tiles (c : Curve) : Prop where
  overlaps_eq : c.overlaps = .ok []
  covered_iff : ∀ level, (∃ i, c.CoversAt i level) ↔ c.IsBetween level
  twice_iff : ∀ level, (∃ i j, i < j ∧ c.CoversAt i level ∧ c.CoversAt j level) ↔
    ∃ i, c.MeetsAt i level
  boundary : ∀ i level, c.MeetsAt i level →
    (∀ j, c.CoversAt j level ↔ j = i ∨ j = i + 1) ∧ c.segmentAt? (.int level) = c.active[i]?
  decided : ∀ level, c.IsBetween level → ∃ s, c.segmentAt? (.int level) = some s ∧
    Requirement.atLevel (some c) (.int level) = Requirement.bySegment s (.int level)

section Tiles

variable {c : Curve} {i j : ℕ} {level : Int}

def spans (c : Curve) : List Span := c.active.map Spanned.span

theorem getElem?_spans : c.spans[i]? = c.active[i]?.map Spanned.span := List.getElem?_map ..

theorem coversAt_iff (hwhole : ∀ s ∈ c.spans, s.IsWhole) : c.CoversAt i level ↔
    ∃ s, c.spans[i]? = some s ∧ s.first ≤ level ∧ level ≤ s.last := by
  constructor
  · rintro ⟨segment, hsegment, hcovers⟩
    have hs : c.spans[i]? = some (Spanned.span segment) := by
      rw [getElem?_spans, hsegment]
      rfl
    exact ⟨_, hs, (hwhole _ (List.mem_of_getElem? hs)).covers_iff.1 hcovers⟩
  · rintro ⟨s, hs, hcovers⟩
    have hspan := (hwhole s (List.mem_of_getElem? hs)).covers_iff.2 hcovers
    rw [getElem?_spans] at hs
    obtain ⟨segment, hsegment, rfl⟩ := Option.map_eq_some_iff.1 hs
    exact ⟨segment, hsegment, hspan⟩

theorem meetsAt_iff (hwhole : ∀ s ∈ c.spans, s.IsWhole) : c.MeetsAt i level ↔
    ∃ s t, c.spans[i]? = some s ∧ c.spans[i + 1]? = some t ∧ s.last = level ∧ t.first = level := by
  constructor
  · rintro ⟨a, b, ha, hb, hend, hstart⟩
    refine ⟨Spanned.span a, Spanned.span b, ?_, ?_, congrArg Number.whole hend,
      congrArg Number.whole hstart⟩
    · rw [getElem?_spans, ha]
      rfl
    · rw [getElem?_spans, hb]
      rfl
  · rintro ⟨s, t, hs, ht, rfl, hstart⟩
    have hend := (hwhole s (List.mem_of_getElem? hs)).endLevel_eq
    have hnext := (hwhole t (List.mem_of_getElem? ht)).startLevel_eq
    rw [getElem?_spans] at hs ht
    obtain ⟨a, ha, rfl⟩ := Option.map_eq_some_iff.1 hs
    obtain ⟨b, hb, rfl⟩ := Option.map_eq_some_iff.1 ht
    exact ⟨a, b, ha, hb, hend, hstart ▸ hnext⟩

theorem isBetween_iff (hwhole : ∀ s ∈ c.spans, s.IsWhole) : c.IsBetween level ↔
    ∃ s t, c.spans.head? = some s ∧ c.spans.getLast? = some t ∧ s.first ≤ level ∧
      level ≤ t.last := by
  unfold IsBetween spans
  simp only [List.head?_map, List.getLast?_map, Option.map_eq_some_iff]
  constructor
  · rintro ⟨a, b, ha, hb, hfirst, hlast⟩
    have hawhole := hwhole _ (List.mem_map_of_mem (List.mem_of_mem_head? ha))
    have hbwhole := hwhole _ (List.mem_map_of_mem (List.mem_of_mem_getLast? hb))
    rw [hawhole.startLevel_eq, Number.le_int, decide_eq_true_eq] at hfirst
    rw [hbwhole.endLevel_eq, Number.le_int, decide_eq_true_eq] at hlast
    exact ⟨_, _, ⟨a, ha, rfl⟩, ⟨b, hb, rfl⟩, hfirst, hlast⟩
  · rintro ⟨-, -, ⟨a, ha, rfl⟩, ⟨b, hb, rfl⟩, hfirst, hlast⟩
    have hawhole := hwhole _ (List.mem_map_of_mem (List.mem_of_mem_head? ha))
    have hbwhole := hwhole _ (List.mem_map_of_mem (List.mem_of_mem_getLast? hb))
    refine ⟨a, b, ha, hb, ?_, ?_⟩
    · rw [hawhole.startLevel_eq, Number.le_int, decide_eq_true_eq]
      exact hfirst
    · rw [hbwhole.endLevel_eq, Number.le_int, decide_eq_true_eq]
      exact hlast

namespace Touching

theorem exists_coversAt_iff (h : Touching c.spans) :
    (∃ i, c.CoversAt i level) ↔ c.IsBetween level := by
  have hcovered : (∃ i, c.CoversAt i level) ↔
      ∃ s ∈ c.spans, s.first ≤ level ∧ level ≤ s.last := by
    simp only [coversAt_iff h.whole, List.mem_iff_getElem?]
    exact ⟨fun ⟨i, s, hs, hlevel⟩ => ⟨s, ⟨i, hs⟩, hlevel⟩,
      fun ⟨s, ⟨i, hs⟩, hlevel⟩ => ⟨i, s, hs, hlevel⟩⟩
  rw [hcovered, isBetween_iff h.whole]
  cases hspans : c.spans with
  | nil => simp
  | cons first rest =>
    obtain ⟨last, hlast⟩ : ∃ last, (first :: rest).getLast? = some last :=
      ⟨_, List.getLast?_eq_some_getLast (List.cons_ne_nil first rest)⟩
    rw [hspans] at h
    rw [(h.covered_iff hlast).2, hlast]
    simp

/-- At a boundary only the two neighbours cover the level. -/
theorem coversAt_of_meetsAt (h : Touching c.spans) (hmeets : c.MeetsAt i level) :
    c.CoversAt j level ↔ j = i ∨ j = i + 1 := by
  obtain ⟨s, t, hs, ht, hend, hstart⟩ := (meetsAt_iff h.whole).1 hmeets
  have hsrising := h.rising s (List.mem_of_getElem? hs)
  have htrising := h.rising t (List.mem_of_getElem? ht)
  rw [coversAt_iff h.whole]
  constructor
  · rintro ⟨r, hr, hfirst, hlast⟩
    by_contra hother
    by_cases hbefore : j < i
    · have hle := (h.last_le hbefore hr hs).1
      omega
    · have hlt := (h.last_le (show i + 1 < j by omega) ht hr).1
      omega
  · rintro (rfl | rfl)
    · exact ⟨s, hs, by omega, by omega⟩
    · exact ⟨t, ht, by omega, by omega⟩

/-- Only a boundary is covered twice. -/
theorem twice_iff (h : Touching c.spans) :
    (∃ i j, i < j ∧ c.CoversAt i level ∧ c.CoversAt j level) ↔ ∃ i, c.MeetsAt i level := by
  constructor
  · rintro ⟨i, j, hij, hi, hj⟩
    obtain ⟨s, hs, hsfirst, hslast⟩ := (coversAt_iff h.whole).1 hi
    obtain ⟨t, ht, htfirst, htlast⟩ := (coversAt_iff h.whole).1 hj
    obtain ⟨hle, hlt⟩ := h.last_le hij hs ht
    obtain rfl : j = i + 1 := by
      by_contra hne
      have := hlt (by omega)
      omega
    exact ⟨i, (meetsAt_iff h.whole).2 ⟨s, t, hs, ht, by omega, by omega⟩⟩
  · rintro ⟨i, hmeets⟩
    exact ⟨i, i + 1, Nat.lt_succ_self i, (h.coversAt_of_meetsAt hmeets).2 (Or.inl rfl),
      (h.coversAt_of_meetsAt hmeets).2 (Or.inr rfl)⟩

/-- The first segment that covers a boundary is the earlier neighbour. -/
theorem segmentAt?_of_meetsAt (h : Touching c.spans) (hmeets : c.MeetsAt i level) :
    c.segmentAt? (.int level) = c.active[i]? := by
  obtain ⟨s, hs, hcovers⟩ := (h.coversAt_of_meetsAt hmeets).2 (Or.inl rfl)
  obtain ⟨hi, rfl⟩ := List.getElem?_eq_some_iff.1 hs
  rw [hs]
  refine List.find?_eq_some_iff_getElem.2 ⟨hcovers, i, hi, rfl, ?_⟩
  intro j hj
  rw [Bool.not_eq_true']
  by_contra hcovered
  have hat : c.CoversAt j level :=
    ⟨_, List.getElem?_eq_getElem (hj.trans hi), Bool.not_eq_false _ ▸ hcovered⟩
  have := (h.coversAt_of_meetsAt hmeets).1 hat
  omega

theorem tiles (h : Touching c.spans) : c.Tiles where
  overlaps_eq := by
    have hnone : overlapPositions c.spans = [] := by
      apply List.eq_nil_iff_forall_not_mem.2
      rintro ⟨i, j⟩ hmem
      obtain ⟨hij, s, t, hs, ht, hshares⟩ := mem_overlapPositions.1 hmem
      cases hshares.symm.trans (h.not_shares hij hs ht)
    exact (overlapsAlong_eq h.whole).trans (by rw [hnone]; rfl)
  covered_iff _ := h.exists_coversAt_iff
  twice_iff _ := h.twice_iff
  boundary _ _ hmeets := ⟨fun _ => h.coversAt_of_meetsAt hmeets, h.segmentAt?_of_meetsAt hmeets⟩
  decided level hbetween := by
    obtain ⟨i, s, hs, hcovers⟩ := h.exists_coversAt_iff.2 hbetween
    have hsome : (c.segmentAt? (.int level)).isSome :=
      List.find?_isSome.2 ⟨s, List.mem_of_getElem? hs, hcovers⟩
    obtain ⟨found, hfound⟩ := Option.isSome_iff_exists.1 hsome
    exact ⟨found, hfound, Requirement.atLevel_of_segmentAt? hfound⟩

end Touching

/-- Overlaps are exactly the pairs of active segments that both cover two common levels, each once
and in the order of their positions. Where all active segments rise and no gap or overlap is among
the breaks, the segments divide the levels among themselves. -/
theorem overlaps_and_coverage (hwhole : ∀ s ∈ c.active, (Spanned.span s).IsWhole) :
    (∃ positions : List (ℕ × ℕ),
      c.overlaps = .ok (positions.map fun p => (nameAt c.spans p.1, nameAt c.spans p.2)) ∧
      positions.Pairwise (Prod.Lex (· < ·) (· < ·)) ∧
      ∀ i j, (i, j) ∈ positions ↔ i < j ∧ ∃ k l : Int, k < l ∧ c.CoversAt i k ∧ c.CoversAt j k ∧
        c.CoversAt i l ∧ c.CoversAt j l) ∧
    ∀ tolerance issues, c.continuityIssues tolerance = .ok issues →
      (∀ issue ∈ issues, issue.kind ≠ .levelGap ∧ issue.kind ≠ .levelOverlap) →
      (∀ s ∈ c.active, (Spanned.span s).startLevel.lt (Spanned.span s).endLevel = true) →
      c.Tiles := by
  have hspans : ∀ s ∈ c.spans, s.IsWhole := List.forall_mem_map.2 hwhole
  refine ⟨⟨overlapPositions c.spans, overlapsAlong_eq hspans, overlapPositions_pairwise, ?_⟩, ?_⟩
  · intro i j
    simp only [mem_overlapPositions, Span.shares_iff, coversAt_iff hspans]
    constructor
    · rintro ⟨hij, s, t, hs, ht, k, l, hkl, hsk, htk, hsl, htl⟩
      exact ⟨hij, k, l, hkl, ⟨s, hs, hsk⟩, ⟨t, ht, htk⟩, ⟨s, hs, hsl⟩, ⟨t, ht, htl⟩⟩
    · rintro ⟨hij, k, l, hkl, ⟨s, hs, hsk⟩, ⟨t, ht, htk⟩, ⟨s', hs', hsl⟩, ⟨t', ht', htl⟩⟩
      obtain rfl := Option.some.inj (hs.symm.trans hs')
      obtain rfl := Option.some.inj (ht.symm.trans ht')
      exact ⟨hij, s, t, hs, ht, k, l, hkl, hsk, htk, hsl, htl⟩
  · intro tolerance issues hissues hkinds hrising
    exact (touching_of_issuesAlong hwhole hrising hissues hkinds).tiles

/-- Two neighbours that meet at level ten, which belongs to the first of them. -/
theorem overlaps_and_coverage_neighbours :
    let c : Curve :=
      ⟨[⟨⟨"a", .int 1, .int 10⟩, "100*x"⟩, ⟨⟨"b", .int 10, .int 20⟩, "200*x"⟩], [], false, none⟩
    (∀ s ∈ c.active, (Spanned.span s).IsWhole) ∧
      c.continuityIssues (.number usualTolerance) = .ok [] ∧
      (∀ s ∈ c.active, (Spanned.span s).startLevel.lt (Spanned.span s).endLevel = true) ∧
      c.Tiles ∧ c.MeetsAt 0 10 := by
  intro c
  have hwhole : ∀ s ∈ c.active, (Spanned.span s).IsWhole := by
    intro s hs
    rcases List.mem_pair.1 hs with rfl | rfl
    · exact ⟨1, 10, rfl, rfl⟩
    · exact ⟨10, 20, rfl, rfl⟩
  have hissues : c.continuityIssues (.number usualTolerance) = .ok [] := rfl
  have hrising : ∀ s ∈ c.active,
      (Spanned.span s).startLevel.lt (Spanned.span s).endLevel = true := by decide
  exact ⟨hwhole, hissues, hrising,
    (overlaps_and_coverage hwhole).2 _ [] hissues (fun issue h => nomatch h) hrising,
    ⟨_, _, rfl, rfl, rfl, rfl⟩⟩

end Tiles

end Curve

end ExperienceCurves
