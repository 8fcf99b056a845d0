import ExperienceCurves.Proofs.Amounts
import ExperienceCurves.Proofs.CheckedForms
import ExperienceCurves.Proofs.Ranges

/-!
Curves that can be sent. A form gives just the curves whose segments have a name, whole levels in
order from one on, a formula of a limited length, and requirements from zero on. Every such curve,
shown as data, meets the form again.
-/
namespace ExperienceCurves

/-- A named span of whole levels in order. -/
structure Span.IsSendable (s : Span) : Prop where
  named : s.id ≠ ""
  within : ∃ maxLevel, s.Within maxLevel

structure FormulaSegment.IsSendable (s : FormulaSegment) : Prop where
  span : s.toSpan.IsSendable
  formula_ne : s.formula ≠ ""
  formula_le : s.formula.length ≤ Service.Form.longestFormula

structure BezierSegment.IsSendable (s : BezierSegment) : Prop where
  span : s.toSpan.IsSendable
  startExp : s.startExp.IsAmount
  endExp : s.endExp.IsAmount

/-- Both sequences can be sent, and the scale is a binary number, if there is one. -/
structure Curve.IsSendable (c : Curve) : Prop where
  formula : ∀ s ∈ c.segments, s.IsSendable
  bezier : ∀ s ∈ c.bezierSegments, s.IsSendable
  scale : ∀ scale ∈ c.yAxisMax, ∃ x, scale = .real x

/-- The segment with both requirements as binary numbers. -/
def BezierSegment.inBinary (s : BezierSegment) : BezierSegment :=
  { s with startExp := s.startExp.inBinary, endExp := s.endExp.inBinary }

/-- The curve with all requirements as binary numbers, as it is read back. -/
def Curve.inBinary (c : Curve) : Curve :=
  { c with bezierSegments := c.bezierSegments.map BezierSegment.inBinary }

theorem BezierSegment.IsSendable.inBinary {s : BezierSegment} (h : s.IsSendable) :
    s.inBinary.IsSendable := ⟨h.span, h.startExp.inBinary, h.endExp.inBinary⟩

theorem Curve.IsSendable.inBinary {c : Curve} (h : c.IsSendable) : c.inBinary.IsSendable :=
  ⟨h.formula, List.forall_mem_map.2 fun s hs => (h.bezier s hs).inBinary, h.scale⟩

theorem BezierSegment.IsSendable.inBinary_inBinary {s : BezierSegment} (h : s.IsSendable) :
    s.inBinary.inBinary = s.inBinary := by
  unfold BezierSegment.inBinary
  dsimp only
  rw [h.startExp.inBinary_inBinary, h.endExp.inBinary_inBinary]

theorem Curve.IsSendable.inBinary_inBinary {c : Curve} (h : c.IsSendable) :
    c.inBinary.inBinary = c.inBinary := by
  have hsegments : (c.bezierSegments.map BezierSegment.inBinary).map BezierSegment.inBinary =
      c.bezierSegments.map BezierSegment.inBinary := by
    rw [List.map_map]
    exact List.map_congr_left fun s hs => (h.bezier s hs).inBinary_inBinary
  unfold Curve.inBinary
  dsimp only
  rw [hsegments]

end ExperienceCurves

namespace ExperienceCurves.Service.Form

open Checked (valid)
open Json (Value)

variable {v : Value}

theorem text_eq_valid_iff {s : String} : text v = valid s ↔ v = .text (.text s) := by
  unfold text
  split
  · rw [Checked.valid.injEq, Value.text.injEq, Word.text.injEq]
  · constructor
    · intro h
      cases h
    · intro h
      cases h
  · next hother _ =>
    constructor
    · intro h
      cases h
    · intro h
      exact absurd h (hother s)

theorem nonempty_text_eq_valid_iff {s : String} :
    nonempty text v = valid s ↔ v = .text (.text s) ∧ s ≠ "" := by
  unfold nonempty
  rw [Checked.filter_eq_valid_iff, decide_eq_true_eq, text_eq_valid_iff]

theorem shorter_eq_valid_iff {longest : Nat} {read : Reader String} {s : String} :
    shorter longest read v = valid s ↔ read v = valid s ∧ s.length ≤ longest := by
  unfold shorter
  rw [Checked.filter_eq_valid_iff, decide_eq_true_eq]

theorem wholeFrom_eq_valid_iff {least n : Int} :
    wholeFrom least v = valid n ↔ whole v = valid n ∧ least ≤ n := by
  unfold wholeFrom
  rw [Checked.filter_eq_valid_iff, decide_eq_true_eq]

theorem wholeWithin_eq_valid_iff {least greatest n : Int} :
    wholeWithin least greatest v = valid n ↔ whole v = valid n ∧ least ≤ n ∧ n ≤ greatest := by
  unfold wholeWithin
  rw [Checked.filter_eq_valid_iff, wholeFrom_eq_valid_iff, decide_eq_true_eq, and_assoc]

theorem amount_eq_valid_iff {x : Binary64} :
    amount v = valid x ↔ decimal v = valid x ∧ (0 : Binary64).le x = true := by
  unfold amount
  rw [Checked.filter_eq_valid_iff]

theorem whole_int (n : Int) : whole (.number (.int n)) = valid n := rfl

theorem decimal_eq_valid {n : Number} {x : Binary64} (h : n.toBinary64 = .ok x) :
    decimal (.number n) = valid x := by
  unfold decimal decimalOf
  dsimp only
  rw [h]
  rfl

theorem span_spec {fields : Fields} {s : Span} (h : span fields = valid s) :
    s.id ≠ "" ∧ ∃ a b : Int, s.startLevel = .int a ∧ s.endLevel = .int b ∧ 1 ≤ a := by
  unfold span at h
  obtain ⟨make, b, hmake, hb, rfl⟩ := Checked.seq_eq_valid_iff.1 h
  obtain ⟨make', a, hmake', ha, rfl⟩ := Checked.seq_eq_valid_iff.1 hmake
  obtain ⟨id, hid, rfl⟩ := Checked.map_eq_valid_iff.1 hmake'
  obtain ⟨idField, -, hid⟩ := required_eq_valid_iff.1 hid
  obtain ⟨startField, -, ha⟩ := required_eq_valid_iff.1 ha
  exact ⟨(nonempty_text_eq_valid_iff.1 hid).2, a, b, rfl, rfl, (wholeFrom_eq_valid_iff.1 ha).2⟩

theorem isSendable_of_span {s : Span} {fields : Fields} (h : span fields = valid s)
    (hordered : s.startLevel.lt s.endLevel = true) : s.IsSendable := by
  obtain ⟨hid, a, b, hstart, hend, hone⟩ := span_spec h
  rw [hstart, hend, Number.lt_int, decide_eq_true_eq] at hordered
  exact ⟨hid, b, a, b, hstart, hend, hone, hordered, Int.le_refl b⟩

theorem isSendable_of_formulaSegment {s : FormulaSegment} (h : formulaSegment v = valid s) :
    s.IsSendable := by
  obtain ⟨fields, rfl, h⟩ := record_eq_valid_iff.1 h
  obtain ⟨h, hordered⟩ := Checked.filter_eq_valid_iff.1 h
  obtain ⟨make, formula, hmake, hformula, rfl⟩ := Checked.seq_eq_valid_iff.1 h
  obtain ⟨span, hspan, rfl⟩ := Checked.map_eq_valid_iff.1 hmake
  obtain ⟨field, -, hformula⟩ := required_eq_valid_iff.1 hformula
  obtain ⟨hformula, hle⟩ := shorter_eq_valid_iff.1 hformula
  exact ⟨isSendable_of_span hspan hordered, (nonempty_text_eq_valid_iff.1 hformula).2, hle⟩

theorem isSendable_of_bezierSegment {s : BezierSegment} (h : bezierSegment v = valid s) :
    s.IsSendable := by
  obtain ⟨fields, rfl, h⟩ := record_eq_valid_iff.1 h
  obtain ⟨h, hordered⟩ := Checked.filter_eq_valid_iff.1 h
  obtain ⟨make4, control2, h4, -, rfl⟩ := Checked.seq_eq_valid_iff.1 h
  obtain ⟨make3, control1, h3, -, rfl⟩ := Checked.seq_eq_valid_iff.1 h4
  obtain ⟨make2, endExp, h2, hend, rfl⟩ := Checked.seq_eq_valid_iff.1 h3
  obtain ⟨make1, startExp, h1, hstart, rfl⟩ := Checked.seq_eq_valid_iff.1 h2
  obtain ⟨span, hspan, rfl⟩ := Checked.map_eq_valid_iff.1 h1
  obtain ⟨startField, -, hstart⟩ := required_eq_valid_iff.1 hstart
  obtain ⟨endField, -, hend⟩ := required_eq_valid_iff.1 hend
  exact ⟨isSendable_of_span hspan hordered, Number.isAmount_real (amount_eq_valid_iff.1 hstart).2,
    Number.isAmount_real (amount_eq_valid_iff.1 hend).2⟩

/-- A list whose elements have a form holds what is read from them. -/
theorem forall_of_listOf {α : Type} {read : Reader α} {P : α → Prop} {as : List α}
    (hread : ∀ v a, read v = valid a → P a) (h : listOf read v = valid as) : ∀ a ∈ as, P a := by
  obtain ⟨items, -, hitems⟩ := listOf_eq_valid_iff.1 h
  intro a ha
  obtain ⟨item, -, hitem⟩ := List.mem_map.1 (hitems ▸ List.mem_map_of_mem (f := valid) ha)
  exact hread item a hitem

theorem forall_of_withDefault {α : Type} {read : Reader α} {P : α → Prop} {as : List α}
    {name : String} {fields : Fields} (hread : ∀ v a, read v = valid a → P a)
    (h : withDefault name [] (listOf read) fields = valid as) : ∀ a ∈ as, P a := by
  rcases withDefault_eq_valid_iff.1 h with ⟨-, rfl⟩ | ⟨field, -, h⟩
  · exact fun a ha => nomatch ha
  · exact forall_of_listOf hread h

theorem isSendable_of_curve {c : Curve} (h : curve v = valid c) : c.IsSendable := by
  obtain ⟨fields, rfl, h⟩ := record_eq_valid_iff.1 h
  obtain ⟨make3, scale, h3, -, rfl⟩ := Checked.seq_eq_valid_iff.1 h
  obtain ⟨make2, useBezier, h2, -, rfl⟩ := Checked.seq_eq_valid_iff.1 h3
  obtain ⟨make1, bezierSegments, h1, hbezier, rfl⟩ := Checked.seq_eq_valid_iff.1 h2
  obtain ⟨segments, hsegments, rfl⟩ := Checked.map_eq_valid_iff.1 h1
  refine ⟨forall_of_withDefault (fun _ _ => isSendable_of_formulaSegment) hsegments,
    forall_of_withDefault (fun _ _ => isSendable_of_bezierSegment) hbezier, ?_⟩
  intro v hd
  obtain ⟨x, -, rfl⟩ := Option.map_eq_some_iff.1 hd
  exact ⟨x, rfl⟩

/-- Fields of plain data are found by their names. -/
theorem spelled?_ofFields (name : String) (fields : List (String × Datum)) :
    spelled? name (Value.ofFields fields) =
      (Datum.lookup name fields).map fun d => (name, Value.ofDatum d) := by
  induction fields with
  | nil => rfl
  | cons field rest ih =>
    obtain ⟨other, d⟩ := field
    unfold spelled? Datum.lookup at ih ⊢
    rw [Value.ofFields, List.find?_cons, List.find?_cons]
    by_cases h : other = name
    · simp [h]
    · simp only [Word.text.injEq, h, decide_false]
      exact ih

section Fields

variable {α : Type} {name : String} {read : Reader α} {fields : List (String × Datum)} {d : Datum}
  {a : α}

theorem given?_ofFields (h : Datum.lookup name fields = some d) :
    given? name (Value.ofFields fields) = some (name, .ofDatum d) := by
  unfold given?
  rw [spelled?_ofFields, h]
  rfl

theorem required_ofFields (h : Datum.lookup name fields = some d) :
    required name read (Value.ofFields fields) = valid a ↔ read (.ofDatum d) = valid a := by
  rw [required_eq_valid_iff, given?_ofFields h]
  simp only [Option.some.injEq, exists_eq_left']

theorem withDefault_ofFields {fallback : α} (h : Datum.lookup name fields = some d) :
    withDefault name fallback read (Value.ofFields fields) = valid a ↔
      read (.ofDatum d) = valid a := by
  rw [withDefault_eq_valid_iff, given?_ofFields h]
  simp only [reduceCtorEq, false_and, false_or, Option.some.injEq, exists_eq_left']

end Fields

theorem span_fields {s : Span} (h : s.IsSendable) (rest : List (String × Datum)) :
    span (Value.ofFields (s.fields ++ rest)) = valid s := by
  obtain ⟨hid, -, a, b, hstart, hend, hone, hlt, -⟩ := h
  obtain ⟨id, startLevel, endLevel⟩ := s
  obtain rfl : startLevel = .int a := hstart
  obtain rfl : endLevel = .int b := hend
  generalize hfields : Span.fields ⟨id, .int a, .int b⟩ ++ rest = fields
  have hname : required "id" (nonempty text) (Value.ofFields fields) = valid id :=
    (required_ofFields (d := .text id) (by simp [← hfields, Datum.lookup, Span.fields])).2
      (nonempty_text_eq_valid_iff.2 ⟨rfl, hid⟩)
  have hfirst : required "startLevel" (wholeFrom 1) (Value.ofFields fields) = valid a :=
    (required_ofFields (d := .int a) (by simp [← hfields, Datum.lookup, Span.fields, Datum.int])).2
      (wholeFrom_eq_valid_iff.2 ⟨whole_int a, hone⟩)
  have hlast : required "endLevel" (wholeFrom 1) (Value.ofFields fields) = valid b :=
    (required_ofFields (d := .int b) (by simp [← hfields, Datum.lookup, Span.fields, Datum.int])).2
      (wholeFrom_eq_valid_iff.2 ⟨whole_int b, by omega⟩)
  unfold span
  rw [hname, hfirst, hlast]
  rfl

/-- Levels in order pass the check of the range. -/
theorem lt_of_isSendable {s : Span} (h : s.IsSendable) : s.startLevel.lt s.endLevel = true := by
  obtain ⟨-, -, a, b, hstart, hend, -, hlt, -⟩ := h
  rw [hstart, hend, Number.lt_int, decide_eq_true_eq]
  exact hlt

theorem formulaSegment_toDatum {s : FormulaSegment} (h : s.IsSendable) :
    formulaSegment (.ofDatum s.toDatum) = valid s := by
  refine record_eq_valid_iff.2
    ⟨_, rfl, Checked.filter_eq_valid_iff.2 ⟨?_, lt_of_isSendable h.span⟩⟩
  have hformula : required "formula" (shorter longestFormula (nonempty text))
      (Value.ofFields (s.toSpan.fields ++ [("formula", .text s.formula)])) = valid s.formula :=
    (required_ofFields (d := .text s.formula) (by simp [Datum.lookup, Span.fields])).2
      (shorter_eq_valid_iff.2 ⟨nonempty_text_eq_valid_iff.2 ⟨rfl, h.formula_ne⟩, h.formula_le⟩)
  rw [span_fields h.span, hformula]
  rfl

theorem controlPoint_toDatum (p : ControlPoint) : controlPoint (.ofDatum p.toDatum) = valid p := by
  have hx : required "x" decimal (Value.ofFields [("x", .real p.x), ("y", .real p.y)]) =
      valid p.x := (required_ofFields (d := .real p.x) (by simp [Datum.lookup])).2 rfl
  have hy : required "y" decimal (Value.ofFields [("x", .real p.x), ("y", .real p.y)]) =
      valid p.y := (required_ofFields (d := .real p.y) (by simp [Datum.lookup])).2 rfl
  refine record_eq_valid_iff.2 ⟨_, rfl, ?_⟩
  rw [hx, hy]
  rfl

theorem bezierSegment_toDatum {s : BezierSegment} (h : s.IsSendable) :
    bezierSegment (.ofDatum s.toDatum) = valid s.inBinary := by
  obtain ⟨x, hx, hxlow, -⟩ := h.startExp
  obtain ⟨y, hy, hylow, -⟩ := h.endExp
  have hspan := span_fields h.span [("startExp", .number s.startExp), ("endExp", .number s.endExp),
    ("controlPoint1", s.control1.toDatum), ("controlPoint2", s.control2.toDatum)]
  generalize hfields : s.toSpan.fields ++ [("startExp", .number s.startExp),
    ("endExp", .number s.endExp), ("controlPoint1", s.control1.toDatum),
    ("controlPoint2", s.control2.toDatum)] = fields at hspan
  have hstart : required "startExp" amount (Value.ofFields fields) = valid x :=
    (required_ofFields (d := .number s.startExp) (by simp [← hfields, Datum.lookup, Span.fields])).2
      (amount_eq_valid_iff.2 ⟨decimal_eq_valid hx, hxlow⟩)
  have hend : required "endExp" amount (Value.ofFields fields) = valid y :=
    (required_ofFields (d := .number s.endExp) (by simp [← hfields, Datum.lookup, Span.fields])).2
      (amount_eq_valid_iff.2 ⟨decimal_eq_valid hy, hylow⟩)
  have hcontrol1 : withDefault "controlPoint1" .usual1 controlPoint (Value.ofFields fields) =
      valid s.control1 :=
    (withDefault_ofFields (by simp [← hfields, Datum.lookup, Span.fields])).2
      (controlPoint_toDatum s.control1)
  have hcontrol2 : withDefault "controlPoint2" .usual2 controlPoint (Value.ofFields fields) =
      valid s.control2 :=
    (withDefault_ofFields (by simp [← hfields, Datum.lookup, Span.fields])).2
      (controlPoint_toDatum s.control2)
  have hdata : Value.ofDatum s.toDatum = .record (Value.ofFields fields) := by
    rw [← hfields]
    rfl
  refine record_eq_valid_iff.2 ⟨_, hdata,
    Checked.filter_eq_valid_iff.2 ⟨?_, lt_of_isSendable h.span⟩⟩
  rw [hspan, hstart, hend, hcontrol1, hcontrol2, BezierSegment.inBinary, Number.inBinary_eq hx,
    Number.inBinary_eq hy]
  rfl

section Lists

variable {α β : Type} {read : Reader β} {bs : List β}

theorem ofItems_eq_map (items : List Datum) : Value.ofItems items = items.map Value.ofDatum := by
  induction items with
  | nil => rfl
  | cons item rest ih => rw [Value.ofItems, ih, List.map_cons]

/-- A list of plain data is read element by element. -/
theorem listOf_ofDatum {items : List Datum} :
    listOf read (.ofDatum (.list items)) = valid bs ↔
      items.map (fun item => read (.ofDatum item)) = bs.map valid := by
  rw [Value.ofDatum, ofItems_eq_map, listOf_eq_valid_iff]
  simp only [Value.list.injEq, exists_eq_left', List.map_map]
  rfl

theorem listOf_map {convert : α → Datum} {f : α → β} {as : List α}
    (h : ∀ a ∈ as, read (.ofDatum (convert a)) = valid (f a)) :
    listOf read (.ofDatum (.list (as.map convert))) = valid (as.map f) := by
  rw [listOf_ofDatum, List.map_map, List.map_map]
  exact List.map_congr_left h

end Lists

/-- The fields of a curve that can be sent give it back in binary numbers, with the scale that they
hold. -/
theorem curve_ofFields {c : Curve} {fields : List (String × Datum)} {scale : Option Binary64}
    (h : c.IsSendable)
    (hsegments : Datum.lookup "segments" fields =
      some (.list (c.segments.map FormulaSegment.toDatum)))
    (hbezier : Datum.lookup "bezierSegments" fields =
      some (.list (c.bezierSegments.map BezierSegment.toDatum)))
    (hmode : Datum.lookup "useBezier" fields = some (.truth c.useBezier))
    (hscale : withDefault "yAxisMax" none (optional decimal) (Value.ofFields fields) =
      valid scale) :
    curve (.ofDatum (.record fields)) =
      valid { c.inBinary with yAxisMax := scale.map Datum.real } := by
  have hformulas : withDefault "segments" [] (listOf formulaSegment) (Value.ofFields fields) =
      valid (c.segments.map id) :=
    (withDefault_ofFields hsegments).2
      (listOf_map fun s hs => formulaSegment_toDatum (h.formula s hs))
  have hbeziers : withDefault "bezierSegments" [] (listOf bezierSegment) (Value.ofFields fields) =
      valid (c.bezierSegments.map BezierSegment.inBinary) :=
    (withDefault_ofFields hbezier).2
      (listOf_map fun s hs => bezierSegment_toDatum (h.bezier s hs))
  have hmodes : withDefault "useBezier" false truth (Value.ofFields fields) = valid c.useBezier :=
    (withDefault_ofFields hmode).2 rfl
  refine record_eq_valid_iff.2 ⟨Value.ofFields fields, rfl, ?_⟩
  rw [hformulas, hbeziers, hmodes, hscale, List.map_id]
  rfl

/-- A curve that can be sent has the form of one when it is shown. -/
theorem curve_toDatum {c : Curve} (h : c.IsSendable) :
    curve (.ofDatum c.toDatum) = valid c.inBinary := by
  obtain ⟨fields, hdata⟩ : ∃ fields, c.toDatum = .record fields := ⟨_, rfl⟩
  have hfields := Datum.record.inj hdata
  rw [hdata]
  cases hyAxisMax : c.yAxisMax with
  | none =>
    rw [hyAxisMax] at hfields
    have hscale : withDefault "yAxisMax" none (optional decimal) (Value.ofFields fields) =
        valid none := withDefault_eq_valid_iff.2 (Or.inl ⟨by rw [← hfields]; rfl, rfl⟩)
    have hcurve := curve_ofFields h (by rw [← hfields]; rfl) (by rw [← hfields]; rfl)
      (by rw [← hfields]; rfl) hscale
    rw [hcurve, Curve.inBinary, hyAxisMax]
    rfl
  | some scale =>
    obtain ⟨x, rfl⟩ := h.scale scale hyAxisMax
    rw [hyAxisMax] at hfields
    have hscale : withDefault "yAxisMax" none (optional decimal) (Value.ofFields fields) =
        valid (some x) :=
      (withDefault_ofFields (d := .real x) (by simp [← hfields, Datum.lookup])).2 rfl
    have hcurve := curve_ofFields h (by simp [← hfields, Datum.lookup])
      (by simp [← hfields, Datum.lookup]) (by simp [← hfields, Datum.lookup]) hscale
    rw [hcurve, Curve.inBinary, hyAxisMax]
    rfl

end ExperienceCurves.Service.Form
