import ExperienceCurves.Proofs.Addresses
import ExperienceCurves.Proofs.PublicationRuns

/-!
Curves that are put back. The view of a profile shows its curve in binary numbers, with nothing in
the place of what is not finite. A curve whose Bezier segments are finite can be published as it is
shown, and then replaces itself under the next version; only a scale that is not finite is lost. A
segment with an infinite requirement, which requirements can grow to, is not read back.
-/
namespace ExperienceCurves

/-- Requirements and control points are finite. -/
structure BezierSegment.IsFinite (s : BezierSegment) : Prop where
  startExp : (Datum.number s.startExp).isFinite = true
  endExp : (Datum.number s.endExp).isFinite = true
  control1 : s.control1.toDatum.isFinite = true
  control2 : s.control2.toDatum.isFinite = true

/-- The same segment, with equal requirements. -/
structure BezierSegment.Matches (s t : BezierSegment) : Prop where
  span : t.toSpan = s.toSpan
  startExp : s.startExp.eq t.startExp = true
  endExp : s.endExp.eq t.endExp = true
  control1 : t.control1 = s.control1
  control2 : t.control2 = s.control2

/-- What a curve becomes that is shown and put back: the same curve, except that a scale that is not
finite is gone. -/
structure Curve.Restores (c restored : Curve) : Prop where
  segments : restored.segments = c.segments
  bezierSegments : List.Forall₂ BezierSegment.Matches c.bezierSegments restored.bezierSegments
  useBezier : restored.useBezier = c.useBezier
  yAxisMax : restored.yAxisMax = c.yAxisMax.filter Datum.isFinite

theorem Datum.isFinite_record_iff {fields : List (String × Datum)} :
    (record fields).isFinite = true ↔ ∀ field ∈ fields, field.2.isFinite = true := by
  change fieldsAreFinite fields = true ↔ _
  induction fields with
  | nil => exact ⟨fun _ => List.forall_mem_nil _, fun _ => rfl⟩
  | cons field rest ih => rw [fieldsAreFinite, Bool.and_eq_true_iff, ih, List.forall_mem_cons]

theorem Datum.isFinite_list_iff {items : List Datum} :
    (list items).isFinite = true ↔ ∀ item ∈ items, item.isFinite = true := by
  change areFinite items = true ↔ _
  induction items with
  | nil => exact ⟨fun _ => List.forall_mem_nil _, fun _ => rfl⟩
  | cons item rest ih => rw [areFinite, Bool.and_eq_true_iff, ih, List.forall_mem_cons]

theorem Span.IsSendable.isFinite_fields {s : Span} (h : s.IsSendable) :
    ∀ field ∈ s.fields, field.2.isFinite = true := by
  obtain ⟨a, b, hstart, hend⟩ := h.isWhole
  unfold fields
  simp only [List.forall_mem_cons, hstart, hend]
  exact ⟨rfl, rfl, rfl, List.forall_mem_nil _⟩

theorem FormulaSegment.IsSendable.isFinite_toDatum {s : FormulaSegment} (h : s.IsSendable) :
    s.toDatum.isFinite = true := by
  refine Datum.isFinite_record_iff.2 (List.forall_mem_append.2 ⟨h.span.isFinite_fields, ?_⟩)
  exact List.forall_mem_singleton.2 rfl

namespace BezierSegment

variable {s : BezierSegment}

theorem isFinite_inBinary_iff (h : s.IsSendable) : s.inBinary.IsFinite ↔ s.IsFinite := by
  obtain ⟨x, hx, -⟩ := h.startExp
  obtain ⟨y, hy, -⟩ := h.endExp
  have hstart : (Datum.number s.startExp.inBinary).isFinite =
      (Datum.number s.startExp).isFinite := by
    rw [Number.inBinary_eq hx, Number.isFinite_inBinary hx]
    rfl
  have hend : (Datum.number s.endExp.inBinary).isFinite = (Datum.number s.endExp).isFinite := by
    rw [Number.inBinary_eq hy, Number.isFinite_inBinary hy]
    rfl
  constructor
  · rintro ⟨hs, he, h1, h2⟩
    exact ⟨hstart.symm.trans hs, hend.symm.trans he, h1, h2⟩
  · rintro ⟨hs, he, h1, h2⟩
    exact ⟨hstart.trans hs, hend.trans he, h1, h2⟩

theorem matches_inBinary (h : s.IsSendable) (hfinite : s.IsFinite) : s.Matches s.inBinary where
  span := rfl
  startExp := h.startExp.eq_inBinary hfinite.startExp
  endExp := h.endExp.eq_inBinary hfinite.endExp
  control1 := rfl
  control2 := rfl

theorem IsSendable.isFinite_toDatum (h : s.IsSendable) (hfinite : s.IsFinite) :
    s.toDatum.isFinite = true := by
  refine Datum.isFinite_record_iff.2 (List.forall_mem_append.2 ⟨h.span.isFinite_fields, ?_⟩)
  simp only [List.forall_mem_cons]
  exact ⟨hfinite.startExp, hfinite.endExp, hfinite.control1, hfinite.control2,
    List.forall_mem_nil _⟩

end BezierSegment

namespace Curve

/-- Other numbers and another scale leave the ranges as they are. -/
theorem map_span_inBinary (c : Curve) (scale : Option Datum) :
    { c.inBinary with yAxisMax := scale }.active.map Spanned.span = c.active.map Spanned.span := by
  unfold active inBinary
  cases c.useBezier with
  | false => rfl
  | true =>
    simp only [if_true, List.map_map]
    rfl

theorem restores_inBinary {c : Curve} (h : c.IsSendable)
    (hfinite : ∀ s ∈ c.bezierSegments, s.IsFinite) :
    c.Restores { c.inBinary with yAxisMax := c.yAxisMax.filter Datum.isFinite } where
  segments := rfl
  bezierSegments := List.forall₂_map_right_iff.2 (List.forall₂_same.2 fun s hs =>
    BezierSegment.matches_inBinary (h.bezier s hs) (hfinite s hs))
  useBezier := rfl
  yAxisMax := rfl

end Curve

end ExperienceCurves

namespace ExperienceCurves.Service.View

mutual

/-- Finite data are shown as they are. -/
theorem finite_of_isFinite : ∀ {d : Datum}, d.isFinite = true → finite d = d
  | .null, _ => rfl
  | .number (.truth _), _ => rfl
  | .number (.int _), _ => rfl
  | .number (.real _), h => if_pos h
  | .text _, _ => rfl
  | .list items, h => by rw [finite, finiteItems_of_areFinite h]
  | .record fields, h => by rw [finite, finiteFields_of_areFinite h]

theorem finiteItems_of_areFinite : ∀ {items : List Datum},
    Datum.areFinite items = true → finiteItems items = items
  | [], _ => rfl
  | item :: rest, h => by
    obtain ⟨hitem, hrest⟩ := Bool.and_eq_true_iff.1 h
    rw [finiteItems, finite_of_isFinite hitem, finiteItems_of_areFinite hrest]

theorem finiteFields_of_areFinite : ∀ {fields : List (String × Datum)},
    Datum.fieldsAreFinite fields = true → finiteFields fields = fields
  | [], _ => rfl
  | (_, value) :: rest, h => by
    obtain ⟨hvalue, hrest⟩ := Bool.and_eq_true_iff.1 h
    rw [finiteFields, finite_of_isFinite hvalue, finiteFields_of_areFinite hrest]

end

theorem finiteItems_eq_map (items : List Datum) : finiteItems items = items.map finite := by
  induction items with
  | nil => rfl
  | cons item rest ih => rw [finiteItems, ih, List.map_cons]

theorem lookup_finiteFields (name : String) (fields : List (String × Datum)) :
    Datum.lookup name (finiteFields fields) = (Datum.lookup name fields).map finite := by
  induction fields with
  | nil => rfl
  | cons field rest ih =>
    obtain ⟨other, value⟩ := field
    unfold Datum.lookup at ih ⊢
    rw [finiteFields, List.find?_cons, List.find?_cons]
    by_cases h : other = name
    · simp [h]
    · simp only [h, decide_false]
      exact ih

theorem lookup_finiteFields_of_isFinite {name : String} {fields : List (String × Datum)} {d : Datum}
    (h : Datum.lookup name fields = some d) (hd : d.isFinite = true) :
    Datum.lookup name (finiteFields fields) = some d := by
  rw [lookup_finiteFields, h, Option.map_some, finite_of_isFinite hd]

/-- The view of a curve before what is not finite is taken out. -/
theorem curve_of_isSendable {c : Curve} (h : c.IsSendable) :
    curve c = .ok (.record [("segments", .list (c.segments.map FormulaSegment.toDatum)),
      ("bezierSegments", .list (c.inBinary.bezierSegments.map BezierSegment.toDatum)),
      ("useBezier", .truth c.useBezier), ("yAxisMax", c.yAxisMax.getD .null)]) := by
  unfold curve
  rw [Form.curve_toDatum h]
  rfl

end ExperienceCurves.Service.View

namespace ExperienceCurves.Service.Form

open Checked (valid)
open Json (Value)
open View (finite finiteFields)

theorem isFinite_of_decimal {n : Number} {x : Binary64}
    (h : decimal (.ofDatum (finite (.number n))) = valid x) : (Datum.number n).isFinite = true := by
  cases n with
  | truth b => rfl
  | int m => rfl
  | real y =>
    by_contra hy
    have hnull : finite (.number (.real y)) = .null := if_neg hy
    rw [hnull] at h
    cases h

section Fields

variable {α : Type} {name : String} {read : Reader α} {fields : List (String × Datum)} {d : Datum}
  {a : α}

theorem required_finiteFields (h : Datum.lookup name fields = some d) :
    required name read (Value.ofFields (finiteFields fields)) = valid a ↔
      read (.ofDatum (finite d)) = valid a :=
  required_ofFields (by rw [View.lookup_finiteFields, h, Option.map_some])

theorem withDefault_finiteFields {fallback : α} (h : Datum.lookup name fields = some d) :
    withDefault name fallback read (Value.ofFields (finiteFields fields)) = valid a ↔
      read (.ofDatum (finite d)) = valid a :=
  withDefault_ofFields (by rw [View.lookup_finiteFields, h, Option.map_some])

end Fields

theorem isFinite_of_controlPoint {p p' : ControlPoint}
    (h : controlPoint (.ofDatum (finite p.toDatum)) = valid p') : p.toDatum.isFinite = true := by
  obtain ⟨fields, hfields, h⟩ := record_eq_valid_iff.1 h
  obtain rfl := Value.record.inj hfields
  obtain ⟨make, y, hmake, hy, -⟩ := Checked.seq_eq_valid_iff.1 h
  obtain ⟨x, hx, -⟩ := Checked.map_eq_valid_iff.1 hmake
  have hx := isFinite_of_decimal ((required_finiteFields (d := .real p.x) rfl).1 hx)
  have hy := isFinite_of_decimal ((required_finiteFields (d := .real p.y) rfl).1 hy)
  refine Datum.isFinite_record_iff.2 ?_
  simp only [List.forall_mem_cons]
  exact ⟨hx, hy, List.forall_mem_nil _⟩

theorem isFinite_of_bezierSegment {s t : BezierSegment}
    (h : bezierSegment (.ofDatum (finite s.toDatum)) = valid t) : s.IsFinite := by
  obtain ⟨fields, hfields, h⟩ := record_eq_valid_iff.1 h
  obtain rfl := Value.record.inj hfields
  obtain ⟨h, -⟩ := Checked.filter_eq_valid_iff.1 h
  obtain ⟨make4, control2, h4, hcontrol2, -⟩ := Checked.seq_eq_valid_iff.1 h
  obtain ⟨make3, control1, h3, hcontrol1, -⟩ := Checked.seq_eq_valid_iff.1 h4
  obtain ⟨make2, endExp, h2, hend, -⟩ := Checked.seq_eq_valid_iff.1 h3
  obtain ⟨make1, startExp, h1, hstart, -⟩ := Checked.seq_eq_valid_iff.1 h2
  have hstart := (required_finiteFields (d := .number s.startExp) rfl).1 hstart
  have hend := (required_finiteFields (d := .number s.endExp) rfl).1 hend
  exact ⟨isFinite_of_decimal (amount_eq_valid_iff.1 hstart).1,
    isFinite_of_decimal (amount_eq_valid_iff.1 hend).1,
    isFinite_of_controlPoint ((withDefault_finiteFields rfl).1 hcontrol1),
    isFinite_of_controlPoint ((withDefault_finiteFields rfl).1 hcontrol2)⟩

variable {c restored : Curve} {d : Datum}

/-- A curve is only read back if its Bezier segments are finite, by the reading of each of them. -/
theorem isFinite_of_curve (h : c.IsSendable) (hview : View.curve c = .ok d)
    (hread : curve (.ofDatum (finite d)) = valid restored) :
    ∀ s ∈ c.bezierSegments, s.IsFinite := by
  obtain rfl := Except.ok.inj ((View.curve_of_isSendable h).symm.trans hview)
  obtain ⟨fields, hfields, hread⟩ := record_eq_valid_iff.1 hread
  obtain rfl := Value.record.inj hfields
  obtain ⟨make3, scale, h3, -, -⟩ := Checked.seq_eq_valid_iff.1 hread
  obtain ⟨make2, useBezier, h2, -, -⟩ := Checked.seq_eq_valid_iff.1 h3
  obtain ⟨make1, bezierSegments, -, hbezier, -⟩ := Checked.seq_eq_valid_iff.1 h2
  have hlist := (withDefault_finiteFields rfl).1 hbezier
  rw [finite, View.finiteItems_eq_map, listOf_ofDatum] at hlist
  intro s hs
  have hmem : bezierSegment (.ofDatum (finite s.inBinary.toDatum)) ∈ bezierSegments.map valid := by
    rw [← hlist, List.map_map, List.map_map]
    exact List.mem_map.2 ⟨s.inBinary, List.mem_map_of_mem hs, rfl⟩
  obtain ⟨t, -, ht⟩ := List.mem_map.1 hmem
  exact (BezierSegment.isFinite_inBinary_iff (h.bezier s hs)).1 (isFinite_of_bezierSegment ht.symm)

/-- A scale is read back if it is finite, and otherwise there is none. -/
theorem exists_scale (h : ∀ scale ∈ c.yAxisMax, ∃ x, scale = .real x) :
    ∃ scale, optional decimal (.ofDatum (finite (c.yAxisMax.getD .null))) = valid scale ∧
      scale.map Datum.real = c.yAxisMax.filter Datum.isFinite := by
  cases hscale : c.yAxisMax with
  | none => exact ⟨none, rfl, rfl⟩
  | some scale =>
    obtain ⟨x, rfl⟩ := h scale hscale
    by_cases hx : (Datum.real x).isFinite = true
    · refine ⟨some x, ?_, ?_⟩
      · rw [Option.getD_some, View.finite_of_isFinite hx]
        rfl
      · rw [Option.filter_some_pos hx, Option.map_some]
    · refine ⟨none, ?_, ?_⟩
      · have hnull : finite (.real x) = .null := if_neg hx
        rw [Option.getD_some, hnull]
        rfl
      · rw [Option.filter_some_neg (Bool.eq_false_iff.2 hx), Option.map_none]

/-- With finite Bezier segments, what is shown has the form of a curve and gives the same one. -/
theorem curve_of_isFinite (h : c.IsSendable) (hview : View.curve c = .ok d)
    (hfinite : ∀ s ∈ c.bezierSegments, s.IsFinite) :
    curve (.ofDatum (finite d)) =
      valid { c.inBinary with yAxisMax := c.yAxisMax.filter Datum.isFinite } := by
  obtain rfl := Except.ok.inj ((View.curve_of_isSendable h).symm.trans hview)
  have hsegments : (Datum.list (c.segments.map FormulaSegment.toDatum)).isFinite = true :=
    Datum.isFinite_list_iff.2 (List.forall_mem_map.2 fun s hs => (h.formula s hs).isFinite_toDatum)
  have hbezier : (Datum.list (c.inBinary.bezierSegments.map BezierSegment.toDatum)).isFinite =
      true := by
    refine Datum.isFinite_list_iff.2 (List.forall_mem_map.2 (List.forall_mem_map.2 fun s hs => ?_))
    have hsend := h.bezier s hs
    exact hsend.inBinary.isFinite_toDatum
      ((BezierSegment.isFinite_inBinary_iff hsend).2 (hfinite s hs))
  obtain ⟨scale, hscale, hkept⟩ := exists_scale h.scale
  rw [← hkept]
  refine (curve_ofFields h.inBinary ?_ ?_ ?_ ?_).trans (by rw [h.inBinary_inBinary])
  · exact View.lookup_finiteFields_of_isFinite rfl hsegments
  · exact View.lookup_finiteFields_of_isFinite rfl hbezier
  · exact View.lookup_finiteFields_of_isFinite rfl rfl
  · exact (withDefault_finiteFields rfl).2 hscale

end ExperienceCurves.Service.Form

namespace ExperienceCurves.Service

open Checked (valid)

/-- The request for a profile. -/
def Request.forProfile (name : String) : Request := ⟨.get, "/curves/" ++ name, "", .empty⟩

/-- The request to publish a curve. -/
def Request.withCurve (name : String) (curve : Datum) : Request :=
  ⟨.put, "/curves/" ++ name, "", .data (.record [("curve", curve)])⟩

/-- The curve that a response shows. -/
def Response.curve? (r : Response) : Option Datum :=
  match r.body with
  | .record fields => Datum.lookup "curve" fields
  | _ => none

/-- The view of a profile holds the view of its curve. -/
theorem View.profile_eq_ok {settings : Settings} {p : Profile} {body : Datum}
    (h : View.profile settings p = .ok body) :
    ∃ d, View.curve p.curve = .ok d ∧ Response.curve? ⟨200, body⟩ = some (finite d) := by
  obtain ⟨d, hd, h⟩ := Outcome.bind_eq_ok_iff.1 h
  obtain ⟨found, -, h⟩ := Outcome.bind_eq_ok_iff.1 h
  obtain ⟨continuity, -, h⟩ := Outcome.bind_eq_ok_iff.1 h
  obtain ⟨overlaps, -, h⟩ := Outcome.bind_eq_ok_iff.1 h
  obtain ⟨maxLevel, -, h⟩ := Outcome.bind_eq_ok_iff.1 h
  obtain ⟨name, -, h⟩ := Outcome.bind_eq_ok_iff.1 h
  obtain rfl := Except.ok.inj h
  exact ⟨d, hd, rfl⟩

namespace Command

variable {name : String} {shown : Datum}

theorem ofRequest_forProfile (hname : IsPathPart name) :
    ofRequest (.forProfile name) = .ok (.profile name) := by
  unfold ofRequest Request.forProfile
  rw [Resource.ofPath_profile hname]
  rfl

/-- A curve is published just if it has the form of one. The maximum level is not given. -/
theorem ofRequest_withCurve {command : Command} (hname : IsPathPart name) :
    ofRequest (.withCurve name shown) = .ok command ↔
      ∃ c, Form.curve (.ofDatum shown) = valid c ∧ command = .publish name ⟨c, none⟩ := by
  have hform : Form.publication (.ofDatum (.record [("curve", shown)])) =
      (Form.Publication.mk · none) <$> (Form.curve (.ofDatum shown)).under "curve" := by
    change (Form.Publication.mk <$> (Form.curve (.ofDatum shown)).under "curve") <*> valid none = _
    cases (Form.curve (.ofDatum shown)).under "curve" <;> rfl
  have hrequest : ofRequest (.withCurve name shown) = Command.publish name <$>
      settled ((Form.publication (.ofDatum (.record [("curve", shown)]))).under "body") := by
    unfold ofRequest Request.withCurve
    rw [Resource.ofPath_profile hname]
    rfl
  rw [hrequest, hform, Outcome.map_eq_ok_iff]
  constructor
  · rintro ⟨form, hsettled, rfl⟩
    obtain ⟨c, hc, rfl⟩ :=
      Checked.map_eq_valid_iff.1 (Checked.under_eq_valid_iff.1 (settled_eq_ok_iff.1 hsettled))
    exact ⟨c, Checked.under_eq_valid_iff.1 hc, rfl⟩
  · rintro ⟨c, hc, rfl⟩
    refine ⟨⟨c, none⟩, settled_eq_ok_iff.2 (Checked.under_eq_valid_iff.2 ?_), rfl⟩
    exact Checked.map_eq_valid_iff.2 ⟨c, Checked.under_eq_valid_iff.2 hc, rfl⟩

end Command

namespace State

variable {s : State} {name : String} {p : Profile}

/-- A question for a profile shows its curve. -/
theorem handle_forProfile (freshId : String) (hs : s.IsShowable) (hname : IsPathPart name)
    (hp : s.registry.find? name = some p) :
    ∃ response d, s.handle freshId (.forProfile name) = (s, response) ∧ response.status = 200 ∧
      View.curve p.curve = .ok d ∧ response.curve? = some (View.finite d) := by
  obtain ⟨body, hbody⟩ := hs.exists_view (hs.profile name p hp)
  obtain ⟨d, hd, hcurve⟩ := View.profile_eq_ok hbody
  have hperform : s.perform freshId (.profile name) = (s, .ok body) := by
    have hfound : s.profileNamed name = .ok p := by
      unfold profileNamed
      rw [hp]
    change (s, s.profileNamed name >>= View.profile s.settings) = _
    rw [hfound, ← hbody]
    rfl
  have hhandle := handle_of_ok freshId (Command.ofRequest_forProfile hname) hperform
  exact ⟨⟨200, body⟩, d, hhandle, rfl, hd, hcurve⟩

/-- A curve with the same active ranges replaces the one of a profile under the next version. -/
theorem handle_withCurve {shown : Datum} {c : Curve} (freshId : String) (hs : s.IsShowable)
    (hname : IsPathPart name) (hp : s.registry.find? name = some p)
    (hread : Form.curve (.ofDatum shown) = valid c)
    (hspans : c.active.map Spanned.span = p.curve.active.map Spanned.span) :
    ∃ body, s.handle freshId (.withCurve name shown) =
      ({ s with registry := s.registry.store name { p with curve := c, version := p.version + 1 } },
        ⟨200, body⟩) := by
  have hcommand := (Command.ofRequest_withCurve hname).2 ⟨c, hread, rfl⟩
  have hsend := Command.isSendable_of_ofRequest hcommand
  obtain ⟨m, hmax, -, hwithin⟩ := (hs.profile name p hp).maxLevel
  have hactive : ∀ segment ∈ c.active, (Spanned.span segment).Within m := by
    intro segment hsegment
    have hspan := List.mem_map_of_mem (f := Spanned.span) hsegment
    rw [hspans] at hspan
    obtain ⟨original, horiginal, hsame⟩ := List.mem_map.1 hspan
    exact hsame ▸ hwithin original horiginal
  have hcheck : c.check p.maxLevel = .ok () := by
    rw [hmax]
    exact (Curve.check_eq_ok_iff hsend.1).2 hactive
  have hpublished : s.published name ⟨c, none⟩ = { p with curve := c } := by
    unfold published
    rw [hp]
    rfl
  have hpname : p.name = name := hs.names name p hp
  have hpublish : s.registry.publish (s.published name ⟨c, none⟩) =
      (s.registry.store name { p with curve := c, version := p.version + 1 },
        .ok { p with curve := c, version := p.version + 1 }) := by
    have hnumbered : s.registry.numbered { p with curve := c } =
        { p with curve := c, version := p.version + 1 } := by
      rw [Registry.numbered, hpname, Registry.nextVersion_of_find? hp]
    have hannounced : Registry.announce { p with curve := c, version := p.version + 1 } =
        .ok { p with curve := c, version := p.version + 1 } :=
      Registry.announce_of_text hpname
    rw [hpublished, Registry.publish_of_check hcheck, hnumbered, hannounced]
    simp only [hpname]
  obtain ⟨body, hbody⟩ := publish_of_ok hs hsend hpublish
  exact ⟨body, handle_of_ok freshId hcommand hbody⟩

/-- Whatever requests have been made, every profile that is there is shown under its name. If all
requirements and control points of its Bezier segments are finite, its curve can be published as it
is shown, and that changes nothing but the version, apart from a scale that is not finite. If not,
what is shown is refused. -/
theorem put_back_shown (requests : List (String × Request)) (freshId freshId' : String)
    (name : Word) (p : Profile) (hp : (afterAll requests).registry.find? name = some p) :
    let before := afterAll requests
    ∃ (part : String) (response : Response) (shown : Datum), name = part ∧
      before.handle freshId (.forProfile part) = (before, response) ∧
      response.status = 200 ∧ response.curve? = some shown ∧
      ((∀ s ∈ p.curve.bezierSegments, s.IsFinite) → ∃ body restored, p.curve.Restores restored ∧
        before.handle freshId' (.withCurve part shown) =
          ({ before with registry :=
              before.registry.store name { p with curve := restored, version := p.version + 1 } },
            ⟨200, body⟩)) ∧
      ((∃ s ∈ p.curve.bezierSegments, ¬ s.IsFinite) →
        400 ≤ (before.handle freshId' (.withCurve part shown)).2.status ∧
          (before.handle freshId' (.withCurve part shown)).1 = before) := by
  intro before
  have hbefore : before.IsShowable := isShowable_afterAll requests
  obtain ⟨part, rfl, hname⟩ := isAddressed_afterAll requests name p hp
  have hcurve : p.curve.IsSendable := (hbefore.profile part p hp).curve
  obtain ⟨response, d, hget, hstatus, hview, hshown⟩ := handle_forProfile freshId hbefore hname hp
  refine ⟨part, response, View.finite d, rfl, hget, hstatus, hshown, ?_, ?_⟩
  · intro hfinite
    obtain ⟨body, hput⟩ := handle_withCurve freshId' hbefore hname hp
      (Form.curve_of_isFinite hcurve hview hfinite) (p.curve.map_span_inBinary _)
    exact ⟨body, _, Curve.restores_inBinary hcurve hfinite, hput⟩
  · rintro ⟨s, hs, hinfinite⟩
    cases hcommand : Command.ofRequest (.withCurve part (View.finite d)) with
    | error problem =>
      have hpath : Resource.ofPath (Request.withCurve part (View.finite d)).path =
          some (.profile part) := Resource.ofPath_profile hname
      rw [handle_of_problem freshId' hcommand]
      exact ⟨Command.refuses_ofRequest hpath problem hcommand, rfl⟩
    | ok command =>
      obtain ⟨c, hc, -⟩ := (Command.ofRequest_withCurve hname).1 hcommand
      exact absurd (Form.isFinite_of_curve hcurve hview hc s hs) hinfinite

/-- The built-in curve of players is put back as their second version. -/
theorem put_back_shown_player :
    (afterAll []).registry.find? "player" = some (Profile.ofPreset .player) ∧
      ∃ shown body, ∃ stored : Profile, stored.version = 2 ∧ Curve.usual.Restores stored.curve ∧
        ((afterAll []).handle "fresh" (.forProfile "player")).2.curve? = some shown ∧
        (afterAll []).handle "fresh" (.withCurve "player" shown) =
          ({ afterAll [] with registry := (afterAll []).registry.store "player" stored },
            ⟨200, body⟩) := by
  have hplayer : (afterAll []).registry.find? "player" = some (Profile.ofPreset .player) := rfl
  obtain ⟨part, response, shown, hname, hget, -, hshown, hput, -⟩ :=
    put_back_shown [] "fresh" "fresh" "player" (Profile.ofPreset .player) hplayer
  obtain rfl := Word.text.inj hname
  have hfinite : ∀ s ∈ Curve.usual.bezierSegments, s.IsFinite := by
    intro s hs
    rcases List.mem_pair.1 hs with rfl | rfl
    · exact ⟨rfl, rfl, by decide +kernel, by decide +kernel⟩
    · exact ⟨rfl, rfl, by decide +kernel, by decide +kernel⟩
  obtain ⟨body, restored, hrestored, hhandle⟩ := hput hfinite
  refine ⟨hplayer, shown, body,
    { Profile.ofPreset .player with curve := restored, version := 2 }, rfl, hrestored, ?_, hhandle⟩
  rw [hget]
  exact hshown

/-- A curve that ends near the greatest number, and one more segment after it: its end is out of
range. -/
def steepRequests : List (String × Request) :=
  let segment : Datum := .record [("id", .text "1"), ("startLevel", .int 1), ("endLevel", .int 10),
    ("startExp", .real (Binary64.ofInt 100)), ("endExp", .real (Binary64.ofDecimal false 17 307)),
    ("controlPoint1", ControlPoint.usual1.toDatum), ("controlPoint2", ControlPoint.usual2.toDatum)]
  let curve : Datum := .record [("useBezier", .truth true), ("bezierSegments", .list [segment])]
  [("", .withCurve "steep" curve),
    ("", ⟨.post, "/curves/steep/segments", "", .data (.record [])⟩)]

/-- What is shown after two ordinary requests is refused when it is put back. -/
theorem steep_curve_refused :
    let before := afterAll steepRequests
    let response := (before.handle "" (.forProfile "steep")).2
    response.status = 200 ∧
      response.curve?.map (fun shown => (before.handle "" (.withCurve "steep" shown)).2.status) =
        some 422 := by
  decide +kernel

end State

end ExperienceCurves.Service
