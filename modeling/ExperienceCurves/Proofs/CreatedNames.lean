import ExperienceCurves.Proofs.Addresses
import ExperienceCurves.Proofs.CharacterRuns
import ExperienceCurves.Proofs.DragEnds
import ExperienceCurves.Proofs.PublicationRuns

/-!
What can be reached of what is created. Characters and segments are named by the bodies of requests,
where any text is a name, and are found again by the paths of later ones, whose parts are not empty
and hold no slash. Empty names are never given. So every character that was answered with its name
is reached ever after, and every segment of a published curve is, up to the first one of its name,
unless the name holds a slash. Then no path leads to it.
-/
namespace ExperienceCurves

open Editing

/-- Among ranges of which one has the name there is a first one. -/
theorem Editing.exists_firstNamed {id : Datum} {spans : List Span}
    (h : ∃ s ∈ spans, s.isNamed id = true) :
    ∃ before s after, FirstNamed id spans before s after := by
  obtain ⟨before, s, after, happend, hnamed, hothers⟩ := exists_first h
  exact ⟨before, s, after, happend, hnamed, hothers⟩

namespace Curve

variable {c : Curve} {id : Datum} {a b m : Int} {before after : List Span} {s : Span}

/-- What comes of a new range for the segment between the others: it is set where it fits. -/
def SetsRange (before : List Span) (s : Span) (after : List Span) (a b m : Int)
    (outcome : Outcome Curve) : Prop :=
  (1 ≤ a ∧ a < b ∧ b ≤ m → ∃ c', outcome = .ok c' ∧
    c'.spans = before ++ { s with startLevel := .int a, endLevel := .int b } :: after) ∧
  (¬(1 ≤ a ∧ a < b ∧ b ≤ m) → ∃ failure, outcome = .error failure)

theorem setSpan_eq {α : Type} [Spanned α] (a b m : Int) (previous : Option α) (s : α)
    (following : Option α) :
    (1 ≤ a ∧ a < b ∧ b ≤ m → setSpan (.int a) (.int b) (.int m) previous s following =
      .ok (withRange s (.int a) (.int b))) ∧
    (¬(1 ≤ a ∧ a < b ∧ b ≤ m) →
      ∃ failure, setSpan (.int a) (.int b) (.int m) previous s following = .error failure) := by
  unfold setSpan
  rw [Span.checkRange_int, ← Span.refusal?_eq_none_iff]
  cases Span.refusal? a b m with
  | none => exact ⟨fun _ => rfl, fun hrefused => absurd rfl hrefused⟩
  | some r => exact ⟨nofun, fun _ => ⟨_, rfl⟩⟩

theorem setsRange_of_editNamed {α : Type} [Spanned α] {segments : List α}
    {rebuild : List α → Curve} (hspans : c.spans = segments.map Spanned.span)
    (hrebuild : ∀ out, (rebuild out).spans = out.map Spanned.span)
    (hfirst : FirstNamed id c.spans before s after) :
    SetsRange before s after a b m (editNamed id (setSpan (.int a) (.int b) (.int m)) segments >>=
      fun out => pure (rebuild out)) := by
  rcases editNamed_cases id (setSpan (.int a) (.int b) (.int m)) segments with
    ⟨-, hnone⟩ | ⟨earlier, segment, later, -, hfound, hedited⟩
  · have hs : s ∈ c.spans := hfirst.eq_append ▸ List.mem_append_right _ List.mem_cons_self
    cases hfirst.isNamed.symm.trans (hnone s (hspans ▸ hs))
  · rw [← hspans] at hfound
    obtain ⟨rfl, rfl, rfl⟩ := hfirst.unique hfound
    obtain ⟨hset, hrefused⟩ := setSpan_eq a b m earlier.getLast? segment later.head?
    rw [hedited]
    constructor
    · intro hrange
      rw [hset hrange]
      refine ⟨_, rfl, ?_⟩
      rw [hrebuild, List.map_append, List.map_cons, span_withRange]
    · intro hrange
      obtain ⟨failure, hfailure⟩ := hrefused hrange
      exact ⟨failure, by rw [hfailure]; rfl⟩

/-- A range is set for the first segment with the name. -/
theorem setsRange (hfirst : FirstNamed id c.spans before s after) :
    SetsRange before s after a b m (c.setRange id (.int a) (.int b) (.int m)) := by
  unfold setRange editActive
  cases hmode : c.useBezier with
  | true =>
    exact setsRange_of_editNamed (spans_eq_bezier hmode) (fun _ => spans_eq_bezier rfl) hfirst
  | false =>
    exact setsRange_of_editNamed (spans_eq_formula hmode) (fun _ => spans_eq_formula rfl) hfirst

end Curve

end ExperienceCurves

namespace ExperienceCurves.Service

open Editing (idOf exists_firstNamed)

/-- The body shows a character of the name on the profile. -/
def ShowsCharacter (body : Datum) (id profile : String) : Prop :=
  ∃ rest, body = .record (("characterId", .text id) :: ("profile", .text profile) :: rest)

namespace Resource

variable {name id : String}

theorem ofPath_character (hid : IsPathPart id) :
    ofPath ("/characters/" ++ id) = some (.character id) :=
  ofPath_of_toList (List.forall_mem_cons.2 ⟨by decide, List.forall_mem_singleton.2 hid⟩)
    (by simp [names])

theorem ofPath_experience (hid : IsPathPart id) :
    ofPath ("/characters/" ++ id ++ "/experience") = some (.experience id) := by
  refine ofPath_of_toList (fun part hpart => ?_) (by simp [names])
  simp only [names, List.mem_cons, List.not_mem_nil, or_false] at hpart
  rcases hpart with rfl | rfl | rfl
  · decide
  · exact hid
  · decide

theorem ofPath_range (hname : IsPathPart name) (hid : IsPathPart id) :
    ofPath ("/curves/" ++ name ++ "/segments/" ++ id ++ "/range") = some (.range name id) := by
  refine ofPath_of_toList (fun part hpart => ?_) (by simp [names])
  simp only [names, List.mem_cons, List.not_mem_nil, or_false] at hpart
  rcases hpart with rfl | rfl | rfl | rfl | rfl
  · decide
  · exact hname
  · decide
  · exact hid
  · decide

end Resource

namespace View

theorem written_eq_ok_iff {w : Word} {text : String} : written w = .ok text ↔ w = text := by
  cases w with
  | text s => simp [written]
  | torn t => simp [written]

/-- What is shown of a character has the name of the character and that of its profile. -/
theorem showsCharacter {c : Character} {body : Datum} (h : View.character c = .ok body) :
    ∃ id profile : String, c.id = id ∧ c.profile = profile ∧ ShowsCharacter body id profile := by
  obtain ⟨shown, -, h⟩ := Outcome.bind_eq_ok_iff.1 h
  obtain ⟨percent, -, h⟩ := Outcome.bind_eq_ok_iff.1 h
  obtain ⟨id, hid, h⟩ := Outcome.bind_eq_ok_iff.1 h
  obtain ⟨profile, hprofile, h⟩ := Outcome.bind_eq_ok_iff.1 h
  obtain rfl := Except.ok.inj h
  exact ⟨id, profile, written_eq_ok_iff.1 hid, written_eq_ok_iff.1 hprofile, _, rfl⟩

end View

theorem ShowsCharacter.unique {body : Datum} {id id' profile profile' : String}
    (h : ShowsCharacter body id profile) (h' : ShowsCharacter body id' profile') :
    id = id' ∧ profile = profile' := by
  obtain ⟨rest, rfl⟩ := h
  obtain ⟨rest', heq⟩ := h'
  simp at heq
  exact ⟨heq.1, heq.2.1⟩

namespace State

variable {s : State} {freshId : String}

/-- The empty name is never chosen. -/
theorem chosenId_ne_empty (wanted : Option Word) (hfresh : freshId ≠ "") :
    Ledger.chosenId wanted freshId ≠ .text "" := by
  have hgenerated : (freshId : Word) ≠ .text "" := fun h => hfresh (Word.text.inj h)
  unfold Ledger.chosenId
  split
  · split
    · exact hgenerated
    · assumption
  · exact hgenerated

/-- A creation that is answered has stored the character that is shown, under a name. -/
theorem stored_of_create {form : Form.Creation} {body : Datum} (hfresh : freshId ≠ "")
    (h : (s.create freshId form).2 = .ok body) :
    ∃ c : Character, (s.create freshId form).1.ledger = s.ledger.store c.id c ∧
      View.character c = .ok body ∧ c.id ≠ .text "" := by
  unfold create at h ⊢
  cases htaken : form.characterId.filter s.isTaken with
  | some id =>
    rw [htaken] at h
    cases h
  | none =>
    rw [htaken] at h
    dsimp only at h ⊢
    rcases Ledger.create_cases s.ledger s.registry form.profile form.characterId freshId with
      ⟨failure, hcreate⟩ | ⟨c, -, hid, hcreate⟩
    · rw [hcreate] at h
      cases h
    · rw [hcreate] at h ⊢
      exact ⟨c, rfl, h, hid ▸ chosenId_ne_empty form.characterId hfresh⟩

/-- Only a command that is carried out is answered with the status of success. -/
theorem IsShowable.ok_of_status (hs : s.IsShowable) {r : Request}
    (hstatus : (s.handle freshId r).2.status = 200) :
    ∃ command body, Command.ofRequest r = .ok command ∧
      (s.perform freshId command).2 = .ok body ∧
      s.handle freshId r = ((s.perform freshId command).1, ⟨200, body⟩) := by
  have hnone {problem : Problem} (hrefusal : problem.IsRefusal)
      (h : problem.response.status = 200) : False := by
    have hlow : 400 ≤ problem.response.status := hrefusal
    omega
  cases hcommand : Command.ofRequest r with
  | error problem =>
    rw [handle_of_problem freshId hcommand] at hstatus
    rcases Command.redirected_or_isRefusal hcommand with rfl | hrefusal
    · exact absurd hstatus (show ¬307 = 200 by decide)
    · exact absurd hstatus (hnone hrefusal)
  | ok command =>
    have htransition := perform_transition freshId hs (Command.isSendable_of_ofRequest hcommand)
    rw [handle_of_command freshId hcommand] at hstatus ⊢
    refine ⟨command, ?_⟩
    generalize s.perform freshId command = result at htransition hstatus ⊢
    cases htransition with
    | refused hrefusal => exact absurd hstatus (hnone hrefusal)
    | torn => exact absurd hstatus (show ¬500 = 200 by decide)
    | shown => exact ⟨_, rfl, rfl, rfl⟩
    | published => exact ⟨_, rfl, rfl, rfl⟩
    | recorded => exact ⟨_, rfl, rfl, rfl⟩

/-- What creates a character under a name, as the answer says, has stored it under the name. -/
theorem IsShowable.stored_of_creation (hs : s.IsShowable) {r : Request} (hfresh : freshId ≠ "")
    (hmethod : r.method = .post) (hpath : r.path = "/characters")
    (hstatus : (s.handle freshId r).2.status = 200) :
    ∃ c : Character, (s.handle freshId r).1.ledger.find? c.id = some c ∧ c.id ≠ .text "" ∧
      View.character c = .ok (s.handle freshId r).2.body := by
  obtain ⟨command, body, hcommand, hanswer, hhandle⟩ := hs.ok_of_status hstatus
  have hresource : Resource.ofPath r.path = some .characters := by rw [hpath]; rfl
  unfold Command.ofRequest at hcommand
  rw [hresource, hmethod] at hcommand
  obtain ⟨form, -, rfl⟩ := Outcome.map_eq_ok_iff.1 hcommand
  obtain ⟨c, hledger, hview, hname⟩ := stored_of_create hfresh hanswer
  rw [hhandle]
  refine ⟨c, ?_, hname, hview⟩
  change (s.create freshId form).1.ledger.find? c.id = some c
  rw [hledger, Dictionary.find?_store]
  exact if_pos rfl

/-- The paths with the name of a character lead to it. It is shown there, and a grant there is one
to it, which is answered and stored if its state takes it. -/
structure Reaches (s : State) (id : String) (c : Character) : Prop where
  stored : s.ledger.find? id = some c
  shown : ∀ freshId r, r.method = .get → r.path = "/characters/" ++ id →
    ∃ (body : Datum) (profile : String), s.handle freshId r = (s, ⟨200, body⟩) ∧
      View.character c = .ok body ∧ c.profile = profile ∧ ShowsCharacter body id profile
  dispatched : ∀ r, r.method = .post → r.path = "/characters/" ++ id ++ "/experience" →
    Command.ofRequest r = Command.grant id <$> Command.inBody r Form.experience
  granted : ∀ freshId r amount p result, Command.ofRequest r = .ok (.grant id amount) →
    s.registry.find? c.profile = some p →
    c.state.grant (some p.curve) (some p.growth) (.real amount) = .ok result →
      (s.handle freshId r).2.status = 200 ∧
        (s.handle freshId r).1.ledger.find? id = some { c with state := result.state }

theorem IsShowable.reaches (hs : s.IsShowable) {id : String} {c : Character}
    (hc : s.ledger.find? id = some c) (hname : IsPathPart id) : s.Reaches id c where
  stored := hc
  shown := by
    intro freshId r hmethod hpath
    have hown : c.id = id := hs.ids id c hc
    obtain ⟨body, hbody⟩ := View.exists_character (hs.character _ c hc) hown
    obtain ⟨id', profile, hid, hprofile, hshows⟩ := View.showsCharacter hbody
    obtain rfl := Word.text.inj (hown.symm.trans hid)
    have hcommand : Command.ofRequest r = .ok (.character id) := by
      unfold Command.ofRequest
      rw [hpath, Resource.ofPath_character hname, hmethod]
      rfl
    refine ⟨body, profile, handle_of_ok freshId hcommand ?_, hbody, hprofile, hshows⟩
    unfold perform characterNamed
    dsimp only
    rw [hc]
    exact congrArg (Prod.mk s) hbody
  dispatched := by
    intro r hmethod hpath
    unfold Command.ofRequest
    rw [hpath, Resource.ofPath_experience hname, hmethod]
    rfl
  granted := by
    intro freshId r amount p result hcommand hp hresult
    have hcredit : Ledger.credit s.registry c (.real amount) = .ok result :=
      Ledger.credit_eq_ok_iff.2 ⟨p, _, hp, rfl, hresult⟩
    have hgrant : s.ledger.grant s.registry id (.real amount) =
        (s.ledger.store id { c with state := result.state }, .ok result) := by
      unfold Ledger.grant
      rw [hc]
      dsimp only
      rw [hcredit]
      exact congrArg (Prod.mk _) (Ledger.announce_text id result)
    obtain ⟨body, hanswered⟩ := grant_of_ok hs hgrant
    have hhandle := handle_of_ok freshId hcommand hanswered
    rw [hhandle]
    refine ⟨rfl, ?_⟩
    dsimp only
    rw [Dictionary.find?_store]
    exact if_pos rfl

section Segments

variable {p : Profile} {name id : String} {r : Request} {a b m : Int} {before after : List Span}
  {t : Span}

/-- The curve with a range that fits is published. -/
theorem IsShowable.edited_setRange (hs : s.IsShowable) (hp : s.registry.find? name = some p)
    (hmax : p.maxLevel = .int m) {c : Curve}
    (hset : p.curve.setRange (.text id) (.int a) (.int b) (.int m) = .ok c)
    (hwithin : ∀ segment ∈ c.active, (Spanned.span segment).Within m) :
    ∃ (stored : Profile) (body : Datum), stored.curve = c ∧
      s.setRange name id a b =
        ({ s with registry := s.registry.store name stored }, .ok body) := by
  have hshow := hs.profile name p hp
  have hown : p.name = name := hs.names name p hp
  have hcurve : c.IsSendable := hshow.curve.setRange hset
  have hcheck : ({ p with curve := c } : Profile).curve.check p.maxLevel = .ok () := by
    rw [hmax]
    exact (Curve.check_eq_ok_iff hcurve).2 hwithin
  obtain ⟨m', hmax', hm, -⟩ := hshow.maxLevel
  obtain ⟨hpublish, hstored⟩ := Registry.publish_isShowable (r := s.registry)
    (p := { p with curve := c }) hshow.name hcurve hmax' hm hshow.growth hcheck
  obtain ⟨body, hbody⟩ := hs.exists_view hstored
  refine ⟨s.registry.numbered { p with curve := c }, body, rfl, ?_⟩
  unfold setRange edit profileNamed Registry.publishCurve
  rw [hp]
  dsimp only
  rw [← hmax] at hset
  rw [hset]
  change s.commit (s.registry.publish { p with curve := c }) = _
  rw [hpublish, commit, hbody]
  simp only [hown]

/-- A new range for a segment is set where it fits, and refused without a change elsewhere. -/
theorem IsShowable.handle_setRange (hs : s.IsShowable) (hp : s.registry.find? name = some p)
    (hmax : p.maxLevel = .int m)
    (hfirst : Editing.FirstNamed (.text id) p.curve.spans before t after)
    (hcommand : Command.ofRequest r = .ok (.setRange name id a b)) :
    (1 ≤ a ∧ a < b ∧ b ≤ m → (s.handle freshId r).2.status = 200 ∧
      ∃ p', (s.handle freshId r).1.registry.find? name = some p' ∧
        p'.curve.spans = before ++ { t with startLevel := .int a, endLevel := .int b } :: after) ∧
    (¬(1 ≤ a ∧ a < b ∧ b ≤ m) →
      400 ≤ (s.handle freshId r).2.status ∧ (s.handle freshId r).1 = s) := by
  obtain ⟨hset, hrefused⟩ := Curve.setsRange (a := a) (b := b) (m := m) hfirst
  constructor
  · intro hrange
    obtain ⟨c, hc, hspans⟩ := hset hrange
    have hold : ∀ u ∈ p.curve.spans, u.Within m := by
      obtain ⟨m', hmax', -, hwithin⟩ := (hs.profile name p hp).maxLevel
      obtain rfl := Number.int.inj (Datum.number.inj (hmax.symm.trans hmax'))
      exact List.forall_mem_map.2 hwithin
    rw [hfirst.eq_append, List.forall_mem_append, List.forall_mem_cons] at hold
    have hwithin : ∀ u ∈ c.spans, u.Within m := by
      rw [hspans, List.forall_mem_append, List.forall_mem_cons]
      exact ⟨hold.1, ⟨a, b, rfl, rfl, hrange⟩, hold.2.2⟩
    obtain ⟨stored, body, rfl, hedited⟩ := hs.edited_setRange hp hmax hc
      fun segment hsegment => hwithin _ (List.mem_map_of_mem hsegment)
    rw [handle_of_ok freshId hcommand hedited]
    refine ⟨rfl, stored, ?_, hspans⟩
    dsimp only
    rw [Dictionary.find?_store]
    exact if_pos rfl
  · intro hrange
    obtain ⟨failure, hfailure⟩ := hrefused hrange
    have hsame : s.perform freshId (.setRange name id a b) = (s, .error (.failed failure)) := by
      unfold perform setRange edit profileNamed
      dsimp only
      rw [hp]
      dsimp only
      rw [hmax, hfailure]
      rfl
    rw [handle_of_command freshId hcommand, hsame]
    exact ⟨Problem.isRefusal_failed _, rfl⟩

end Segments

/-- The path with the names of a profile and a segment leads to the first one of the name. A range
that fits is set for it and published, and otherwise nothing changes. -/
structure ReachesSegment (s : State) (name : String) (p : Profile) (id : String) : Prop where
  dispatched : ∀ r, r.method = .patch →
    r.path = "/curves/" ++ name ++ "/segments/" ++ id ++ "/range" →
      Command.ofRequest r =
        (fun bounds => Command.setRange name id bounds.1 bounds.2) <$> Command.inBody r Form.range
  ranged : ∃ before t after m, Editing.FirstNamed (.text id) p.curve.spans before t after ∧
    p.maxLevel = .int m ∧ ∀ freshId r a b, Command.ofRequest r = .ok (.setRange name id a b) →
      (1 ≤ a ∧ a < b ∧ b ≤ m → (s.handle freshId r).2.status = 200 ∧
        ∃ p', (s.handle freshId r).1.registry.find? name = some p' ∧
          p'.curve.spans = before ++ { t with startLevel := .int a, endLevel := .int b } :: after) ∧
      (¬(1 ≤ a ∧ a < b ∧ b ≤ m) →
        400 ≤ (s.handle freshId r).2.status ∧ (s.handle freshId r).1 = s)

theorem IsShowable.reachesSegment (hs : s.IsShowable) {name : String} {p : Profile}
    {segment : Segment} (hp : s.registry.find? name = some p) (hsegment : segment ∈ p.curve.active)
    (hname : IsPathPart name) (hid : IsPathPart (idOf segment)) :
    s.ReachesSegment name p (idOf segment) where
  dispatched := by
    intro r hmethod hpath
    unfold Command.ofRequest
    rw [hpath, Resource.ofPath_range hname hid, hmethod]
    rfl
  ranged := by
    have hnamed : ∃ t ∈ p.curve.spans, t.isNamed (.text (idOf segment)) = true :=
      ⟨_, List.mem_map_of_mem hsegment, decide_eq_true rfl⟩
    obtain ⟨before, t, after, hfirst⟩ := exists_firstNamed hnamed
    obtain ⟨m, hmax, -, -⟩ := (hs.profile _ p hp).maxLevel
    exact ⟨before, t, after, m, hfirst, hmax, fun freshId r a b hcommand =>
      hs.handle_setRange hp hmax hfirst hcommand⟩

/-- No path leads to a resource with the name. -/
def IsUnreachable (id : String) : Prop :=
  ∀ path resource, Resource.ofPath path = some resource → id ∉ resource.names

theorem isUnreachable_of_slash {id : String} (h : '/' ∈ id.toList) : IsUnreachable id :=
  fun _ _ hpath hname => (Resource.isPathPart_of_mem_names hpath hname).noSlash h

/-- Whatever requests are made, a character that was created with an answer is reached by its name
ever after, and a segment of a published curve is reached by its name, up to the first one of that
name, unless the name holds a slash. To a name with a slash no path leads. -/
theorem created_reached (requests : List (String × Request)) :
    (∀ (past later : List (String × Request)) (freshId : String) (r : Request)
      (id profile : String), past ++ [(freshId, r)] ++ later = requests → FreshNames requests →
      freshId ≠ "" → r.method = .post → r.path = "/characters" →
      ((afterAll past).handle freshId r).2.status = 200 →
      ShowsCharacter ((afterAll past).handle freshId r).2.body id profile →
        ∃ c : Character, c.id = id ∧ c.profile = profile ∧
          (afterAll requests).ledger.find? id = some c ∧
          ('/' ∉ id.toList → (afterAll requests).Reaches id c) ∧
          ('/' ∈ id.toList → IsUnreachable id)) ∧
    (∀ (name : Word) (p : Profile) (segment : Segment),
      (afterAll requests).registry.find? name = some p → segment ∈ p.curve.active →
        ∃ part : String, name = part ∧
          ('/' ∉ (idOf segment).toList →
            (afterAll requests).ReachesSegment part p (idOf segment)) ∧
          ('/' ∈ (idOf segment).toList → IsUnreachable (idOf segment))) := by
  have hshow := isShowable_afterAll requests
  constructor
  · rintro past later freshId r id profile rfl hnames hfresh hmethod hpath hstatus hbody
    obtain ⟨c, hc, hnonempty, hview⟩ :=
      (isShowable_afterAll past).stored_of_creation hfresh hmethod hpath hstatus
    obtain ⟨id', profile', hid, hprofile, hshows⟩ := View.showsCharacter hview
    obtain ⟨rfl, rfl⟩ := hshows.unique hbody
    have hstored : (afterAll (past ++ [(freshId, r)])).ledger.find? id' = some c := by
      rw [afterAll_concat, ← hid]
      exact hc
    obtain ⟨c', hc', hsame, -⟩ := precedes_afterAll hnames hstored
    refine ⟨c', hshow.ids id' c' hc', hsame.trans hprofile, hc', fun hslash => ?_,
      isUnreachable_of_slash⟩
    exact hshow.reaches hc' ⟨fun hempty => hnonempty (hid.trans (congrArg Word.text hempty)), hslash⟩
  · intro name p segment hp hsegment
    obtain ⟨part, rfl, hpart⟩ := isAddressed_afterAll requests name p hp
    have hnonempty : idOf segment ≠ "" :=
      ((hshow.profile _ p hp).curve.active segment hsegment).span.named
    exact ⟨part, rfl, fun hslash => hshow.reachesSegment hp hsegment hpart ⟨hnonempty, hslash⟩,
      isUnreachable_of_slash⟩

/-- A character is created and granted to, and it and a built-in segment are reached. -/
theorem created_reached_hero :
    let past : List (String × Request) := []
    let later := [("b", grantTo "hero" (Binary64.ofNat 250))]
    let answer := ((afterAll past).handle "a" (creation "hero")).2
    let s := afterAll (past ++ [("a", creation "hero")] ++ later)
    answer.status = 200 ∧ ShowsCharacter answer.body "hero" "player" ∧
      (∃ c, s.Reaches "hero" c) ∧
      ∃ p, (afterAll past).registry.find? "player" = some p ∧
        (afterAll past).ReachesSegment "player" p "1" := by
  intro past later answer s
  have hnames : FreshNames (past ++ [("a", creation "hero")] ++ later) := by
    have hfirst : FreshNames (past ++ [("a", creation "hero")]) := freshNames_nil.concat rfl
    refine hfirst.concat ?_
    exact Option.isNone_iff_eq_none.1 (by decide +kernel)
  have hstatus : answer.status = 200 := by decide +kernel
  have hbody : ShowsCharacter answer.body "hero" "player" := by
    have hvalues : ∀ c ∈ ((afterAll past).handle "a" (creation "hero")).1.ledger.values,
        c.id = .text "hero" ∧ c.profile = .text "player" := by decide +kernel
    obtain ⟨c, hc, -, hview⟩ :=
      (isShowable_afterAll past).stored_of_creation (by decide) rfl rfl hstatus
    obtain ⟨id, profile, hid, hprofile, hshows⟩ := View.showsCharacter hview
    obtain ⟨hhero, hplayer⟩ := hvalues c (Dictionary.mem_values_iff.2 ⟨_, hc⟩)
    obtain rfl := Word.text.inj (hid.symm.trans hhero)
    obtain rfl := Word.text.inj (hprofile.symm.trans hplayer)
    exact hshows
  obtain ⟨c, -, -, -, hreached, -⟩ := (created_reached _).1 past later "a" (creation "hero")
    "hero" "player" rfl hnames (by decide) rfl rfl hstatus hbody
  have hplayer : (afterAll past).registry.find? "player" = some (.ofPreset .player) := rfl
  obtain ⟨part, hpart, hfirst, -⟩ := (created_reached past).2 "player" _
    (.formula ⟨⟨"1", 1, 10⟩, Editing.usualFormula⟩) hplayer List.mem_cons_self
  obtain rfl := Word.text.inj hpart
  exact ⟨hstatus, hbody, ⟨c, hreached (by decide)⟩, _, hplayer, hfirst (by decide)⟩

/-- A character and a segment with a slash in their names are created, and no path finds them. -/
theorem slashed_not_reached :
    let step (startLevel endLevel : Int) : List (String × Datum) :=
      [("startLevel", .int startLevel), ("endLevel", .int endLevel)]
    let curve : Datum := .record [("segments", .list
      [.record ([("id", .text "a/b"), ("formula", .text "100")] ++ step 1 10)])]
    let created := (afterAll []).handle "a" (creation "a/b")
    let published := created.1.handle "b"
      ⟨.put, "/curves/steps", "", .data (.record [("curve", curve)])⟩
    let answers (r : Request) : Nat := (published.1.handle "c" r).2.status
    created.2.status = 200 ∧ published.2.status = 200 ∧
      answers ⟨.get, "/characters/a/b", "", .empty⟩ = 404 ∧
      answers (grantTo "a/b" 1) = 404 ∧
      answers ⟨.patch, "/curves/steps/segments/a/b/range", "", .data (.record (step 1 20))⟩ =
        404 := by
  decide +kernel

end State

end ExperienceCurves.Service
