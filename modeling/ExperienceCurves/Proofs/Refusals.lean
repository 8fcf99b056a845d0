import ExperienceCurves.Service.State

/-!
Refusals. Every problem that a request can run into, from its form to the view of its answer, is
answered with a status of 400 or more, unless another path is the one to ask. So a request is
answered with what it asked for, or sent there, or refused. Combining steps that refuse in this way
gives steps that do.
-/
namespace ExperienceCurves.Service

/-- The status of the response says that the request failed. -/
def Problem.IsRefusal (p : Problem) : Prop := 400 ≤ p.response.status

/-- All that can come of it besides a result are refusals. -/
def Refuses {α : Type} (x : Except Problem α) : Prop :=
  ∀ problem, x = .error problem → problem.IsRefusal

namespace Problem

theorem isRefusal_internal (message : String) : (internal message).IsRefusal :=
  show 400 ≤ 500 by decide

theorem isRefusal_notFound (message : String) : (notFound message).IsRefusal :=
  show 400 ≤ 404 by decide

theorem isRefusal_failed (failure : Failure) : (failed failure).IsRefusal := by
  change 400 ≤ (ofFailure failure).status
  unfold ofFailure
  split
  · split
    · exact show 400 ≤ 500 by decide
    · split
      · exact show 400 ≤ 404 by decide
      · exact show 400 ≤ 422 by decide
  · exact show 400 ≤ 500 by decide

theorem isRefusal_invalid (complaints : List Complaint) : (invalid complaints).IsRefusal := by
  change 400 ≤ (ofComplaints complaints).status
  unfold ofComplaints
  split
  · split
    · exact show 400 ≤ 422 by decide
    · exact show 400 ≤ 500 by decide
  · exact show 400 ≤ 500 by decide

/-- A message that quotes a word refuses with its own status, unless the word cuts it off. -/
theorem isRefusal_about {status : Nat} (hstatus : 400 ≤ status) (start : String) (w : Word)
    (rest : String) : (about status start w rest).IsRefusal := by
  cases w with
  | text s => exact hstatus
  | torn t => exact isRefusal_internal _

theorem isRefusal_absent (start : String) (w : Word) (rest : String) :
    (absent start w rest).IsRefusal := by
  cases w with
  | text s => exact isRefusal_notFound _
  | torn t => exact isRefusal_internal _

end Problem

namespace Refuses

variable {α β : Type}

theorem ok (a : α) : Refuses (.ok a : Except Problem α) := fun _ h => nomatch h

theorem error {problem : Problem} (h : problem.IsRefusal) :
    Refuses (.error problem : Except Problem α) := by
  rintro _ ⟨⟩
  exact h

theorem bind {x : Except Problem α} {f : α → Except Problem β} (hx : Refuses x)
    (hf : ∀ a, x = .ok a → Refuses (f a)) : Refuses (x >>= f) := by
  intro problem h
  rcases Outcome.bind_eq_error_iff.1 h with h | ⟨a, ha, h⟩
  · exact hx problem h
  · exact hf a ha problem h

theorem map {x : Except Problem α} (f : α → β) (hx : Refuses x) : Refuses (f <$> x) := by
  cases x with
  | ok a => exact ok (f a)
  | error problem => exact error (hx problem rfl)

theorem mapM {f : α → Except Problem β} (hf : ∀ a, Refuses (f a)) (as : List α) :
    Refuses (as.mapM f) := by
  induction as with
  | nil => exact ok []
  | cons a rest ih =>
    rw [List.mapM_cons]
    exact (hf a).bind fun b _ => ih.bind fun bs _ => ok (b :: bs)

theorem answered (x : Outcome α) : Refuses (answered x) := by
  cases x with
  | ok a => exact ok a
  | error failure => exact error (Problem.isRefusal_failed failure)

end Refuses

namespace Command

variable {α : Type}

theorem refuses_settled (x : Checked α) : Refuses (settled x) := by
  cases x with
  | valid a => exact .ok a
  | invalid complaints => exact .error (Problem.isRefusal_invalid complaints)

theorem refuses_inBody (r : Request) (read : Form.Reader α) : Refuses (inBody r read) := by
  unfold inBody
  split
  · exact refuses_settled _
  · exact refuses_settled _
  · exact .error (Nat.le_refl 400)
  · exact refuses_settled _

/-- Each method that a resource answers reads at most one form. -/
theorem refuses_ofResource (r : Request) (resource : Resource) (method : Method) :
    Refuses (ofResource r resource method) := by
  unfold ofResource
  split
  all_goals first
    | exact .ok _
    | exact (refuses_inBody r _).map _
    | exact (refuses_settled _).map _
    | exact refuses_settled _
    | exact .error (show 400 ≤ 405 by decide)

/-- A path that leads to a resource is the one to ask. -/
theorem refuses_ofRequest {r : Request} {resource : Resource}
    (h : Resource.ofPath r.path = some resource) : Refuses (ofRequest r) := by
  unfold ofRequest
  rw [h]
  exact refuses_ofResource r resource r.method

/-- A request that is no command is sent elsewhere or refused. -/
theorem redirected_or_isRefusal {r : Request} {problem : Problem}
    (h : ofRequest r = .error problem) : problem = .redirected ∨ problem.IsRefusal := by
  cases hpath : Resource.ofPath r.path with
  | some resource => exact Or.inr (refuses_ofRequest hpath problem h)
  | none =>
    unfold ofRequest at h
    rw [hpath] at h
    dsimp only at h
    split at h
    · exact Or.inl (Except.error.inj h).symm
    · obtain rfl := Except.error.inj h
      exact Or.inr (show 400 ≤ 404 by decide)

end Command

namespace View

theorem refuses_shown {α : Type} (x : Checked α) : Refuses (shown x) := by
  cases x with
  | valid a => exact .ok a
  | invalid complaints => exact .error (Problem.isRefusal_internal _)

theorem refuses_decimal (d : Datum) : Refuses (decimal d) := (refuses_shown _).map _

theorem refuses_issue (i : ContinuityIssue) : Refuses (issue i) :=
  (refuses_decimal _).bind fun _ _ => (refuses_decimal _).bind fun _ _ => .ok _

theorem refuses_written (w : Word) : Refuses (written w) := by
  cases w with
  | text s => exact .ok s
  | torn t => exact .error (Problem.isRefusal_internal _)

theorem refuses_profile (settings : Settings) (p : Profile) : Refuses (profile settings p) := by
  refine Refuses.bind ((refuses_shown _).bind fun _ _ => .ok _) fun _ _ => ?_
  refine (Refuses.answered _).bind fun found _ => ?_
  refine (Refuses.mapM refuses_issue found).bind fun _ _ => ?_
  refine (Refuses.answered _).bind fun _ _ => ?_
  refine Refuses.bind ((refuses_shown _).map _) fun _ _ => ?_
  exact (refuses_written _).bind fun _ _ => .ok _

theorem refuses_profiles (r : Registry) : Refuses (profiles r) := by
  refine Refuses.bind (.mapM ?_ r.profiles) fun _ _ => .ok _
  exact fun p => (refuses_written p.name).bind fun _ _ => .ok _

theorem refuses_continuity (settings : Settings) (c : Curve) : Refuses (continuity settings c) := by
  unfold continuity
  refine (Refuses.answered _).bind fun found _ => (Refuses.answered _).bind fun overlaps _ => ?_
  dsimp only
  split
  · exact .ok _
  · exact .error (Problem.isRefusal_internal _)

theorem refuses_requirement (c : Curve) (level : Int) : Refuses (requirement c level) :=
  (Refuses.answered _).bind fun _ _ => .ok _

theorem refuses_table (name : String) (c : Curve) (first last : Int) :
    Refuses (table name c first last) :=
  (Refuses.answered _).bind fun _ _ => .ok _

theorem refuses_state (p : Progression) : Refuses (state p) := by
  refine (refuses_decimal _).bind fun _ _ => (refuses_decimal _).bind fun _ _ => ?_
  exact Refuses.bind ((refuses_shown _).map _) fun _ _ => .ok _

theorem refuses_character (c : Character) : Refuses (character c) :=
  (refuses_state c.state).bind fun _ _ => (Refuses.answered _).bind fun _ _ =>
    (refuses_written c.id).bind fun _ _ => (refuses_written c.profile).bind fun _ _ => .ok _

theorem refuses_stats (id : String) (level : Int) (p : StatsProfile) :
    Refuses (stats id level p) := by
  refine (Refuses.answered _).bind fun stats _ => Refuses.bind (.mapM ?_ stats) fun _ _ => .ok _
  intro stat
  exact (refuses_decimal _).bind fun _ _ => .ok _

theorem refuses_evaluation (form : Form.Evaluation) : Refuses (evaluation form) := by
  unfold evaluation
  dsimp only
  split
  · exact .ok _
  · split
    · exact .ok _
    · exact .error (Problem.isRefusal_failed _)

theorem refuses_validation (formula : String) : Refuses (validation formula) :=
  (Refuses.answered _).bind fun _ _ => .ok _

end View

namespace State

variable (s : State)

theorem refuses_profileNamed (name : Word) : Refuses (s.profileNamed name) := by
  unfold profileNamed
  split
  · exact .ok _
  · exact .error (Problem.isRefusal_absent _ _ _)

theorem refuses_characterNamed (id : String) : Refuses (s.characterNamed id) := by
  unfold characterNamed
  split
  · exact .ok _
  · exact .error (Problem.isRefusal_notFound _)

theorem refuses_requirement (name : String) (level : Int) : Refuses (s.requirement name level) := by
  unfold requirement
  split
  · exact .error (show 400 ≤ 422 by decide)
  · exact (s.refuses_profileNamed name).bind fun p _ => View.refuses_requirement p.curve level

theorem refuses_table (name : String) (first last : Int) : Refuses (s.table name first last) := by
  unfold table
  split
  · exact .error (show 400 ≤ 422 by decide)
  · exact (s.refuses_profileNamed name).bind fun p _ => View.refuses_table name p.curve first last

theorem refuses_stats (id : String) : Refuses (s.stats id) :=
  (s.refuses_characterNamed id).bind fun character _ =>
    (s.refuses_profileNamed character.profile).bind fun _ _ => View.refuses_stats id _ _

end State

end ExperienceCurves.Service
