import ExperienceCurves.Proofs.Values

/-!
Validation and evaluation. A formula is reported as mistaken just where its evaluation is, with the
same message, and one that is reported as valid has a tree whose variables all occur in its text. So
with a number for each variable a valid formula has a finite value or is undefined, a variable that
is missed occurs in the text, and what is given for the other variables makes no difference.
-/
namespace ExperienceCurves.Formula

/-- A variable occurs in a text: one of its tokens names it. -/
def Occurs (v : Variable) (formula : String) : Prop :=
  ∃ tokens, Token.scan formula = .ok tokens ∧ .named v ∈ tokens.map Token.lexeme

/-- A variable that occurs in what lexemes stand for is named among them. A tail may also continue a
tree with the variable. -/
def Category.Names (v : Variable) (lexemes : List Lexeme) : (s : Category) → s.Tree → Prop
  | tail _, tree => ∀ left : Expr, (tree left).Mentions v → left.Mentions v ∨ .named v ∈ lexemes
  | others, args => ∀ arg ∈ args, arg.Mentions v → .named v ∈ lexemes
  | chain _, tree | operand _, tree | unary, tree | power, tree | primary, tree =>
      tree.Mentions v → .named v ∈ lexemes

theorem Derivation.names {Bare : Prop} {s : Category} (v : Variable) (d : Derivation Bare s) :
    s.Names v d.lexemes d.tree := by
  induction d with
  | chain head tail ihhead ihtail =>
    intro h
    apply List.mem_append.2
    exact (ihtail _ h).imp_left ihhead
  | stop => exact fun left h => Or.inl h
  | more op hop right tail ihright ihtail =>
    intro left h
    simp only [lexemes, List.mem_cons, List.mem_append]
    rcases ihtail _ h with hbinary | htail
    · cases hbinary with
      | left _ _ hleft => exact Or.inl hleft
      | right _ _ hright => exact Or.inr (Or.inr (Or.inl (ihright hright)))
    · exact Or.inr (Or.inr (Or.inr htail))
  | term operand ih => exact ih
  | factor operand ih => exact ih
  | minus operand ih =>
    intro h
    cases h with
    | neg h => exact List.mem_cons_of_mem _ (ih h)
  | unsigned power ih => exact ih
  | plain base ih => exact ih
  | raised base exponent ihbase ihexponent =>
    intro h
    simp only [lexemes, List.mem_cons, List.mem_append]
    cases h with
    | left _ _ hbase => exact Or.inl (ihbase hbase)
    | right _ _ hexponent => exact Or.inr (Or.inr (ihexponent hexponent))
  | number literal x hx => exact fun h => nomatch h
  | named w =>
    intro h
    cases h with
    | named => exact List.mem_cons_self
  | enclosed inner ih =>
    intro h
    simp [lexemes, ih h]
  | bare hbare f =>
    intro h
    cases h with
    | arg _ harg => cases harg
  | call f first others ihfirst ihothers =>
    intro h
    simp only [lexemes, List.mem_cons, List.mem_append]
    cases h with
    | arg _ harg h =>
      rcases List.mem_cons.1 harg with rfl | harg
      · exact Or.inr (Or.inr (Or.inl (ihfirst h)))
      · exact Or.inr (Or.inr (Or.inr (ihothers _ harg h)))
  | close => exact fun arg harg => nomatch harg
  | another arg others iharg ihothers =>
    intro arg' harg h
    simp only [lexemes, List.mem_cons, List.mem_append]
    rcases List.mem_cons.1 harg with rfl | harg
    · exact Or.inr (Or.inl (iharg h))
    · exact Or.inr (Or.inr (ihothers _ harg h))

namespace Expr

open Grammar

theorem named_mem_of_ofTokens {tokens : List Token} {tree : Expr} {v : Variable}
    (h : ofTokens tokens = .ok tree) (hv : tree.Mentions v) :
    .named v ∈ tokens.map Token.lexeme := by
  obtain ⟨d, rest, rfl, -, hspells, -⟩ := exists_derivation_of_ofTokens h
  rw [hspells.map_lexeme]
  exact List.mem_append_left _ (d.names v hv)

/-- What occurs in the tree of a text occurs in the text. -/
theorem occurs_of_mentions {formula : String} {tree : Expr} {v : Variable}
    (h : ofText formula = .ok tree) (hv : tree.Mentions v) : Occurs v formula := by
  obtain ⟨-, tokens, hscan, hread⟩ := ofText_eq_ok_iff.1 h
  exact ⟨tokens, hscan, named_mem_of_ofTokens hread hv⟩

end Expr

/-- The text is outside the grammar, or a variable has no value. -/
def Error.IsMistake : Error → Prop
  | .malformed .. => True
  | .undefined .. => False

/-- Whether there is no value because of a mistake. -/
def isMistaken (value : Outcome Binary64) : Bool :=
  match value with
  | .error (.formula (.malformed ..)) => true
  | _ => false

theorem exists_mistake {value : Outcome Binary64} (h : isMistaken value = true) :
    ∃ error, value = .error (.formula error) ∧ error.IsMistake := by
  unfold isMistaken at h
  split at h
  · exact ⟨_, rfl, trivial⟩
  · cases h

theorem scan_error {formula : String} {error : Error} (h : Token.scan formula = .error error) :
    error.IsMistake := by
  unfold Token.scan at h
  split at h
  · cases h
  · obtain rfl := Except.error.inj h
    trivial

/-- A text that is refused as a formula has a mistake. -/
theorem Expr.ofText_isMistake {formula : String} {error : Error}
    (h : ofText formula = .error (.formula error)) : error.IsMistake := by
  unfold ofText at h
  split at h
  · obtain rfl := Failure.formula.inj (Except.error.inj h)
    trivial
  · split at h
    · next hscan =>
      obtain rfl := Failure.formula.inj (Except.error.inj h)
      exact scan_error hscan
    · split at h
      · cases h
      · obtain rfl := Failure.formula.inj (Except.error.inj h)
        trivial
      · cases h

theorem IsUndefined.not_isMistake {formula : String} {error : Error}
    (h : IsUndefined formula (.formula error)) : ¬error.IsMistake := by
  obtain ⟨cause, hcause⟩ := h
  obtain rfl := Failure.formula.inj hcause
  exact id

/-- A value that is no number is not the fault of a formula. -/
theorem toBinary64_ne_formula {given : Datum} {error : Error} :
    given.toBinary64 ≠ .error (.formula error) := by
  intro h
  cases given with
  | number n =>
    obtain ⟨fault, -, hfault⟩ := Outcome.ofFault_eq_error_iff.1 h
    cases hfault
  | text s =>
    simp only [Datum.toBinary64] at h
    split at h
    · cases h
    · cases h
  | _ => cases h

namespace Bindings

/-- A number is given for every variable. -/
def IsComplete (b : Bindings) : Prop :=
  ∀ v, ∃ given x, b.value? v = some given ∧ given.toBinary64 = .ok x

variable {b : Bindings}

theorem IsComplete.areNumbers (h : b.IsComplete) : b.AreNumbers := by
  intro v given hgiven
  obtain ⟨given', x, hgiven', hx⟩ := h v
  obtain rfl := Option.some.inj (hgiven.symm.trans hgiven')
  exact ⟨x, hx⟩

theorem IsComplete.not_lacks (h : b.IsComplete) {tree : Expr} {formula : String}
    {failure : Failure} : ¬tree.Lacks b formula failure := by
  intro hlacks
  obtain ⟨v, -, hnone, -⟩ := hlacks
  obtain ⟨given, x, hgiven, -⟩ := h v
  cases hnone.symm.trans hgiven

end Bindings

namespace Expr

variable {formula : String}

theorem values_congr {first second : Bindings} {args : List Expr}
    (h : ∀ arg ∈ args, value first formula arg = value second formula arg) :
    values first formula args = values second formula args := by
  induction args with
  | nil => rw [values, values]
  | cons arg rest ih =>
    rw [values, values, h arg List.mem_cons_self]
    rw [ih fun arg harg => h arg (List.mem_cons_of_mem _ harg)]

/-- Only what is given for the variables of a tree decides its value. By induction on the tree. -/
theorem value_congr {first second : Bindings} {tree : Expr}
    (h : ∀ v : Variable, tree.Mentions v → first.value? v = second.value? v) :
    value first formula tree = value second formula tree := by
  induction tree using byParts with
  | number x => rw [value, value]
  | named v => rw [value, value, h v .named]
  | neg operand ih => rw [value_neg, value_neg, ih fun v hv => h v (.neg hv)]
  | binary op left right ihleft ihright =>
    rw [value_binary, value_binary, ihleft fun v hv => h v (.left op right hv)]
    rw [ihright fun v hv => h v (.right op left hv)]
  | call f args ih =>
    rw [value_call, value_call]
    rw [values_congr fun arg harg => ih arg harg fun v hv => h v (.arg f harg hv)]

end Expr

variable {formula : String} {bindings : Bindings}

theorem complaint?_eq_none_iff :
    complaint? (.text formula) = .ok none ↔ ∃ tree, Expr.ofText formula = .ok tree := by
  have hdatum : Expr.ofDatum (.text formula) = Expr.ofText formula := rfl
  unfold complaint?
  rw [hdatum]
  cases Expr.ofText formula with
  | ok tree => simp
  | error failure => cases failure <;> simp

theorem complaint?_eq_some_iff {message : String} :
    complaint? (.text formula) = .ok (some message) ↔
      ∃ error, Expr.ofText formula = .error (.formula error) ∧ error.message = message := by
  have hdatum : Expr.ofDatum (.text formula) = Expr.ofText formula := rfl
  unfold complaint?
  rw [hdatum]
  cases Expr.ofText formula with
  | ok tree => simp
  | error failure => cases failure <;> simp

theorem evaluate_of_refused {failure : Failure} (h : Expr.ofText formula = .error failure) :
    evaluate (.text formula) bindings = .error failure :=
  Outcome.bind_eq_error_iff.2 (Or.inl h)

/-- What fails in a formula with a tree: it is undefined, or a variable in it is missed, or what is
given for one is no number. -/
theorem evaluate_of_read {tree : Expr} (hread : Expr.ofText formula = .ok tree) {failure : Failure}
    (h : evaluate (.text formula) bindings = .error failure) :
    IsUndefined formula failure ∨ tree.Lacks bindings formula failure ∨
      bindings.Fails failure := by
  rcases Outcome.bind_eq_error_iff.1 h with hfailed | ⟨tree', hread', h⟩
  · cases hread.symm.trans hfailed
  · obtain rfl := Except.ok.inj (hread.symm.trans hread')
    rcases Outcome.bind_eq_error_iff.1 h with hvalue | ⟨x, -, h⟩
    · exact Expr.value_error (Expr.hasArity_of_ofText hread) hvalue
    · split at h
      · cases h
      · exact Or.inl ⟨_, (Except.error.inj h).symm⟩

/-- With a number for every variable, a formula with a tree has a finite value or is undefined. -/
theorem evaluate_of_isComplete (hbindings : bindings.IsComplete)
    (hread : ∃ tree, Expr.ofText formula = .ok tree) :
    (∃ x, evaluate (.text formula) bindings = .ok x ∧ x.isFinite = true) ∨
      ∃ cause, evaluate (.text formula) bindings = .error (undefinedAs formula cause) := by
  obtain ⟨tree, hread⟩ := hread
  cases hvalue : evaluate (.text formula) bindings with
  | ok x => exact Or.inl ⟨x, rfl, isFinite_of_evaluate hvalue⟩
  | error failure =>
    rcases evaluate_of_read hread hvalue with ⟨cause, rfl⟩ | hlacks | hfails
    · exact Or.inr ⟨cause, rfl⟩
    · exact absurd hlacks hbindings.not_lacks
    · exact absurd hfails (hbindings.areNumbers.not_fails failure)

/-- A mistake is reported just where the evaluation ends with it. -/
theorem complaint?_iff_evaluate (hbindings : bindings.IsComplete) (message : String) :
    complaint? (.text formula) = .ok (some message) ↔
      ∃ error, evaluate (.text formula) bindings = .error (.formula error) ∧
        error.IsMistake ∧ error.message = message := by
  rw [complaint?_eq_some_iff]
  constructor
  · intro h
    obtain ⟨error, hread, hmessage⟩ := h
    exact ⟨error, evaluate_of_refused hread, Expr.ofText_isMistake hread, hmessage⟩
  · intro h
    obtain ⟨error, hvalue, hmistake, hmessage⟩ := h
    refine ⟨error, ?_, hmessage⟩
    cases hread : Expr.ofText formula with
    | error failure =>
      obtain rfl := Except.error.inj ((evaluate_of_refused hread).symm.trans hvalue)
      rfl
    | ok tree =>
      rcases evaluate_of_isComplete hbindings ⟨tree, hread⟩ with ⟨x, hx, -⟩ | ⟨cause, hcause⟩
      · cases hvalue.symm.trans hx
      · obtain rfl := Failure.formula.inj (Except.error.inj (hvalue.symm.trans hcause))
        exact absurd hmistake id

/-- In a formula with a tree the only mistake that an evaluation finds is a variable of the text for
which nothing is given. -/
theorem evaluate_missed (hread : ∃ tree, Expr.ofText formula = .ok tree) {error : Error}
    (h : evaluate (.text formula) bindings = .error (.formula error)) (hmistake : error.IsMistake) :
    ∃ v, Occurs v formula ∧ bindings.value? v = none ∧
      error = .malformed (.unbound v.name) formula none := by
  obtain ⟨tree, hread⟩ := hread
  rcases evaluate_of_read hread h with hundefined | ⟨v, hv, hnone, herror⟩ | ⟨v, given, -, hfailed⟩
  · exact absurd hmistake hundefined.not_isMistake
  · exact ⟨v, Expr.occurs_of_mentions hread hv, hnone, Failure.formula.inj herror⟩
  · exact absurd hfailed toBinary64_ne_formula

theorem evaluate_congr {first second : Bindings}
    (h : ∀ v, Occurs v formula → first.value? v = second.value? v) :
    evaluate (.text formula) first = evaluate (.text formula) second := by
  have hdatum : Expr.ofDatum (.text formula) = Expr.ofText formula := rfl
  unfold evaluate
  rw [hdatum]
  cases hread : Expr.ofText formula with
  | error failure => rfl
  | ok tree =>
    have hvalue : tree.value first formula = tree.value second formula :=
      Expr.value_congr fun v hv => h v (Expr.occurs_of_mentions hread hv)
    change tree.value first formula >>= _ = tree.value second formula >>= _
    rw [hvalue]

/-- Validation predicts evaluation. With numbers given for all variables a text is reported as
mistaken just where its evaluation finds a mistake, with the same message, and a valid one has a
finite value or is undefined. Whatever is given, the only mistake found in a valid text is a
variable of the text that is missed, and variables that do not occur in it make no difference. -/
theorem validation_predicts (formula : String) (fields : List (String × Datum)) :
    ((Bindings.ofFields fields).IsComplete →
      (∀ message, complaint? (.text formula) = .ok (some message) ↔
        ∃ error, evaluate (.text formula) (.ofFields fields) = .error (.formula error) ∧
          error.IsMistake ∧ error.message = message) ∧
      (complaint? (.text formula) = .ok none →
        (∃ x, evaluate (.text formula) (.ofFields fields) = .ok x ∧ x.isFinite = true) ∨
          ∃ cause, evaluate (.text formula) (.ofFields fields) =
            .error (.formula (.undefined cause formula)))) ∧
    (complaint? (.text formula) = .ok none → ∀ error,
      evaluate (.text formula) (.ofFields fields) = .error (.formula error) → error.IsMistake →
        ∃ v, Occurs v formula ∧ (Bindings.ofFields fields).value? v = none ∧
          error = .malformed (.unbound v.name) formula none) ∧
    ∀ others : List (String × Datum),
      (∀ v, Occurs v formula →
        (Bindings.ofFields fields).value? v = (Bindings.ofFields others).value? v) →
      evaluate (.text formula) (.ofFields fields) =
        evaluate (.text formula) (.ofFields others) := by
  rw [complaint?_eq_none_iff]
  refine ⟨fun hbindings => ⟨?_, ?_⟩, ?_, ?_⟩
  · exact complaint?_iff_evaluate hbindings
  · exact evaluate_of_isComplete hbindings
  · intro hread error hvalue hmistake
    exact evaluate_missed hread hvalue hmistake
  · intro others hagree
    exact evaluate_congr hagree

/-- A quotient without a size in it, at the level where it divides by zero. -/
theorem validation_predicts_quotient :
    let formula := "60/(x-5)"
    let fields : List (String × Datum) := [("X", .real 5), ("size", .real 1)]
    let others : List (String × Datum) := [("level", .real 5)]
    (Bindings.ofFields fields).IsComplete ∧ complaint? (.text formula) = .ok none ∧
      ((∃ x, evaluate (.text formula) (.ofFields fields) = .ok x ∧ x.isFinite = true) ∨
        ∃ cause, evaluate (.text formula) (.ofFields fields) =
          .error (.formula (.undefined cause formula))) ∧
      evaluate (.text formula) (.ofFields fields) = evaluate (.text formula) (.ofFields others) ∧
      ∃ v, Occurs v formula ∧ (Bindings.ofFields []).value? v = none := by
  intro formula fields others
  have hcomplete : (Bindings.ofFields fields).IsComplete := by
    intro v
    cases v with
    | level => exact ⟨.real 5, 5, by rfl, rfl⟩
    | size => exact ⟨.real 1, 1, by rfl, rfl⟩
  have htokens : Token.scan formula = .ok [⟨.number "60", 0⟩, ⟨.operator .dividedBy, 2⟩,
      ⟨.opening, 3⟩, ⟨.named .level, 4⟩, ⟨.operator .minus, 5⟩, ⟨.number "5", 6⟩, ⟨.closing, 7⟩,
      ⟨.finish, 8⟩] := by decide +kernel
  have hvalid : complaint? (.text formula) = .ok none :=
    Outcome.eq_ok_of_toOption (by decide +kernel)
  have hagree : ∀ v, Occurs v formula →
      (Bindings.ofFields fields).value? v = (Bindings.ofFields others).value? v := by
    intro v hv
    obtain ⟨tokens, hscan, hmem⟩ := hv
    obtain rfl := Except.ok.inj (htokens.symm.trans hscan)
    cases v with
    | level => rfl
    | size => simp at hmem
  have hmissed : ∃ error, evaluate (.text formula) (.ofFields []) = .error (.formula error) ∧
      error.IsMistake := by
    apply exists_mistake
    decide +kernel
  obtain ⟨hpredicts, -, hothers⟩ := validation_predicts formula fields
  obtain ⟨-, hmissing, -⟩ := validation_predicts formula []
  obtain ⟨error, hvalue, hmistake⟩ := hmissed
  obtain ⟨v, hv, hnone, -⟩ := hmissing hvalid error hvalue hmistake
  exact ⟨hcomplete, hvalid, (hpredicts hcomplete).2 hvalid, hothers others hagree, v, hv, hnone⟩

end ExperienceCurves.Formula
