import ExperienceCurves.Proofs.Chains
import ExperienceCurves.Proofs.Literals
import Mathlib.Data.List.Basic

/-!
Values of formulas. In a tree whose calls have the right number of arguments every operation names
its own failure, so an evaluation ends with a finite number or with a failure of the formula. The
one other failure comes from reading, for a literal with a digit that is no decimal one.
-/
namespace ExperienceCurves.Formula

/-- Every call has as many arguments as its function takes. -/
inductive Expr.HasArity : Expr → Prop
  | number (x : Binary64) : HasArity (.number x)
  | named (v : Variable) : HasArity (.named v)
  | neg {operand : Expr} (h : HasArity operand) : HasArity (.neg operand)
  | binary (op : Operator) {left right : Expr} (hleft : HasArity left) (hright : HasArity right) :
      HasArity (.binary op left right)
  | call (f : Function) {args : List Expr} (hcount : args.length = f.arity)
      (hargs : ∀ arg ∈ args, HasArity arg) : HasArity (.call f args)

/-- A variable occurs in a tree. -/
inductive Expr.Mentions (v : Variable) : Expr → Prop
  | named : Mentions v (.named v)
  | neg {operand : Expr} (h : Mentions v operand) : Mentions v (.neg operand)
  | left (op : Operator) {left : Expr} (right : Expr) (h : Mentions v left) :
      Mentions v (.binary op left right)
  | right (op : Operator) (left : Expr) {right : Expr} (h : Mentions v right) :
      Mentions v (.binary op left right)
  | arg (f : Function) {args : List Expr} {arg : Expr} (harg : arg ∈ args) (h : Mentions v arg) :
      Mentions v (.call f args)

/-- Right arities in the parts of a formula. A tail keeps them for the tree on its left. -/
def Category.HasArity : (s : Category) → s.Tree → Prop
  | tail _, tree => ∀ left : Expr, left.HasArity → (tree left).HasArity
  | others, args => ∀ arg ∈ args, arg.HasArity
  | chain _, tree | operand _, tree | unary, tree | power, tree | primary, tree => tree.HasArity

theorem Derivation.hasArity_tree {Bare : Prop} {s : Category} (d : Derivation Bare s)
    (h : d.HasArity) : s.HasArity d.tree := by
  induction d with
  | chain head tail ihhead ihtail => exact ihtail h.2 _ (ihhead h.1)
  | stop => exact fun _ hleft => hleft
  | more op hop right tail ihright ihtail =>
    exact fun _ hleft => ihtail h.2 _ (.binary op hleft (ihright h.1))
  | term operand ih => exact ih h
  | factor operand ih => exact ih h
  | minus operand ih => exact .neg (ih h)
  | unsigned power ih => exact ih h
  | plain base ih => exact ih h
  | raised base exponent ihbase ihexponent => exact .binary .power (ihbase h.1) (ihexponent h.2)
  | number literal x hx => exact .number x
  | named v => exact .named v
  | enclosed inner ih => exact ih h
  | bare hbare f => exact .call f h.symm fun _ harg => nomatch harg
  | call f first others ihfirst ihothers =>
    refine .call f h.1.symm ?_
    intro arg harg
    rcases List.mem_cons.1 harg with rfl | harg
    · exact ihfirst h.2.1
    · exact ihothers h.2.2 arg harg
  | close => exact fun _ harg => nomatch harg
  | another arg others iharg ihothers =>
    intro arg harg
    rcases List.mem_cons.1 harg with rfl | harg
    · exact iharg h.1
    · exact ihothers h.2 arg harg

namespace Expr

open Grammar

theorem hasArity_of_ofTokens {tokens : List Token} {tree : Expr} (h : ofTokens tokens = .ok tree) :
    tree.HasArity := by
  obtain ⟨d, -, rfl, hfits, -⟩ := exists_derivation_of_ofTokens h
  exact d.hasArity_tree hfits.2

theorem hasArity_of_ofText {formula : String} {tree : Expr} (h : ofText formula = .ok tree) :
    tree.HasArity := by
  obtain ⟨-, tokens, -, hread⟩ := ofText_eq_ok_iff.1 h
  exact hasArity_of_ofTokens hread

/-- A text is refused for a mistake in it, or for a literal with a digit that is not decimal. -/
theorem ofText_error {formula : String} {failure : Failure} (h : ofText formula = .error failure) :
    failure.isFormula = true ∨
      ¬Positional formula.toList ∧ ∃ literal, failure = .refused (.notDecimal literal) := by
  unfold ofText at h
  split at h
  · obtain rfl := Except.error.inj h
    exact Or.inl rfl
  · split at h
    · obtain rfl := Except.error.inj h
      exact Or.inl rfl
    · next tokens hscan =>
      split at h
      · cases h
      · obtain rfl := Except.error.inj h
        exact Or.inl rfl
      · next literal hread =>
        obtain rfl := Except.error.inj h
        refine Or.inr ⟨?_, literal, rfl⟩
        intro hpositional
        obtain ⟨fault, hfault⟩ := ofTokens_mistaken (readable_of_scan hscan hpositional) hread
        cases hfault

end Expr

/-- The formula has no value, for some cause. -/
def IsUndefined (formula : String) (failure : Failure) : Prop :=
  ∃ cause, failure = undefinedAs formula cause

theorem IsUndefined.isFormula {formula : String} {failure : Failure}
    (h : IsUndefined formula failure) : failure.isFormula = true := by
  obtain ⟨cause, rfl⟩ := h
  rfl

theorem Function.rounded_error {formula : String} {f : Function} {result : Except Fault Binary64}
    {failure : Failure} (h : f.rounded formula result = .error failure) :
    IsUndefined formula failure := by
  cases result with
  | ok x => cases h
  | error fault => exact ⟨_, (Except.error.inj h).symm⟩

theorem Function.apply_error {formula : String} {f : Function} {xs : List Binary64}
    {failure : Failure} (hcount : xs.length = f.arity) (h : f.apply formula xs = .error failure) :
    IsUndefined formula failure := by
  cases f with
  | max =>
    obtain ⟨x, y, rfl⟩ := List.length_eq_two.1 hcount
    cases h
  | min =>
    obtain ⟨x, y, rfl⟩ := List.length_eq_two.1 hcount
    cases h
  | round =>
    obtain ⟨x, rfl⟩ := List.length_eq_one_iff.1 hcount
    exact rounded_error h
  | floor =>
    obtain ⟨x, rfl⟩ := List.length_eq_one_iff.1 hcount
    exact rounded_error h
  | ceil =>
    obtain ⟨x, rfl⟩ := List.length_eq_one_iff.1 hcount
    exact rounded_error h
  | sqrt =>
    obtain ⟨x, rfl⟩ := List.length_eq_one_iff.1 hcount
    change (if x.lt 0 then .error (undefinedAs formula (.negativeRoot x)) else .ok x.sqrt) =
      Except.error failure at h
    split at h
    · exact ⟨_, (Except.error.inj h).symm⟩
    · cases h

theorem Operator.apply_error {formula : String} {op : Operator} {x y : Binary64}
    {failure : Failure} (h : op.apply formula x y = .error failure) :
    IsUndefined formula failure := by
  unfold Operator.apply at h
  split at h
  · cases h
  · cases h
  · cases h
  · split at h
    · exact ⟨_, (Except.error.inj h).symm⟩
    · cases h
  · split at h
    · cases h
    · exact ⟨_, (Except.error.inj h).symm⟩

/-- What is given for a variable is a number, or a text that holds one. -/
def Bindings.AreNumbers (b : Bindings) : Prop :=
  ∀ v given, b.value? v = some given → ∃ x, given.toBinary64 = .ok x

/-- What is given for a variable fails to be a number. -/
def Bindings.Fails (b : Bindings) (failure : Failure) : Prop :=
  ∃ v given, b.value? v = some given ∧ given.toBinary64 = .error failure

/-- Nothing is given for a variable that occurs in the tree. -/
def Expr.Lacks (tree : Expr) (b : Bindings) (formula : String) (failure : Failure) : Prop :=
  ∃ v : Variable, tree.Mentions v ∧ b.value? v = none ∧
    failure = .formula (.malformed (.unbound v.name) formula none)

namespace Bindings

theorem AreNumbers.not_fails {b : Bindings} (hb : b.AreNumbers) (failure : Failure) :
    ¬b.Fails failure := by
  rintro ⟨v, given, hgiven, hfailed⟩
  obtain ⟨x, hx⟩ := hb v given hgiven
  cases hx.symm.trans hfailed

theorem AreNumbers.bind {b : Bindings} (hb : b.AreNumbers) (v : Variable) {value : Datum}
    (hvalue : ∃ x, value.toBinary64 = .ok x) : (b.bind v value).AreNumbers := by
  intro w given hgiven
  cases v <;> cases w
  · obtain rfl : value = given := Option.some.inj hgiven
    exact hvalue
  · exact hb .size given hgiven
  · exact hb .level given hgiven
  · obtain rfl : value = given := Option.some.inj hgiven
    exact hvalue

theorem empty_areNumbers : empty.AreNumbers := by
  intro v given hgiven
  cases v <;> cases hgiven

/-- Real numbers in any fields are bound as such. -/
theorem ofFields_areNumbers {fields : List (String × Datum)}
    (h : ∀ field ∈ fields, ∃ x, field.2 = .real x) : (ofFields fields).AreNumbers := by
  have hempty := empty_areNumbers
  unfold ofFields
  -- by induction on the fields, for any bindings that have been made before
  generalize empty = b at hempty ⊢
  induction fields generalizing b with
  | nil => exact hempty
  | cons field rest ih =>
    rw [List.foldl_cons]
    refine ih (fun field hfield => h field (List.mem_cons_of_mem _ hfield)) _ ?_
    obtain ⟨name, value⟩ := field
    obtain ⟨x, rfl⟩ : ∃ x, value = .real x := h (name, value) List.mem_cons_self
    cases hname : Variable.ofName? (String.ofList (Text.smalls name.toList)) with
    | none => exact hempty
    | some v => exact hempty.bind v ⟨x, rfl⟩

end Bindings

namespace Expr

variable {bindings : Bindings} {formula : String}

theorem values_length {args : List Expr} {xs : List Binary64}
    (h : values bindings formula args = .ok xs) : xs.length = args.length := by
  induction args generalizing xs with
  | nil =>
    rw [values] at h
    obtain rfl := Except.ok.inj h
    rfl
  | cons arg rest ih =>
    rw [values] at h
    obtain ⟨x, -, h⟩ := Outcome.bind_eq_ok_iff.1 h
    obtain ⟨others, hothers, h⟩ := Outcome.bind_eq_ok_iff.1 h
    obtain rfl := Except.ok.inj h
    rw [List.length_cons, List.length_cons, ih hothers]

theorem values_error {args : List Expr} {failure : Failure}
    (h : values bindings formula args = .error failure) :
    ∃ arg ∈ args, value bindings formula arg = .error failure := by
  induction args with
  | nil =>
    rw [values] at h
    cases h
  | cons arg rest ih =>
    rw [values] at h
    rcases Outcome.bind_eq_error_iff.1 h with harg | ⟨x, -, h⟩
    · exact ⟨arg, List.mem_cons_self, harg⟩
    · rcases Outcome.bind_eq_error_iff.1 h with hrest | ⟨others, -, h⟩
      · obtain ⟨arg', hmem, harg'⟩ := ih hrest
        exact ⟨arg', List.mem_cons_of_mem _ hmem, harg'⟩
      · cases h

theorem Lacks.mono {part tree : Expr} {failure : Failure}
    (hpart : ∀ v : Variable, part.Mentions v → tree.Mentions v)
    (h : part.Lacks bindings formula failure) : tree.Lacks bindings formula failure := by
  obtain ⟨v, hv, hnone, hfailure⟩ := h
  exact ⟨v, hpart v hv, hnone, hfailure⟩

/-- A tree of the right arity has a value, or is undefined, or nothing is given for one of its
variables, or what is given for a variable is no number. By induction on the tree. -/
theorem value_error {tree : Expr} (htree : tree.HasArity) {failure : Failure}
    (h : value bindings formula tree = .error failure) :
    IsUndefined formula failure ∨ tree.Lacks bindings formula failure ∨
      bindings.Fails failure := by
  induction htree generalizing failure with
  | number x =>
    rw [value] at h
    cases h
  | named v =>
    rw [value] at h
    split at h
    · next given hgiven => exact Or.inr (Or.inr ⟨v, given, hgiven, h⟩)
    · next hnone => exact Or.inr (Or.inl ⟨v, .named, hnone, (Except.error.inj h).symm⟩)
  | neg hoperand ih =>
    rw [value_neg] at h
    rcases Outcome.bind_eq_error_iff.1 h with hfailed | ⟨x, -, h⟩
    · exact (ih hfailed).imp_right (Or.imp_left (Lacks.mono fun v => .neg))
    · cases h
  | @binary op left right hleft hright ihleft ihright =>
    rw [value_binary] at h
    rcases Outcome.bind_eq_error_iff.1 h with hfailed | ⟨x, -, h⟩
    · exact (ihleft hfailed).imp_right (Or.imp_left (Lacks.mono fun v => .left op right))
    · rcases Outcome.bind_eq_error_iff.1 h with hfailed | ⟨y, -, happly⟩
      · exact (ihright hfailed).imp_right (Or.imp_left (Lacks.mono fun v => .right op left))
      · exact Or.inl (Operator.apply_error happly)
  | call f hcount hargs ih =>
    rw [value_call] at h
    rcases Outcome.bind_eq_error_iff.1 h with hfailed | ⟨xs, hxs, happly⟩
    · obtain ⟨arg, harg, hfailed⟩ := values_error hfailed
      exact (ih arg harg hfailed).imp_right (Or.imp_left (Lacks.mono fun v => .arg f harg))
    · exact Or.inl (Function.apply_error ((values_length hxs).trans hcount) happly)

end Expr

variable {bindings : Bindings}

theorem isFinite_of_evaluate {formula : Datum} {x : Binary64}
    (h : evaluate formula bindings = .ok x) : x.isFinite = true := by
  obtain ⟨tree, -, h⟩ := Outcome.bind_eq_ok_iff.1 h
  obtain ⟨y, -, h⟩ := Outcome.bind_eq_ok_iff.1 h
  split at h
  · next hfinite =>
    obtain rfl := Except.ok.inj h
    exact hfinite
  · cases h

/-- Whatever the bindings, a text has a value, or it is to blame, or it cannot be read, or what is
given for a variable is no number. -/
theorem evaluate_failure {formula : String} {failure : Failure}
    (h : evaluate (.text formula) bindings = .error failure) :
    failure.isFormula = true ∨ Expr.ofText formula = .error failure ∨ bindings.Fails failure := by
  rcases Outcome.bind_eq_error_iff.1 h with hread | ⟨tree, hread, h⟩
  · exact Or.inr (Or.inl hread)
  · rcases Outcome.bind_eq_error_iff.1 h with hvalue | ⟨x, -, h⟩
    · rcases Expr.value_error (Expr.hasArity_of_ofText hread) hvalue with
        hundefined | ⟨v, -, -, rfl⟩ | hfails
      · exact Or.inl hundefined.isFormula
      · exact Or.inl rfl
      · exact Or.inr (Or.inr hfails)
    · split at h
      · cases h
      · obtain rfl := Except.error.inj h
        exact Or.inl rfl

/-- A formula that is read has a value or is to blame for having none. -/
theorem evaluate_error (hbindings : bindings.AreNumbers) {formula : String} {failure : Failure}
    (h : evaluate (.text formula) bindings = .error failure) :
    failure.isFormula = true ∨ Expr.ofText formula = .error failure := by
  rcases evaluate_failure h with hformula | hread | hfails
  · exact Or.inl hformula
  · exact Or.inr hread
  · exact absurd hfails (hbindings.not_fails failure)

/-- The value of a text is finite. Where there is none, the formula is to blame, or the text has a
digit without a decimal value and a literal with it is refused. -/
theorem evaluate_cases (hbindings : bindings.AreNumbers) (formula : String) :
    (∃ x, evaluate (.text formula) bindings = .ok x ∧ x.isFinite = true) ∨
      ∃ failure, evaluate (.text formula) bindings = .error failure ∧
        (failure.isFormula = true ∨
          ¬Positional formula.toList ∧ ∃ literal, failure = .refused (.notDecimal literal)) := by
  cases hvalue : evaluate (.text formula) bindings with
  | ok x => exact Or.inl ⟨x, rfl, isFinite_of_evaluate hvalue⟩
  | error failure =>
    refine Or.inr ⟨failure, rfl, ?_⟩
    rcases evaluate_error hbindings hvalue with hformula | hread
    · exact Or.inl hformula
    · exact Expr.ofText_error hread

/-- Whatever the text and the numbers, a value is finite and a failure is the formula's, except for
a refused literal, which takes a digit without a decimal value in the text. Without such a digit
neither a preview nor a validation fails. -/
theorem evaluate_safe {fields : List (String × Datum)}
    (hfields : ∀ field ∈ fields, ∃ x, field.2 = .real x) (formula : String) :
    ((∃ x, evaluate (.text formula) (.ofFields fields) = .ok x ∧ x.isFinite = true) ∨
      ∃ failure, evaluate (.text formula) (.ofFields fields) = .error failure ∧
        (failure.isFormula = true ∨
          ¬Positional formula.toList ∧ ∃ literal, failure = .refused (.notDecimal literal))) ∧
    (Positional formula.toList →
      (∃ value, evaluate? (.text formula) (.ofFields fields) = .ok value ∧
        ∀ x ∈ value, x.isFinite = true) ∧
      ∃ complaint, complaint? (.text formula) = .ok complaint) := by
  have hcases := evaluate_cases (Bindings.ofFields_areNumbers hfields) formula
  refine ⟨hcases, ?_⟩
  intro hpositional
  constructor
  · unfold evaluate?
    rcases hcases with ⟨x, hx, hfinite⟩ | ⟨failure, hfailed, hblame⟩
    · rw [hx]
      exact ⟨some x, rfl, fun y hy => Option.some.inj hy ▸ hfinite⟩
    · have hformula : failure.isFormula = true :=
        hblame.resolve_right fun h => h.1 hpositional
      rw [hfailed]
      exact ⟨none, if_pos hformula, fun y hy => nomatch hy⟩
  · have hdatum : Expr.ofDatum (.text formula) = Expr.ofText formula := rfl
    unfold complaint?
    rw [hdatum]
    cases hread : Expr.ofText formula with
    | ok tree => exact ⟨none, rfl⟩
    | error failure =>
      have hformula : failure.isFormula = true :=
        (Expr.ofText_error hread).resolve_right fun h => h.1 hpositional
      cases failure with
      | formula error => exact ⟨some error.message, rfl⟩
      | _ => cases hformula

/-- A power that overflows, at a level and a size: its digits are all decimal. -/
theorem evaluate_safe_power :
    (∀ field ∈ ([("level", .real 2), ("size", .real 3)] : List (String × Datum)),
      ∃ x, field.2 = .real x) ∧ Positional "10^(x*999)".toList ∧
    ∃ value, evaluate? (.text "10^(x*999)") (.ofFields [("level", .real 2), ("size", .real 3)]) =
      .ok value ∧ ∀ x ∈ value, x.isFinite = true := by
  have hfields : ∀ field ∈ ([("level", .real 2), ("size", .real 3)] : List (String × Datum)),
      ∃ x, field.2 = .real x := by
    intro field hfield
    rcases List.mem_pair.1 hfield with rfl | rfl
    · exact ⟨2, rfl⟩
    · exact ⟨3, rfl⟩
  have hpositional : Positional "10^(x*999)".toList := by decide +kernel
  exact ⟨hfields, hpositional, ((evaluate_safe hfields _).2 hpositional).1⟩

/-- A superscript is a digit, but no decimal one, and its literal is refused by everything. -/
theorem superscript_refused :
    let refusal : Failure := .refused (.notDecimal "²")
    let bindings : Bindings := .ofFields [("level", .real 1), ("size", .real 0)]
    evaluate (.text "²") bindings = .error refusal ∧ evaluate? (.text "²") bindings = .error refusal ∧
      complaint? (.text "²") = .error refusal ∧ refusal.isFormula = false := by
  have hscan : Token.scan "²" = .ok [⟨.number "²", 0⟩, ⟨.finish, 1⟩] := by decide +kernel
  have hliteral : Numeral.binary64? "²" = none := by decide +kernel
  have hparse : Expr.ofTokens [⟨.number "²", 0⟩, ⟨.finish, 1⟩] = .error (.numeral "²") := by
    simp [Expr.ofTokens, Grammar.next, deepestNesting, Grammar.expression, Grammar.sum, Grammar.chain,
      Grammar.unary, Grammar.signed, Grammar.power, Grammar.primary, hliteral, bind, Except.bind]
  have hread : Expr.ofDatum (.text "²") = .error (.refused (.notDecimal "²")) := by
    unfold Expr.ofDatum Expr.ofText
    simp only [hscan, hparse]
    exact if_neg (by decide)
  have hvalue : ∀ bindings, evaluate (.text "²") bindings = .error (.refused (.notDecimal "²")) := by
    intro bindings
    unfold evaluate
    rw [hread]
    rfl
  refine ⟨hvalue _, ?_, ?_, rfl⟩
  · unfold evaluate?
    rw [hvalue]
    rfl
  · unfold complaint?
    rw [hread]

end ExperienceCurves.Formula
