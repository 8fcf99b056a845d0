import ExperienceCurves.Formula.Grammar

/-!
Derivations in the grammar of formulas, without any reading of tokens. A derivation has the
lexemes it spells, the tree it stands for and the number of levels it nests. Lexemes have one
derivation at most, since what can start a part of a formula cannot follow the part before it.
-/

namespace ExperienceCurves.Formula

theorem Function.arity_pos (f : Function) : 0 < f.arity := by
  cases f <;> decide

/-- How tightly an operator binds its operands. -/
def Operator.strength : Operator → Nat
  | plus | minus => 0
  | times | dividedBy => 1
  | power => 2

/-- Sums and products are both chains of operands, of terms the ones and of signed powers the
others. -/
inductive Rank
  | additive
  | multiplicative

namespace Rank

def strength : Rank → Nat
  | additive => 0
  | multiplicative => 1

def joins : Rank → Operator → Bool
  | additive => Grammar.isAdditive
  | multiplicative => Grammar.isMultiplicative

theorem joins_iff (r : Rank) (op : Operator) : r.joins op = true ↔ op.strength = r.strength := by
  cases r <;> cases op <;> decide

end Rank

/-- The parts of formulas: a `tail` is what follows the first operand of a chain, and `others` are
the arguments after the first one with the closing parenthesis. -/
inductive Category
  | chain (r : Rank)
  | tail (r : Rank)
  | operand (r : Rank)
  | unary
  | power
  | primary
  | others

namespace Category

abbrev expression : Category := chain .additive

abbrev term : Category := chain .multiplicative

/-- What a part stands for. A tail continues the tree on its left. -/
abbrev Tree : Category → Type
  | tail _ => Expr → Expr
  | others => List Expr
  | _ => Expr

end Category

/-- Derivations of the parts of formulas. `Bare` says whether calls without arguments are among the
formulas; the grammar that is read has none. -/
inductive Derivation (Bare : Prop) : Category → Type
  | chain (head : Derivation Bare (.operand r)) (tail : Derivation Bare (.tail r)) :
      Derivation Bare (.chain r)
  | stop : Derivation Bare (.tail r)
  | more (op : Operator) (hop : op.strength = r.strength) (right : Derivation Bare (.operand r))
      (tail : Derivation Bare (.tail r)) : Derivation Bare (.tail r)
  | term (operand : Derivation Bare .term) : Derivation Bare (.operand .additive)
  | factor (operand : Derivation Bare .unary) : Derivation Bare (.operand .multiplicative)
  | minus (operand : Derivation Bare .unary) : Derivation Bare .unary
  | unsigned (power : Derivation Bare .power) : Derivation Bare .unary
  | plain (base : Derivation Bare .primary) : Derivation Bare .power
  | raised (base : Derivation Bare .primary) (exponent : Derivation Bare .unary) :
      Derivation Bare .power
  | number (literal : String) (x : Binary64) (hx : Numeral.binary64? literal = some x) :
      Derivation Bare .primary
  | named (v : Variable) : Derivation Bare .primary
  | enclosed (inner : Derivation Bare .expression) : Derivation Bare .primary
  | bare (hbare : Bare) (f : Function) : Derivation Bare .primary
  | call (f : Function) (first : Derivation Bare .expression) (others : Derivation Bare .others) :
      Derivation Bare .primary
  | close : Derivation Bare .others
  | another (arg : Derivation Bare .expression) (others : Derivation Bare .others) :
      Derivation Bare .others

namespace Derivation

variable {Bare : Prop}

/-- The lexemes that a derivation spells, from left to right. -/
def lexemes {s : Category} : Derivation Bare s → List Lexeme
  | chain head tail => head.lexemes ++ tail.lexemes
  | stop => []
  | more op _ right tail => .operator op :: (right.lexemes ++ tail.lexemes)
  | term operand => operand.lexemes
  | factor operand => operand.lexemes
  | minus operand => .operator .minus :: operand.lexemes
  | unsigned power => power.lexemes
  | plain base => base.lexemes
  | raised base exponent => base.lexemes ++ .operator .power :: exponent.lexemes
  | number literal _ _ => [.number literal]
  | named v => [.named v]
  | enclosed inner => .opening :: (inner.lexemes ++ [.closing])
  | bare _ f => [.function f, .opening, .closing]
  | call f first others => .function f :: .opening :: (first.lexemes ++ others.lexemes)
  | close => [.closing]
  | another arg others => .comma :: (arg.lexemes ++ others.lexemes)

/-- The operators of a chain group to the left, those of powers to the right. -/
def tree {s : Category} : Derivation Bare s → s.Tree
  | chain head tail => tail.tree head.tree
  | stop => fun left => left
  | more op _ right tail => fun left => tail.tree (.binary op left right.tree)
  | term operand => operand.tree
  | factor operand => operand.tree
  | minus operand => .neg operand.tree
  | unsigned power => power.tree
  | plain base => base.tree
  | raised base exponent => .binary .power base.tree exponent.tree
  | number _ x _ => .number x
  | named v => .named v
  | enclosed inner => inner.tree
  | bare _ f => .call f []
  | call f first others => .call f (first.tree :: others.tree)
  | close => []
  | another arg others => arg.tree :: others.tree

/-- How many operands of signs, exponents, arguments and expressions in parentheses enclose a
point of the derivation, at most. -/
def nesting {s : Category} : Derivation Bare s → Nat
  | chain head tail => max head.nesting tail.nesting
  | stop => 0
  | more _ _ right tail => max right.nesting tail.nesting
  | term operand => operand.nesting
  | factor operand => operand.nesting
  | minus operand => operand.nesting + 1
  | unsigned power => power.nesting
  | plain base => base.nesting
  | raised base exponent => max base.nesting (exponent.nesting + 1)
  | number _ _ _ => 0
  | named _ => 0
  | enclosed inner => inner.nesting + 1
  | bare _ _ => 0
  | call _ first others => max (first.nesting + 1) others.nesting
  | close => 0
  | another arg others => max (arg.nesting + 1) others.nesting

/-- The whole formula counts as a level of its own. -/
def depth (d : Derivation Bare .expression) : Nat := d.nesting + 1

/-- Every call has as many arguments as its function takes. -/
def HasArity {s : Category} : Derivation Bare s → Prop
  | chain head tail => head.HasArity ∧ tail.HasArity
  | stop => True
  | more _ _ right tail => right.HasArity ∧ tail.HasArity
  | term operand => operand.HasArity
  | factor operand => operand.HasArity
  | minus operand => operand.HasArity
  | unsigned power => power.HasArity
  | plain base => base.HasArity
  | raised base exponent => base.HasArity ∧ exponent.HasArity
  | number _ _ _ => True
  | named _ => True
  | enclosed inner => inner.HasArity
  | bare _ f => f.arity = 0
  | call f first others =>
      f.arity = others.tree.length + 1 ∧ first.HasArity ∧ others.HasArity
  | close => True
  | another arg others => arg.HasArity ∧ others.HasArity

/-- The derivation nests fewer levels than the budget has, and its calls are of the right arity. -/
def Fits {s : Category} (d : Derivation Bare s) (budget : Nat) : Prop :=
  d.nesting < budget ∧ d.HasArity

-- the equations of the recursions are made here once, before the lemmas that share them
attribute [local simp] lexemes nesting HasArity

theorem fits_chain_iff {r : Rank} {head : Derivation Bare (.operand r)}
    {tail : Derivation Bare (.tail r)} {budget : Nat} :
    (chain head tail).Fits budget ↔ head.Fits budget ∧ tail.Fits budget := by
  simp only [Fits, nesting, HasArity, Nat.max_lt]
  exact and_and_and_comm

theorem fits_more_iff {r : Rank} {op : Operator} {hop : op.strength = r.strength}
    {right : Derivation Bare (.operand r)} {tail : Derivation Bare (.tail r)} {budget : Nat} :
    (more op hop right tail).Fits budget ↔ right.Fits budget ∧ tail.Fits budget := by
  simp only [Fits, nesting, HasArity, Nat.max_lt]
  exact and_and_and_comm

theorem fits_minus_iff {operand : Derivation Bare .unary} {budget : Nat} :
    (minus operand).Fits (budget + 1) ↔ operand.Fits budget := by
  simp only [Fits, nesting, HasArity, Nat.add_lt_add_iff_right]

theorem fits_raised_iff {base : Derivation Bare .primary} {exponent : Derivation Bare .unary}
    {budget : Nat} :
    (raised base exponent).Fits (budget + 1) ↔ base.Fits (budget + 1) ∧ exponent.Fits budget := by
  simp only [Fits, nesting, HasArity, Nat.max_lt, Nat.add_lt_add_iff_right]
  exact and_and_and_comm

theorem fits_enclosed_iff {inner : Derivation Bare .expression} {budget : Nat} :
    (enclosed inner).Fits (budget + 1) ↔ inner.Fits budget := by
  simp only [Fits, nesting, HasArity, Nat.add_lt_add_iff_right]

theorem fits_call_iff {f : Function} {first : Derivation Bare .expression}
    {others : Derivation Bare .others} {budget : Nat} :
    (call f first others).Fits (budget + 1) ↔
      f.arity = others.tree.length + 1 ∧ first.Fits budget ∧ others.Fits (budget + 1) := by
  simp only [Fits, nesting, HasArity, Nat.max_lt, Nat.add_lt_add_iff_right]
  rw [and_left_comm, and_and_and_comm]

theorem fits_another_iff {arg : Derivation Bare .expression} {others : Derivation Bare .others}
    {budget : Nat} :
    (another arg others).Fits (budget + 1) ↔ arg.Fits budget ∧ others.Fits (budget + 1) := by
  simp only [Fits, nesting, HasArity, Nat.max_lt, Nat.add_lt_add_iff_right]
  exact and_and_and_comm

end Derivation

/-- What the lexemes of a part can start with. -/
def Category.Starts : Category → List Lexeme → Prop
  | tail r, lexemes =>
      ∀ lexeme, lexemes.head? = some lexeme → ∃ op, lexeme = .operator op ∧ op.strength = r.strength
  | others, lexemes => lexemes.head? = some .closing ∨ lexemes.head? = some .comma
  | power, lexemes | primary, lexemes =>
      ∃ lexeme, lexemes.head? = some lexeme ∧ lexeme ≠ .closing ∧ ∀ op, lexeme ≠ .operator op
  | _, lexemes => ∃ lexeme, lexemes.head? = some lexeme ∧ lexeme ≠ .closing

/-- The lexemes do not go on with an operator that binds at least this tightly. -/
def Looser (strength : Nat) (lexemes : List Lexeme) : Prop :=
  ∀ op, lexemes.head? = some (.operator op) → op.strength < strength

/-- What a part may be followed by. A primary ends by itself, other parts where no operator of
their own comes next. -/
def Category.Ends : Category → List Lexeme → Prop
  | chain r, rest | tail r, rest => Looser r.strength rest
  | operand r, rest => Looser (r.strength + 1) rest
  | unary, rest | power, rest => Looser 2 rest
  | primary, _ | others, _ => True

theorem looser_closing (n : Nat) (rest : List Lexeme) : Looser n (.closing :: rest) := by
  intro op hop
  simp at hop

namespace Derivation

variable {Bare : Prop}

theorem starts {s : Category} (d : Derivation Bare s) : s.Starts d.lexemes := by
  induction d with
  | chain head tail ihhead ihtail =>
    obtain ⟨lexeme, hhead, hclosing⟩ := ihhead
    exact ⟨lexeme, by simp [lexemes, hhead], hclosing⟩
  | stop => simp [Category.Starts, lexemes]
  | more op hop right tail ihright ihtail =>
    intro lexeme hlexeme
    exact ⟨op, by simpa [lexemes] using hlexeme.symm, hop⟩
  | term operand ih => exact ih
  | factor operand ih => exact ih
  | minus operand ih => exact ⟨_, rfl, by simp⟩
  | unsigned power ih =>
    obtain ⟨lexeme, hpower, hclosing, -⟩ := ih
    exact ⟨lexeme, hpower, hclosing⟩
  | plain base ih => exact ih
  | raised base exponent ihbase ihexponent =>
    obtain ⟨lexeme, hbase, hlexeme⟩ := ihbase
    exact ⟨lexeme, by simp [lexemes, hbase], hlexeme⟩
  | number literal x hx => exact ⟨_, rfl, by simp⟩
  | named v => exact ⟨_, rfl, by simp⟩
  | enclosed inner ih => exact ⟨_, rfl, by simp⟩
  | bare hbare f => exact ⟨_, rfl, by simp⟩
  | call f first others ihfirst ihothers => exact ⟨_, rfl, by simp⟩
  | close => exact Or.inl rfl
  | another arg others iharg ihothers => exact Or.inr rfl

theorem finish_notMem_lexemes {s : Category} (d : Derivation Bare s) : .finish ∉ d.lexemes := by
  induction d <;> simp_all [lexemes]

/-- What follows an operand of a chain is a tail, and no operator of its own starts one. -/
theorem operand_ends {r : Rank} (tail : Derivation Bare (.tail r)) {rest : List Lexeme}
    (h : (Category.tail r).Ends rest) : (Category.operand r).Ends (tail.lexemes ++ rest) := by
  intro op hop
  cases hhead : tail.lexemes.head? with
  | none =>
    rw [List.head?_append, hhead] at hop
    exact Nat.lt_succ_of_lt (h op hop)
  | some lexeme =>
    obtain ⟨op', rfl, hstrength⟩ := tail.starts lexeme hhead
    obtain rfl : op' = op := by simpa [hhead] using hop
    omega

/-- What follows an argument is a comma or the closing parenthesis. -/
theorem expression_ends (others : Derivation Bare .others) (rest : List Lexeme) :
    Category.expression.Ends (others.lexemes ++ rest) := by
  intro op hop
  rcases others.starts with h | h <;> simp [h] at hop

theorem head?_ne_closing (d : Derivation Bare .expression) (rest : List Lexeme) :
    (d.lexemes ++ rest).head? ≠ some .closing := by
  obtain ⟨lexeme, hhead, hclosing⟩ := d.starts
  simpa [hhead] using hclosing

theorem head?_ne_operator (d : Derivation Bare .power) (rest : List Lexeme) (op : Operator) :
    (d.lexemes ++ rest).head? ≠ some (.operator op) := by
  obtain ⟨lexeme, hhead, -, hoperator⟩ := d.starts
  simpa [hhead] using hoperator op

/-- Two derivations of the same kind that spell the same lexemes up to something that may follow
are the same. -/
theorem eq_of_lexemes_append {s : Category} (d₁ d₂ : Derivation Bare s) {rest₁ rest₂ : List Lexeme}
    (h₁ : s.Ends rest₁) (h₂ : s.Ends rest₂) (h : d₁.lexemes ++ rest₁ = d₂.lexemes ++ rest₂) :
    d₁ = d₂ ∧ rest₁ = rest₂ := by
  -- the parts of a derivation agree from left to right, since each may be followed by the next
  induction d₁ generalizing rest₁ rest₂ with
  | chain head tail ihhead ihtail =>
    cases d₂ with
    | chain head' tail' =>
      simp only [lexemes, List.append_assoc] at h
      obtain ⟨rfl, htail⟩ := ihhead head' (tail.operand_ends h₁) (tail'.operand_ends h₂) h
      obtain ⟨rfl, hrest⟩ := ihtail tail' h₁ h₂ htail
      exact ⟨rfl, hrest⟩
  | stop =>
    cases d₂ with
    | stop => exact ⟨rfl, h⟩
    | more op hop right tail =>
      have := h₁ op (by simp only [lexemes, List.nil_append] at h; simp [h])
      omega
  | more op hop right tail ihright ihtail =>
    cases d₂ with
    | stop =>
      have := h₂ op (by simp only [lexemes, List.nil_append] at h; simp [← h])
      omega
    | more op' hop' right' tail' =>
      simp only [lexemes, List.cons_append, List.append_assoc, List.cons.injEq,
        Lexeme.operator.injEq] at h
      obtain ⟨rfl, h⟩ := h
      obtain ⟨rfl, htail⟩ := ihright right' (tail.operand_ends h₁) (tail'.operand_ends h₂) h
      obtain ⟨rfl, hrest⟩ := ihtail tail' h₁ h₂ htail
      exact ⟨rfl, hrest⟩
  | term operand ih =>
    cases d₂ with
    | term operand' =>
      obtain ⟨rfl, hrest⟩ := ih operand' h₁ h₂ h
      exact ⟨rfl, hrest⟩
  | factor operand ih =>
    cases d₂ with
    | factor operand' =>
      obtain ⟨rfl, hrest⟩ := ih operand' h₁ h₂ h
      exact ⟨rfl, hrest⟩
  | minus operand ih =>
    cases d₂ with
    | minus operand' =>
      obtain ⟨rfl, hrest⟩ := ih operand' h₁ h₂ (List.cons.inj h).2
      exact ⟨rfl, hrest⟩
    | unsigned power =>
      refine absurd ?_ (power.head?_ne_operator rest₂ .minus)
      exact h ▸ rfl
  | unsigned power ih =>
    cases d₂ with
    | minus operand =>
      refine absurd ?_ (power.head?_ne_operator rest₁ .minus)
      exact h.symm ▸ rfl
    | unsigned power' =>
      obtain ⟨rfl, hrest⟩ := ih power' h₁ h₂ h
      exact ⟨rfl, hrest⟩
  | plain base ih =>
    cases d₂ with
    | plain base' =>
      obtain ⟨rfl, hrest⟩ := ih base' trivial trivial h
      exact ⟨rfl, hrest⟩
    | raised base' exponent =>
      simp only [lexemes, List.append_assoc] at h
      obtain ⟨-, rfl⟩ := ih base' trivial trivial h
      exact absurd (h₁ .power rfl) (by decide)
  | raised base exponent ihbase ihexponent =>
    cases d₂ with
    | plain base' =>
      simp only [lexemes, List.append_assoc] at h
      obtain ⟨-, rfl⟩ := ihbase base' trivial trivial h
      exact absurd (h₂ .power rfl) (by decide)
    | raised base' exponent' =>
      simp only [lexemes, List.append_assoc] at h
      obtain ⟨rfl, hraised⟩ := ihbase base' trivial trivial h
      obtain ⟨rfl, hrest⟩ := ihexponent exponent' h₁ h₂ (List.cons.inj hraised).2
      exact ⟨rfl, hrest⟩
  | number literal x hx =>
    cases d₂ with
    | number literal' x' hx' =>
      obtain ⟨hliteral, hrest⟩ := List.cons.inj h
      obtain rfl := Lexeme.number.inj hliteral
      obtain rfl : x = x' := Option.some.inj (hx.symm.trans hx')
      exact ⟨rfl, hrest⟩
    | _ => simp [lexemes] at h
  | named v =>
    cases d₂ with
    | named v' =>
      obtain ⟨hv, hrest⟩ := List.cons.inj h
      obtain rfl := Lexeme.named.inj hv
      exact ⟨rfl, hrest⟩
    | _ => simp [lexemes] at h
  | enclosed inner ih =>
    cases d₂ with
    | enclosed inner' =>
      simp only [lexemes, List.cons_append, List.append_assoc] at h
      obtain ⟨rfl, hclosing⟩ := ih inner' (looser_closing 0 rest₁) (looser_closing 0 rest₂)
        (List.cons.inj h).2
      exact ⟨rfl, (List.cons.inj hclosing).2⟩
    | _ => simp [lexemes] at h
  | bare hbare f =>
    cases d₂ with
    | bare hbare' f' =>
      simp only [lexemes, List.cons_append, List.nil_append, List.cons.injEq,
        Lexeme.function.injEq, true_and] at h
      obtain ⟨rfl, hrest⟩ := h
      exact ⟨rfl, hrest⟩
    | call f' first others =>
      simp only [lexemes, List.cons_append, List.append_assoc, List.cons.injEq, true_and] at h
      exact absurd (h.2 ▸ rfl) (first.head?_ne_closing (others.lexemes ++ rest₂))
    | _ => simp [lexemes] at h
  | call f first others ihfirst ihothers =>
    cases d₂ with
    | bare hbare f' =>
      simp only [lexemes, List.cons_append, List.append_assoc, List.cons.injEq, true_and] at h
      exact absurd (h.2 ▸ rfl) (first.head?_ne_closing (others.lexemes ++ rest₁))
    | call f' first' others' =>
      simp only [lexemes, List.cons_append, List.append_assoc, List.cons.injEq,
        Lexeme.function.injEq, true_and] at h
      obtain ⟨rfl, h⟩ := h
      obtain ⟨rfl, hothers⟩ := ihfirst first' (others.expression_ends rest₁)
        (others'.expression_ends rest₂) h
      obtain ⟨rfl, hrest⟩ := ihothers others' trivial trivial hothers
      exact ⟨rfl, hrest⟩
    | _ => simp [lexemes] at h
  | close =>
    cases d₂ with
    | close => exact ⟨rfl, (List.cons.inj h).2⟩
    | another arg others => simp [lexemes] at h
  | another arg others iharg ihothers =>
    cases d₂ with
    | close => simp [lexemes] at h
    | another arg' others' =>
      simp only [lexemes, List.cons_append, List.append_assoc] at h
      obtain ⟨rfl, hothers⟩ := iharg arg' (others.expression_ends rest₁)
        (others'.expression_ends rest₂) (List.cons.inj h).2
      obtain ⟨rfl, hrest⟩ := ihothers others' trivial trivial hothers
      exact ⟨rfl, hrest⟩

/-- Lexemes form a formula in one way at most. -/
theorem eq_of_lexemes_eq {d₁ d₂ : Derivation Bare .expression} (h : d₁.lexemes = d₂.lexemes) :
    d₁ = d₂ := by
  have hends : Category.expression.Ends [] := by
    intro op hop
    simp at hop
  exact (d₁.eq_of_lexemes_append d₂ hends hends (by rw [h])).1

end Derivation

end ExperienceCurves.Formula
