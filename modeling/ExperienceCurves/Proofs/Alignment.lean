import ExperienceCurves.Proofs.Reading

/-!
The readers of the grammar on two lists of tokens with the same lexemes at different positions. They
give the same tree, leave rests with the same lexemes, and blame tokens that stand at the same place
in both lists. This is proved for one reader after the other, in terms of any relation that holds
between the positions of each two tokens.
-/
namespace ExperienceCurves.Formula

/-- Results that are of one kind: values in one relation or errors in another. -/
inductive Agrees {ε α : Type} (E : ε → ε → Prop) (S : α → α → Prop) :
    Except ε α → Except ε α → Prop
  | ok {a a' : α} (h : S a a') : Agrees E S (.ok a) (.ok a')
  | error {e e' : ε} (h : E e e') : Agrees E S (.error e) (.error e')

theorem Agrees.bind {ε α β : Type} {E : ε → ε → Prop} {S : α → α → Prop} {T : β → β → Prop}
    {x x' : Except ε α} {f f' : α → Except ε β} (h : Agrees E S x x')
    (hf : ∀ a a', S a a' → Agrees E T (f a) (f' a')) : Agrees E T (x >>= f) (x' >>= f') := by
  cases h with
  | ok h => exact hf _ _ h
  | error h => exact .error h

theorem Agrees.mono_error {ε α : Type} {E E' : ε → ε → Prop} {S : α → α → Prop} {x x' : Except ε α}
    (h : Agrees E S x x') (hE : ∀ e e', E e e' → E' e e') : Agrees E' S x x' := by
  cases h with
  | ok h => exact .ok h
  | error h => exact .error (hE _ _ h)

/-- A relation of positions. -/
abbrev Places := Nat → Nat → Prop

/-- The same lexemes at positions that are related, with the end of the text after them. -/
inductive Aligned (R : Places) : List Token → List Token → Prop
  | finish {position position' : Nat} (hR : R position position') :
      Aligned R [⟨.finish, position⟩] [⟨.finish, position'⟩]
  | cons {lexeme : Lexeme} {position position' : Nat} {others others' : List Token}
      (hlexeme : lexeme ≠ .finish) (hR : R position position') (h : Aligned R others others') :
      Aligned R (⟨lexeme, position⟩ :: others) (⟨lexeme, position'⟩ :: others')

/-- The positions of tokens that stand at the same place of both lists. -/
def Opposite (tokens tokens' : List Token) : Places := fun position position' =>
  ∃ t t', (t, t') ∈ tokens.zip tokens' ∧ t.position = position ∧ t'.position = position'

/-- The same mistake at related positions, or the same literal. -/
inductive Rejection.Alike (R : Places) : Rejection → Rejection → Prop
  | mistake (mistake : Mistake) {position position' : Nat} (hR : R position position') :
      Alike R (.mistake ⟨mistake, position⟩) (.mistake ⟨mistake, position'⟩)
  | numeral (literal : String) : Alike R (.numeral literal) (.numeral literal)

namespace Aligned

variable {R : Places} {tokens tokens' : List Token}

theorem length_eq (h : Aligned R tokens tokens') : tokens.length = tokens'.length := by
  induction h with
  | finish => rfl
  | cons hlexeme hR h ih => rw [List.length_cons, List.length_cons, ih]

theorem next_lexeme (h : Aligned R tokens tokens') :
    (Grammar.next tokens).lexeme = (Grammar.next tokens').lexeme := by
  cases h <;> rfl

theorem next_position (h : Aligned R tokens tokens') :
    R (Grammar.next tokens).position (Grammar.next tokens').position := by
  cases h with
  | finish hR => exact hR
  | cons hlexeme hR h => exact hR

/-- What begins with a lexeme other than the end of the text goes on with aligned tokens. -/
theorem of_begins (h : Aligned R tokens tokens') {lexeme : Lexeme} (hlexeme : lexeme ≠ .finish)
    (hbegins : Begins lexeme tokens) : ∃ position position' others others',
      tokens = ⟨lexeme, position⟩ :: others ∧ tokens' = ⟨lexeme, position'⟩ :: others' ∧
      R position position' ∧ Aligned R others others' := by
  obtain ⟨position, others, rfl⟩ := hbegins
  cases h with
  | finish => exact absurd rfl hlexeme
  | cons _ hR h => exact ⟨_, _, _, _, rfl, rfl, hR, h⟩

theorem begins_iff (h : Aligned R tokens tokens') (lexeme : Lexeme) :
    Begins lexeme tokens ↔ Begins lexeme tokens' := by
  cases h <;> simp [Begins]

theorem mono {R' : Places} (hR : ∀ position position', R position position' → R' position position')
    (h : Aligned R tokens tokens') : Aligned R' tokens tokens' := by
  induction h with
  | finish h => exact .finish (hR _ _ h)
  | cons hlexeme h _ ih => exact .cons hlexeme (hR _ _ h) ih

theorem map_lexeme (h : Aligned R tokens tokens') :
    tokens.map Token.lexeme = tokens'.map Token.lexeme := by
  induction h with
  | finish => rfl
  | cons hlexeme hR h ih => rw [List.map_cons, List.map_cons, ih]

/-- Aligned tokens are aligned by the places they have in their lists. -/
theorem opposite (h : Aligned R tokens tokens') :
    Aligned (Opposite tokens tokens') tokens tokens' := by
  induction h with
  | finish => exact .finish ⟨_, _, List.mem_cons_self, rfl, rfl⟩
  | cons hlexeme hR h ih =>
    refine .cons hlexeme ⟨_, _, List.mem_cons_self, rfl, rfl⟩ (ih.mono ?_)
    rintro position position' ⟨t, t', hmem, ht, ht'⟩
    exact ⟨t, t', List.mem_cons_of_mem _ hmem, ht, ht'⟩

end Aligned

namespace Grammar

variable {R : Places} {tokens tokens' : List Token}

/-- What a reader gives is the same, and what it leaves is aligned. -/
def SameReading {α : Type} (R : Places) (read read' : α × List Token) : Prop :=
  read.1 = read'.1 ∧ Aligned R read.2 read'.2

/-- A reader that goes by lexemes alone, so that related positions only lead to related
positions. -/
def Steady {α : Type} (R : Places) (reader : Reader α) : Prop :=
  ∀ {tokens tokens'}, Aligned R tokens tokens' →
    Agrees (Rejection.Alike R) (SameReading R) (reader tokens) (reader tokens')

theorem agrees_refuse {α : Type} {S : α → α → Prop} (h : Aligned R tokens tokens')
    (mistake : Mistake) :
    Agrees (Rejection.Alike R) S (refuse mistake tokens) (refuse mistake tokens') :=
  .error (.mistake mistake h.next_position)

theorem steady_tooDeep {α : Type} : Steady R (α := α) tooDeep := fun h => agrees_refuse h .tooDeep

theorem agrees_expect (h : Aligned R tokens tokens') (what : Expectation) :
    Agrees (Rejection.Alike R) (Aligned R) (expect what tokens) (expect what tokens') := by
  have hwhat : expectedLexeme what ≠ .finish := by
    cases what <;> simp [expectedLexeme]
  unfold expect
  rw [← h.next_lexeme]
  by_cases hnext : (next tokens).lexeme = expectedLexeme what
  · rw [if_pos hnext, if_pos hnext]
    cases h with
    | finish => exact absurd hnext.symm hwhat
    | cons hlexeme hR h => exact .ok h
  · rw [if_neg hnext, if_neg hnext]
    exact agrees_refuse h _

variable {r : Rank} {operand : Reader Expr}

theorem agrees_chainFrom (hoperand : Steady R operand) (rounds : Nat) (left : Expr)
    (h : Aligned R tokens tokens') :
    Agrees (Rejection.Alike R) (SameReading R) (chainFrom operand r.joins rounds left tokens)
      (chainFrom operand r.joins rounds left tokens') := by
  induction rounds generalizing left tokens tokens' with
  | zero => exact .ok ⟨rfl, h⟩
  | succ rounds ih =>
    by_cases hjoined : Joined r tokens
    · obtain ⟨op, hop, hbegins⟩ := hjoined
      obtain ⟨_, _, _, _, rfl, rfl, -, h⟩ := h.of_begins (by simp) hbegins
      rw [chainFrom_of_joins hop, chainFrom_of_joins hop]
      refine (hoperand h).bind ?_
      rintro ⟨right, rest⟩ ⟨_, rest'⟩ ⟨rfl, hrest⟩
      exact ih _ hrest
    · have hjoined' : ¬Joined r tokens' := by
        rintro ⟨op, hop, hbegins⟩
        exact hjoined ⟨op, hop, (h.begins_iff _).2 hbegins⟩
      rw [chainFrom_of_not_joined hjoined, chainFrom_of_not_joined hjoined']
      exact .ok ⟨rfl, h⟩

theorem steady_chain (hoperand : Steady R operand) : Steady R (chain operand r.joins) := by
  intro tokens tokens' h
  refine (hoperand h).bind ?_
  rintro ⟨left, rest⟩ ⟨_, rest'⟩ ⟨rfl, hrest⟩
  dsimp only at hrest ⊢
  rw [← hrest.length_eq]
  exact agrees_chainFrom hoperand rest.length left hrest

theorem steady_sum (hoperand : Steady R operand) : Steady R (sum operand) :=
  steady_chain (r := .additive) (steady_chain (r := .multiplicative) hoperand)

variable {expression : Reader Expr}

theorem agrees_argumentsFrom (hexpression : Steady R expression) (rounds : Nat) (args : List Expr)
    (h : Aligned R tokens tokens') :
    Agrees (Rejection.Alike R) (SameReading R) (argumentsFrom expression rounds args tokens)
      (argumentsFrom expression rounds args tokens') := by
  induction rounds generalizing args tokens tokens' with
  | zero => exact .ok ⟨rfl, h⟩
  | succ rounds ih =>
    by_cases hcomma : Begins .comma tokens
    · obtain ⟨_, _, _, _, rfl, rfl, -, h⟩ := h.of_begins (by simp) hcomma
      rw [argumentsFrom_of_comma, argumentsFrom_of_comma]
      refine (hexpression h).bind ?_
      rintro ⟨arg, rest⟩ ⟨_, rest'⟩ ⟨rfl, hrest⟩
      exact ih _ hrest
    · rw [argumentsFrom_of_ne_comma hcomma,
        argumentsFrom_of_ne_comma fun hcomma' => hcomma ((h.begins_iff _).2 hcomma')]
      exact .ok ⟨rfl, h⟩

theorem steady_arguments (hexpression : Steady R expression) : Steady R (arguments expression) := by
  intro tokens tokens' h
  by_cases hclosing : Begins .closing tokens
  · have haligned := h
    obtain ⟨_, _, _, _, rfl, rfl, -, -⟩ := h.of_begins (by simp) hclosing
    exact .ok ⟨rfl, haligned⟩
  · rw [arguments_of_ne_closing hclosing,
      arguments_of_ne_closing fun hclosing' => hclosing ((h.begins_iff _).2 hclosing')]
    refine (hexpression h).bind ?_
    rintro ⟨arg, rest⟩ ⟨_, rest'⟩ ⟨rfl, hrest⟩
    dsimp only at hrest ⊢
    rw [← hrest.length_eq]
    exact agrees_argumentsFrom hexpression rest.length [arg] hrest

theorem agrees_call (hexpression : Steady R expression) (f : Function) {position position' : Nat}
    (hR : R position position') (h : Aligned R tokens tokens') :
    Agrees (Rejection.Alike R) (SameReading R) (call expression f position tokens)
      (call expression f position' tokens') := by
  refine (agrees_expect h _).bind fun inside inside' hinside => ?_
  refine (steady_arguments hexpression hinside).bind ?_
  rintro ⟨args, middle⟩ ⟨_, middle'⟩ ⟨rfl, hmiddle⟩
  refine (agrees_expect hmiddle _).bind fun rest rest' hrest => ?_
  by_cases harity : args.length = f.arity
  · rw [if_pos harity, if_pos harity]
    exact .ok ⟨rfl, hrest⟩
  · rw [if_neg harity, if_neg harity]
    exact .error (.mistake _ hR)

theorem steady_primary (hexpression : Steady R expression) : Steady R (primary expression) := by
  intro tokens tokens' h
  have haligned := h
  cases h with
  | finish hR => exact agrees_refuse haligned .unfinished
  | @cons lexeme position position' others others' hlexeme hR h =>
    cases lexeme with
    | number literal =>
      cases hx : Numeral.binary64? literal with
      | none =>
        simp only [primary, hx]
        exact .error (.numeral literal)
      | some x =>
        simp only [primary, hx]
        exact .ok ⟨rfl, h⟩
    | named v => exact .ok ⟨rfl, h⟩
    | function f => exact agrees_call hexpression f hR h
    | opening =>
      rw [enclosed_eq_bind, enclosed_eq_bind]
      refine (hexpression h).bind ?_
      rintro ⟨inner, rest⟩ ⟨_, rest'⟩ ⟨rfl, hrest⟩
      exact (agrees_expect hrest _).bind fun after after' hafter => .ok ⟨rfl, hafter⟩
    | operator op => exact agrees_refuse haligned _
    | closing => exact agrees_refuse haligned _
    | comma => exact agrees_refuse haligned _
    | finish => exact absurd rfl hlexeme

variable {nested : Reader Expr}

theorem steady_power (hnested : Steady R nested) (hexpression : Steady R expression) :
    Steady R (power nested expression) := by
  intro tokens tokens' h
  have hprimary := steady_primary hexpression h
  generalize hread : primary expression tokens = result at hprimary
  generalize hread' : primary expression tokens' = result' at hprimary
  cases hprimary with
  | error hrejection =>
    rw [power, power, hread, hread']
    exact .error hrejection
  | @ok read read' hsame =>
    obtain ⟨base, rest⟩ := read
    obtain ⟨_, rest'⟩ := read'
    obtain ⟨rfl, hrest⟩ := hsame
    dsimp only at hrest
    by_cases hpower : Begins (.operator .power) rest
    · obtain ⟨_, _, _, _, rfl, rfl, -, hothers⟩ := hrest.of_begins (by simp) hpower
      rw [power_of_raised hread, power_of_raised hread']
      refine (hnested hothers).bind ?_
      rintro ⟨raised, after⟩ ⟨_, after'⟩ ⟨rfl, hafter⟩
      exact .ok ⟨rfl, hafter⟩
    · rw [power_of_plain hread hpower,
        power_of_plain hread' fun hpower' => hpower ((hrest.begins_iff _).2 hpower')]
      exact .ok ⟨rfl, hrest⟩

theorem steady_signed (hnested : Steady R nested) (hexpression : Steady R expression) :
    Steady R (signed nested expression) := by
  intro tokens tokens' h
  by_cases hminus : Begins (.operator .minus) tokens
  · obtain ⟨_, _, _, _, rfl, rfl, -, h⟩ := h.of_begins (by simp) hminus
    rw [signed_of_minus, signed_of_minus]
    refine (hnested h).bind ?_
    rintro ⟨operand, rest⟩ ⟨_, rest'⟩ ⟨rfl, hrest⟩
    exact .ok ⟨rfl, hrest⟩
  · rw [signed_of_ne_minus hminus,
      signed_of_ne_minus fun hminus' => hminus ((h.begins_iff _).2 hminus')]
    exact steady_power hnested hexpression h

theorem steady_unary (budget : Nat) : Steady R (unary budget) := by
  induction budget with
  | zero => exact steady_signed steady_tooDeep steady_tooDeep
  | succ budget ih => exact steady_signed ih (steady_sum ih)

theorem steady_expression (budget : Nat) : Steady R (Grammar.expression budget) := by
  cases budget with
  | zero => exact steady_tooDeep
  | succ budget => exact steady_sum (steady_unary budget)

end Grammar

open Grammar in
/-- The parser gives aligned tokens the same tree, or refuses both of them for the same reason at
related positions. -/
theorem Expr.agrees_ofTokens {R : Places} {tokens tokens' : List Token}
    (h : Aligned R tokens tokens') :
    Agrees (Rejection.Alike R) Eq (Expr.ofTokens tokens) (Expr.ofTokens tokens') := by
  unfold Expr.ofTokens
  rw [← h.next_lexeme]
  split
  · exact agrees_refuse h .empty
  · refine (steady_expression deepestNesting h).bind ?_
    rintro ⟨tree, rest⟩ ⟨_, rest'⟩ ⟨rfl, hrest⟩
    dsimp only at hrest ⊢
    rw [← hrest.next_lexeme]
    split
    · exact .ok rfl
    · exact agrees_refuse hrest _

end ExperienceCurves.Formula
