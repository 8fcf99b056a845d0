import ExperienceCurves.Proofs.Derivation

/-!
What the readers of the grammar accept. A reader of a part of formulas accepts the tokens that
spell one of its derivations, gives the tree of it and leaves the rest; every level of budget
that is spent is a level of nesting in the derivation. The statement is proved for one reader
after the other and then by induction on the budget.
-/

namespace ExperienceCurves.Formula

/-- The tokens start with these lexemes, and the rest follows. -/
def Spells : List Lexeme → List Token → List Token → Prop
  | [], tokens, rest => tokens = rest
  | lexeme :: lexemes, tokens, rest =>
      ∃ position others, tokens = ⟨lexeme, position⟩ :: others ∧ Spells lexemes others rest

theorem spells_append_iff {first second : List Lexeme} {tokens rest : List Token} :
    Spells (first ++ second) tokens rest ↔
      ∃ middle, Spells first tokens middle ∧ Spells second middle rest := by
  induction first generalizing tokens with
  | nil => simp [Spells]
  | cons lexeme lexemes ih =>
    simp only [List.cons_append, Spells, ih]
    constructor
    · rintro ⟨position, others, rfl, middle, hfirst, hsecond⟩
      exact ⟨middle, ⟨position, others, rfl, hfirst⟩, hsecond⟩
    · rintro ⟨middle, ⟨position, others, rfl, hfirst⟩, hsecond⟩
      exact ⟨position, others, rfl, middle, hfirst, hsecond⟩

theorem spells_iff {lexemes : List Lexeme} {tokens rest : List Token} :
    Spells lexemes tokens rest ↔
      ∃ first, tokens = first ++ rest ∧ first.map Token.lexeme = lexemes := by
  induction lexemes generalizing tokens with
  | nil => simp [Spells]
  | cons lexeme lexemes ih =>
    simp only [Spells, ih]
    constructor
    · rintro ⟨position, others, rfl, first, rfl, rfl⟩
      exact ⟨⟨lexeme, position⟩ :: first, rfl, rfl⟩
    · rintro ⟨first, rfl, hfirst⟩
      obtain ⟨⟨lexeme', position⟩, first, rfl, rfl, hrest⟩ := List.map_eq_cons_iff.1 hfirst
      exact ⟨position, first ++ rest, rfl, first, rfl, hrest⟩

theorem Spells.map_lexeme {lexemes : List Lexeme} {tokens rest : List Token}
    (h : Spells lexemes tokens rest) :
    tokens.map Token.lexeme = lexemes ++ rest.map Token.lexeme := by
  obtain ⟨first, rfl, rfl⟩ := spells_iff.1 h
  exact List.map_append

theorem Spells.length_le {lexemes : List Lexeme} {tokens rest : List Token}
    (h : Spells lexemes tokens rest) : rest.length ≤ tokens.length := by
  obtain ⟨first, rfl, -⟩ := spells_iff.1 h
  simp

/-- The tokens begin with a lexeme. -/
def Begins (lexeme : Lexeme) (tokens : List Token) : Prop :=
  ∃ position others, tokens = ⟨lexeme, position⟩ :: others

/-- Every number among the tokens has a value. -/
def Readable (tokens : List Token) : Prop :=
  ∀ literal, .number literal ∈ tokens.map Token.lexeme → (Numeral.binary64? literal).isSome

theorem Readable.rest {lexemes : List Lexeme} {tokens rest : List Token}
    (hread : Readable tokens) (h : Spells lexemes tokens rest) : Readable rest := by
  intro literal hliteral
  refine hread literal ?_
  rw [h.map_lexeme]
  exact List.mem_append_right lexemes hliteral

theorem Readable.of_cons {token : Token} {tokens : List Token}
    (hread : Readable (token :: tokens)) : Readable tokens := fun literal hliteral =>
  hread literal (List.mem_cons_of_mem token.lexeme hliteral)

namespace Grammar

/-- What a reader for a part of formulas does under a budget of nesting levels. Tokens that it
refuses are to blame themselves, unless a number among them has no value. -/
structure Reads (s : Category) (budget : Nat) (reader : Reader s.Tree) : Prop where
  sound : ∀ {tokens tree rest}, reader tokens = .ok (tree, rest) →
    ∃ d : Derivation False s, d.tree = tree ∧ d.Fits budget ∧ Spells d.lexemes tokens rest
  complete : ∀ (d : Derivation False s) {tokens rest}, d.Fits budget →
    Spells d.lexemes tokens rest → s.Ends (rest.map Token.lexeme) →
    reader tokens = .ok (d.tree, rest)
  mistaken : ∀ {tokens rejection}, Readable tokens → reader tokens = .error rejection →
    ∃ fault, rejection = .mistake fault

/-- A reader and what goes on with its rest refuse tokens by a mistake if both do. -/
theorem Reads.mistaken_bind {s : Category} {budget : Nat} {reader : Reader s.Tree}
    (hreader : Reads s budget reader) {tokens : List Token} {rejection : Rejection}
    {proceed : s.Tree × List Token → Except Rejection α} (hread : Readable tokens)
    (h : reader tokens >>= proceed = .error rejection)
    (hproceed : ∀ tree rest, Readable rest → proceed (tree, rest) = .error rejection →
      ∃ fault, rejection = .mistake fault) : ∃ fault, rejection = .mistake fault := by
  rcases Outcome.bind_eq_error_iff.1 h with h | ⟨⟨tree, rest⟩, hread', h⟩
  · exact hreader.mistaken hread h
  · obtain ⟨d, -, -, hspells⟩ := hreader.sound hread'
    exact hproceed tree rest (hread.rest hspells) h

theorem reads_tooDeep (s : Category) : Reads s 0 tooDeep where
  sound h := nomatch h
  complete _ _ _ hfits := absurd hfits.1 (Nat.not_lt_zero _)
  mistaken _ h := ⟨_, (Except.error.inj h).symm⟩

theorem expect_eq_ok_iff {what : Expectation} {tokens rest : List Token} :
    expect what tokens = .ok rest ↔ Spells [expectedLexeme what] tokens rest := by
  unfold expect
  constructor
  · intro h
    split at h
    · next hnext =>
      rcases tokens with _ | ⟨⟨lexeme, position⟩, others⟩
      · cases what <;> cases hnext
      · obtain rfl : lexeme = expectedLexeme what := hnext
        exact ⟨position, others, rfl, Except.ok.inj h⟩
    · cases h
  · rintro ⟨position, others, rfl, rfl⟩
    exact if_pos rfl

theorem expect_mistaken {what : Expectation} {tokens : List Token} {rejection : Rejection}
    (h : expect what tokens = .error rejection) : ∃ fault, rejection = .mistake fault := by
  unfold expect at h
  split at h
  · cases h
  · exact ⟨_, (Except.error.inj h).symm⟩

variable {budget : Nat} {r : Rank} {operand : Reader Expr}

/-- Whether an operator of the chain comes next. -/
def Joined (r : Rank) (tokens : List Token) : Prop :=
  ∃ op, r.joins op = true ∧ Begins (.operator op) tokens

theorem chainFrom_of_joins {op : Operator} (hop : r.joins op = true) (rounds : Nat) (left : Expr)
    (position : Nat) (others : List Token) :
    chainFrom operand r.joins (rounds + 1) left (⟨.operator op, position⟩ :: others) =
      operand others >>= fun read =>
        chainFrom operand r.joins rounds (.binary op left read.1) read.2 := by
  rw [chainFrom, if_pos hop]

theorem chainFrom_of_not_joined {tokens : List Token} (h : ¬Joined r tokens) (rounds : Nat)
    (left : Expr) : chainFrom operand r.joins rounds left tokens = .ok (left, tokens) := by
  unfold chainFrom
  split
  · next rounds op position others =>
    rw [if_neg]
    exact fun hop => h ⟨op, hop, position, others, rfl⟩
  · rfl

theorem chainFrom_sound (hoperand : Reads (.operand r) budget operand) (hbudget : 0 < budget)
    (rounds : Nat) {left tree : Expr} {tokens rest : List Token}
    (h : chainFrom operand r.joins rounds left tokens = .ok (tree, rest)) :
    ∃ d : Derivation False (.tail r),
      d.tree left = tree ∧ d.Fits budget ∧ Spells d.lexemes tokens rest := by
  induction rounds generalizing left tokens with
  | zero =>
    obtain ⟨rfl, rfl⟩ := Prod.mk.inj (Except.ok.inj h)
    exact ⟨.stop, rfl, ⟨hbudget, trivial⟩, rfl⟩
  | succ rounds ih =>
    by_cases hjoined : Joined r tokens
    · obtain ⟨op, hop, position, others, rfl⟩ := hjoined
      rw [chainFrom_of_joins hop] at h
      obtain ⟨⟨_, middle⟩, hright, h⟩ := Outcome.bind_eq_ok_iff.1 h
      obtain ⟨right, rfl, hfits, hspells⟩ := hoperand.sound hright
      obtain ⟨tail, rfl, hfits', hspells'⟩ := ih h
      exact ⟨.more op ((r.joins_iff op).1 hop) right tail, rfl,
        Derivation.fits_more_iff.2 ⟨hfits, hfits'⟩,
        position, others, rfl, spells_append_iff.2 ⟨middle, hspells, hspells'⟩⟩
    · rw [chainFrom_of_not_joined hjoined] at h
      obtain ⟨rfl, rfl⟩ := Prod.mk.inj (Except.ok.inj h)
      exact ⟨.stop, rfl, ⟨hbudget, trivial⟩, rfl⟩

theorem chainFrom_mistaken (hoperand : Reads (.operand r) budget operand) (rounds : Nat)
    {left : Expr} {tokens : List Token} {rejection : Rejection} (hread : Readable tokens)
    (h : chainFrom operand r.joins rounds left tokens = .error rejection) :
    ∃ fault, rejection = .mistake fault := by
  induction rounds generalizing left tokens with
  | zero => cases h
  | succ rounds ih =>
    by_cases hjoined : Joined r tokens
    · obtain ⟨op, hop, position, others, rfl⟩ := hjoined
      rw [chainFrom_of_joins hop] at h
      exact hoperand.mistaken_bind hread.of_cons h fun _ _ hmiddle h => ih hmiddle h
    · rw [chainFrom_of_not_joined hjoined] at h
      cases h

theorem chainFrom_complete (hoperand : Reads (.operand r) budget operand) :
    ∀ (d : Derivation False (.tail r)) (rounds : Nat) (left : Expr) {tokens rest : List Token},
      d.Fits budget → Spells d.lexemes tokens rest →
      (Category.tail r).Ends (rest.map Token.lexeme) → tokens.length ≤ rounds →
      chainFrom operand r.joins rounds left tokens = .ok (d.tree left, rest)
  | .stop, rounds, left, tokens, rest, hfits, hspells, hends, hrounds => by
    obtain rfl : tokens = rest := hspells
    refine chainFrom_of_not_joined ?_ rounds left
    rintro ⟨op, hop, position, others, rfl⟩
    have := hends op rfl
    have := (r.joins_iff op).1 hop
    omega
  | .more op hop right tail, rounds, left, tokens, rest, hfits, hspells, hends, hrounds => by
    obtain ⟨position, others, rfl, hspells⟩ := hspells
    obtain ⟨middle, hright, htail⟩ := spells_append_iff.1 hspells
    obtain ⟨hrightFits, htailFits⟩ := Derivation.fits_more_iff.1 hfits
    rw [List.length_cons] at hrounds
    obtain ⟨rounds, rfl⟩ : ∃ k, rounds = k + 1 := ⟨rounds - 1, by omega⟩
    have hmiddle : middle.length ≤ rounds := by
      have := hright.length_le
      omega
    rw [chainFrom_of_joins ((r.joins_iff op).2 hop), Outcome.bind_eq_ok_iff]
    refine ⟨(right.tree, middle), hoperand.complete right hrightFits hright ?_, ?_⟩
    · rw [htail.map_lexeme]
      exact tail.operand_ends hends
    · exact chainFrom_complete hoperand tail rounds _ htailFits htail hends hmiddle

theorem reads_chain (hoperand : Reads (.operand r) budget operand) :
    Reads (.chain r) budget (chain operand r.joins) where
  sound {tokens tree rest} h := by
    obtain ⟨⟨_, middle⟩, hhead, htail⟩ := Outcome.bind_eq_ok_iff.1 h
    obtain ⟨head, rfl, hfits, hspells⟩ := hoperand.sound hhead
    obtain ⟨tail, rfl, hfits', hspells'⟩ :=
      chainFrom_sound hoperand (Nat.zero_lt_of_lt hfits.1) middle.length htail
    exact ⟨.chain head tail, rfl, Derivation.fits_chain_iff.2 ⟨hfits, hfits'⟩,
      spells_append_iff.2 ⟨middle, hspells, hspells'⟩⟩
  complete d {tokens rest} hfits hspells hends := by
    cases d with
    | chain head tail =>
      obtain ⟨hheadFits, htailFits⟩ := Derivation.fits_chain_iff.1 hfits
      obtain ⟨middle, hhead, htail⟩ := spells_append_iff.1 hspells
      refine Outcome.bind_eq_ok_iff.2
        ⟨(head.tree, middle), hoperand.complete head hheadFits hhead ?_, ?_⟩
      · rw [htail.map_lexeme]
        exact tail.operand_ends hends
      · exact chainFrom_complete hoperand tail middle.length _ htailFits htail hends (Nat.le_refl _)
  mistaken hread h := hoperand.mistaken_bind hread h fun _ middle hmiddle h =>
    chainFrom_mistaken hoperand middle.length hmiddle h

/-- A part that consists of another one alone is read by the same reader. -/
theorem reads_term (hterm : Reads .term budget operand) :
    Reads (.operand .additive) budget operand where
  sound h := by
    obtain ⟨d, htree, hfits, hspells⟩ := hterm.sound h
    exact ⟨.term d, htree, hfits, hspells⟩
  complete d {tokens rest} hfits hspells hends := by
    cases d with
    | term d => exact hterm.complete d hfits hspells hends
  mistaken := hterm.mistaken

theorem reads_factor (hunary : Reads .unary budget operand) :
    Reads (.operand .multiplicative) budget operand where
  sound h := by
    obtain ⟨d, htree, hfits, hspells⟩ := hunary.sound h
    exact ⟨.factor d, htree, hfits, hspells⟩
  complete d {tokens rest} hfits hspells hends := by
    cases d with
    | factor d => exact hunary.complete d hfits hspells hends
  mistaken := hunary.mistaken

theorem reads_sum (hunary : Reads .unary budget operand) :
    Reads .expression budget (sum operand) :=
  have hterm : Reads .term budget (chain operand isMultiplicative) :=
    reads_chain (reads_factor hunary)
  reads_chain (reads_term hterm)

variable {expression : Reader Expr}

theorem argumentsFrom_of_comma (rounds : Nat) (args : List Expr) (position : Nat)
    (others : List Token) :
    argumentsFrom expression (rounds + 1) args (⟨.comma, position⟩ :: others) =
      expression others >>= fun read =>
        argumentsFrom expression rounds (args ++ [read.1]) read.2 := rfl

theorem argumentsFrom_of_ne_comma {tokens : List Token} (h : ¬Begins .comma tokens)
    (rounds : Nat) (args : List Expr) :
    argumentsFrom expression rounds args tokens = .ok (args, tokens) := by
  unfold argumentsFrom
  split
  · next position others => exact absurd ⟨position, others, rfl⟩ h
  · rfl

/-- The arguments that are read are those of a derivation once the closing parenthesis is read. -/
theorem argumentsFrom_sound (hexpression : Reads .expression budget expression) (rounds : Nat)
    {args all : List Expr} {tokens middle rest : List Token}
    (h : argumentsFrom expression rounds args tokens = .ok (all, middle))
    (hclosing : Spells [.closing] middle rest) :
    ∃ d : Derivation False .others,
      all = args ++ d.tree ∧ d.Fits (budget + 1) ∧ Spells d.lexemes tokens rest := by
  induction rounds generalizing args tokens with
  | zero =>
    obtain ⟨rfl, rfl⟩ := Prod.mk.inj (Except.ok.inj h)
    exact ⟨.close, (List.append_nil _).symm, ⟨Nat.succ_pos _, trivial⟩, hclosing⟩
  | succ rounds ih =>
    by_cases hcomma : Begins .comma tokens
    · obtain ⟨position, others, rfl⟩ := hcomma
      rw [argumentsFrom_of_comma] at h
      obtain ⟨⟨_, after⟩, harg, h⟩ := Outcome.bind_eq_ok_iff.1 h
      obtain ⟨arg, rfl, hfits, hspells⟩ := hexpression.sound harg
      obtain ⟨d, rfl, hfits', hspells'⟩ := ih h
      exact ⟨.another arg d, List.append_assoc _ _ _,
        Derivation.fits_another_iff.2 ⟨hfits, hfits'⟩,
        position, others, rfl, spells_append_iff.2 ⟨after, hspells, hspells'⟩⟩
    · rw [argumentsFrom_of_ne_comma hcomma] at h
      obtain ⟨rfl, rfl⟩ := Prod.mk.inj (Except.ok.inj h)
      exact ⟨.close, (List.append_nil _).symm, ⟨Nat.succ_pos _, trivial⟩, hclosing⟩

theorem argumentsFrom_mistaken (hexpression : Reads .expression budget expression) (rounds : Nat)
    {args : List Expr} {tokens : List Token} {rejection : Rejection} (hread : Readable tokens)
    (h : argumentsFrom expression rounds args tokens = .error rejection) :
    ∃ fault, rejection = .mistake fault := by
  induction rounds generalizing args tokens with
  | zero => cases h
  | succ rounds ih =>
    by_cases hcomma : Begins .comma tokens
    · obtain ⟨position, others, rfl⟩ := hcomma
      rw [argumentsFrom_of_comma] at h
      exact hexpression.mistaken_bind hread.of_cons h fun _ _ hafter h => ih hafter h
    · rw [argumentsFrom_of_ne_comma hcomma] at h
      cases h

theorem argumentsFrom_complete (hexpression : Reads .expression budget expression) :
    ∀ (d : Derivation False .others) (rounds : Nat) (args : List Expr) {tokens rest : List Token},
      d.Fits (budget + 1) → Spells d.lexemes tokens rest → tokens.length ≤ rounds →
      ∃ middle, argumentsFrom expression rounds args tokens = .ok (args ++ d.tree, middle) ∧
        Spells [.closing] middle rest
  | .close, rounds, args, tokens, rest, hfits, hspells, hrounds => by
    refine ⟨tokens, ?_, hspells⟩
    obtain ⟨position, others, rfl, -⟩ := hspells
    rw [argumentsFrom_of_ne_comma (by simp [Begins])]
    exact congrArg (fun all => Except.ok (all, _)) (List.append_nil args).symm
  | .another arg d, rounds, args, tokens, rest, hfits, hspells, hrounds => by
    obtain ⟨position, others, rfl, hspells⟩ := hspells
    obtain ⟨after, harg, hafter⟩ := spells_append_iff.1 hspells
    obtain ⟨hargFits, hrestFits⟩ := Derivation.fits_another_iff.1 hfits
    rw [List.length_cons] at hrounds
    obtain ⟨rounds, rfl⟩ : ∃ k, rounds = k + 1 := ⟨rounds - 1, by omega⟩
    have hlength : after.length ≤ rounds := by
      have := harg.length_le
      omega
    obtain ⟨middle, hmiddle, hclosing⟩ := argumentsFrom_complete hexpression d rounds
      (args ++ [arg.tree]) hrestFits hafter hlength
    refine ⟨middle, ?_, hclosing⟩
    rw [argumentsFrom_of_comma, Outcome.bind_eq_ok_iff]
    refine ⟨(arg.tree, after), hexpression.complete arg hargFits harg ?_, ?_⟩
    · rw [hafter.map_lexeme]
      exact d.expression_ends _
    · rw [hmiddle, List.append_assoc]
      rfl

theorem arguments_of_ne_closing {tokens : List Token} (h : ¬Begins .closing tokens) :
    arguments expression tokens = expression tokens >>= fun read =>
      argumentsFrom expression read.2.length [read.1] read.2 := by
  unfold arguments
  split
  · next position others => exact absurd ⟨position, others, rfl⟩ h
  · rfl

theorem arguments_mistaken (hexpression : Reads .expression budget expression)
    {tokens : List Token} {rejection : Rejection} (hread : Readable tokens)
    (h : arguments expression tokens = .error rejection) :
    ∃ fault, rejection = .mistake fault := by
  by_cases hclosing : Begins .closing tokens
  · obtain ⟨position, others, rfl⟩ := hclosing
    cases h
  · rw [arguments_of_ne_closing hclosing] at h
    exact hexpression.mistaken_bind hread h fun _ middle hmiddle h =>
      argumentsFrom_mistaken hexpression middle.length hmiddle h

theorem call_sound (hexpression : Reads .expression budget expression) {f : Function}
    {position : Nat} {tokens rest : List Token} {tree : Expr}
    (h : call expression f position tokens = .ok (tree, rest)) :
    ∃ d : Derivation False .primary, d.tree = tree ∧ d.Fits (budget + 1) ∧
      Spells d.lexemes (⟨.function f, position⟩ :: tokens) rest := by
  obtain ⟨inside, hopening, hinside⟩ := Outcome.bind_eq_ok_iff.1 h
  obtain ⟨⟨args, middle⟩, hargs, hmiddle⟩ := Outcome.bind_eq_ok_iff.1 hinside
  obtain ⟨rest', hclosing, hrest⟩ := Outcome.bind_eq_ok_iff.1 hmiddle
  obtain ⟨opening, others, rfl, rfl⟩ := expect_eq_ok_iff.1 hopening
  rw [expect_eq_ok_iff] at hclosing
  by_cases harity : args.length = f.arity
  · rw [if_pos harity] at hrest
    obtain ⟨rfl, rfl⟩ := Prod.mk.inj (Except.ok.inj hrest)
    by_cases hempty : Begins .closing others
    · obtain ⟨position', others', rfl⟩ := hempty
      obtain ⟨rfl, -⟩ := Prod.mk.inj (Except.ok.inj hargs)
      exact absurd harity (Nat.ne_of_lt f.arity_pos)
    · rw [arguments_of_ne_closing hempty] at hargs
      obtain ⟨⟨_, after⟩, hfirst, hothers⟩ := Outcome.bind_eq_ok_iff.1 hargs
      obtain ⟨first, rfl, hfits, hspells⟩ := hexpression.sound hfirst
      obtain ⟨d, rfl, hfits', hspells'⟩ :=
        argumentsFrom_sound hexpression _ hothers hclosing
      exact ⟨.call f first d, rfl,
        Derivation.fits_call_iff.2 ⟨by simpa using harity.symm, hfits, hfits'⟩,
        position, _, rfl, opening, _, rfl, spells_append_iff.2 ⟨after, hspells, hspells'⟩⟩
  · rw [if_neg harity] at hrest
    cases hrest

theorem call_mistaken (hexpression : Reads .expression budget expression) {f : Function}
    {position : Nat} {tokens : List Token} {rejection : Rejection} (hread : Readable tokens)
    (h : call expression f position tokens = .error rejection) :
    ∃ fault, rejection = .mistake fault := by
  rcases Outcome.bind_eq_error_iff.1 h with h | ⟨inside, hopening, h⟩
  · exact expect_mistaken h
  have hinside := hread.rest (expect_eq_ok_iff.1 hopening)
  rcases Outcome.bind_eq_error_iff.1 h with h | ⟨⟨args, middle⟩, -, h⟩
  · exact arguments_mistaken hexpression hinside h
  rcases Outcome.bind_eq_error_iff.1 h with h | ⟨rest, -, h⟩
  · exact expect_mistaken h
  by_cases harity : args.length = f.arity
  · rw [if_pos harity] at h
    cases h
  · rw [if_neg harity] at h
    exact ⟨_, (Except.error.inj h).symm⟩

theorem call_complete (hexpression : Reads .expression budget expression) {f : Function}
    {position : Nat} {first : Derivation False .expression} {others : Derivation False .others}
    {tokens rest : List Token} (hfits : (Derivation.call f first others).Fits (budget + 1))
    (hspells : Spells (.opening :: (first.lexemes ++ others.lexemes)) tokens rest) :
    call expression f position tokens = .ok (.call f (first.tree :: others.tree), rest) := by
  obtain ⟨harity, hfirstFits, hothersFits⟩ := Derivation.fits_call_iff.1 hfits
  obtain ⟨opening, inside, rfl, hinside⟩ := hspells
  obtain ⟨after, hfirst, hafter⟩ := spells_append_iff.1 hinside
  obtain ⟨middle, hothers, hclosing⟩ := argumentsFrom_complete hexpression others after.length
    [first.tree] hothersFits hafter (Nat.le_refl _)
  have hargs : arguments expression inside = .ok (first.tree :: others.tree, middle) := by
    rw [arguments_of_ne_closing, Outcome.bind_eq_ok_iff]
    · refine ⟨(first.tree, after), hexpression.complete first hfirstFits hfirst ?_, hothers⟩
      rw [hafter.map_lexeme]
      exact others.expression_ends _
    · rintro ⟨position, others', rfl⟩
      refine first.head?_ne_closing (after.map Token.lexeme) ?_
      rw [← hfirst.map_lexeme]
      rfl
  refine Outcome.bind_eq_ok_iff.2 ⟨inside, rfl, ?_⟩
  refine Outcome.bind_eq_ok_iff.2 ⟨_, hargs, ?_⟩
  refine Outcome.bind_eq_ok_iff.2 ⟨rest, expect_eq_ok_iff.2 hclosing, ?_⟩
  rw [if_pos (by simpa using harity.symm)]
  rfl

theorem enclosed_eq_bind (position : Nat) (others : List Token) :
    primary expression (⟨.opening, position⟩ :: others) = expression others >>= fun read =>
      expect .closing read.2 >>= fun rest => .ok (read.1, rest) := rfl

theorem reads_primary (hexpression : Reads .expression budget expression) :
    Reads .primary (budget + 1) (primary expression) where
  sound {tokens tree rest} h := by
    rcases tokens with _ | ⟨⟨lexeme, position⟩, others⟩
    · cases h
    cases lexeme with
    | number literal =>
      cases hx : Numeral.binary64? literal with
      | none => simp [primary, hx] at h
      | some x =>
        obtain ⟨rfl, rfl⟩ : .number x = tree ∧ others = rest := by simpa [primary, hx] using h
        exact ⟨.number literal x hx, rfl, ⟨Nat.succ_pos _, trivial⟩, position, others, rfl, rfl⟩
    | named v =>
      obtain ⟨rfl, rfl⟩ := Prod.mk.inj (Except.ok.inj h)
      exact ⟨.named v, rfl, ⟨Nat.succ_pos _, trivial⟩, position, others, rfl, rfl⟩
    | function f => exact call_sound hexpression h
    | opening =>
      obtain ⟨⟨_, middle⟩, hinner, hmiddle⟩ := Outcome.bind_eq_ok_iff.1 h
      obtain ⟨rest', hclosing, hrest⟩ := Outcome.bind_eq_ok_iff.1 hmiddle
      obtain ⟨inner, rfl, hfits, hspells⟩ := hexpression.sound hinner
      obtain ⟨rfl, rfl⟩ := Prod.mk.inj (Except.ok.inj hrest)
      exact ⟨.enclosed inner, rfl, Derivation.fits_enclosed_iff.2 hfits, position, others, rfl,
        spells_append_iff.2 ⟨middle, hspells, expect_eq_ok_iff.1 hclosing⟩⟩
    | operator op => cases h
    | closing => cases h
    | comma => cases h
    | finish => cases h
  complete d {tokens rest} hfits hspells _ := by
    cases d with
    | number literal x hx =>
      obtain ⟨position, others, rfl, rfl⟩ := hspells
      simp [primary, hx, Derivation.tree]
    | named v =>
      obtain ⟨position, others, rfl, rfl⟩ := hspells
      rfl
    | enclosed inner =>
      obtain ⟨position, others, rfl, hothers⟩ := hspells
      obtain ⟨middle, hinner, hclosing⟩ := spells_append_iff.1 hothers
      rw [enclosed_eq_bind, Outcome.bind_eq_ok_iff]
      refine ⟨(inner.tree, middle), ?_, ?_⟩
      · refine hexpression.complete inner (Derivation.fits_enclosed_iff.1 hfits) hinner ?_
        rw [hclosing.map_lexeme]
        exact looser_closing _ _
      · exact Outcome.bind_eq_ok_iff.2 ⟨rest, expect_eq_ok_iff.2 hclosing, rfl⟩
    | bare hbare f => exact hbare.elim
    | call f first others =>
      obtain ⟨position, tokens, rfl, htokens⟩ := hspells
      exact call_complete hexpression hfits htokens
  mistaken {tokens rejection} hread h := by
    rcases tokens with _ | ⟨⟨lexeme, position⟩, others⟩
    · exact ⟨_, (Except.error.inj h).symm⟩
    have hothers : Readable others := hread.of_cons
    cases lexeme with
    | number literal =>
      obtain ⟨x, hx⟩ := Option.isSome_iff_exists.1 (hread literal List.mem_cons_self)
      simp [primary, hx] at h
    | named v => cases h
    | function f => exact call_mistaken hexpression hothers h
    | opening =>
      refine hexpression.mistaken_bind hothers h fun inner middle _ h => ?_
      rcases Outcome.bind_eq_error_iff.1 h with h | ⟨rest, -, h⟩
      · exact expect_mistaken h
      · cases h
    | operator op => exact ⟨_, (Except.error.inj h).symm⟩
    | closing => exact ⟨_, (Except.error.inj h).symm⟩
    | comma => exact ⟨_, (Except.error.inj h).symm⟩
    | finish => exact ⟨_, (Except.error.inj h).symm⟩

variable {nested : Reader Expr}

theorem power_of_raised {tokens others : List Token} {base : Expr} {position : Nat}
    (h : primary expression tokens = .ok (base, ⟨.operator .power, position⟩ :: others)) :
    power nested expression tokens =
      nested others >>= fun read => .ok (.binary .power base read.1, read.2) := by
  rw [power, h]
  rfl

theorem power_of_plain {tokens rest : List Token} {base : Expr}
    (h : primary expression tokens = .ok (base, rest)) (hrest : ¬Begins (.operator .power) rest) :
    power nested expression tokens = .ok (base, rest) := by
  simp only [power, h, bind, Except.bind]
  split
  · next position others => exact absurd ⟨position, others, rfl⟩ hrest
  · rfl

theorem reads_power (hnested : Reads .unary budget nested)
    (hexpression : Reads .expression budget expression) :
    Reads .power (budget + 1) (power nested expression) where
  sound {tokens tree rest} h := by
    obtain ⟨⟨_, middle⟩, hbase, -⟩ := Outcome.bind_eq_ok_iff.1 h
    obtain ⟨base, rfl, hfits, hspells⟩ := (reads_primary hexpression).sound hbase
    by_cases hpower : Begins (.operator .power) middle
    · obtain ⟨position, others, rfl⟩ := hpower
      rw [power_of_raised hbase] at h
      obtain ⟨⟨_, rest'⟩, hraised, hrest⟩ := Outcome.bind_eq_ok_iff.1 h
      obtain ⟨exponent, rfl, hfits', hspells'⟩ := hnested.sound hraised
      obtain ⟨rfl, rfl⟩ := Prod.mk.inj (Except.ok.inj hrest)
      exact ⟨.raised base exponent, rfl, Derivation.fits_raised_iff.2 ⟨hfits, hfits'⟩,
        spells_append_iff.2 ⟨_, hspells, position, others, rfl, hspells'⟩⟩
    · rw [power_of_plain hbase hpower] at h
      obtain ⟨rfl, rfl⟩ := Prod.mk.inj (Except.ok.inj h)
      exact ⟨.plain base, rfl, hfits, hspells⟩
  complete d {tokens rest} hfits hspells hends := by
    cases d with
    | plain base =>
      refine power_of_plain ((reads_primary hexpression).complete base hfits hspells trivial) ?_
      rintro ⟨position, others, rfl⟩
      exact absurd (hends .power rfl) (by decide)
    | raised base exponent =>
      obtain ⟨hbaseFits, hexponentFits⟩ := Derivation.fits_raised_iff.1 hfits
      obtain ⟨_, hbase, position, others, rfl, hothers⟩ := spells_append_iff.1 hspells
      rw [power_of_raised ((reads_primary hexpression).complete base hbaseFits hbase trivial),
        Outcome.bind_eq_ok_iff]
      exact ⟨_, hnested.complete exponent hexponentFits hothers hends, rfl⟩
  mistaken {tokens rejection} hread h := by
    rcases hbase : primary expression tokens with fault | ⟨tree, middle⟩
    · rw [power, hbase] at h
      obtain rfl := Except.error.inj h
      exact (reads_primary hexpression).mistaken hread hbase
    obtain ⟨base, rfl, -, hspells⟩ := (reads_primary hexpression).sound hbase
    by_cases hpower : Begins (.operator .power) middle
    · obtain ⟨position, others, rfl⟩ := hpower
      rw [power_of_raised hbase] at h
      exact hnested.mistaken_bind (hread.rest hspells).of_cons h fun _ _ _ h => nomatch h
    · rw [power_of_plain hbase hpower] at h
      cases h

theorem signed_of_minus (position : Nat) (others : List Token) :
    signed nested expression (⟨.operator .minus, position⟩ :: others) =
      nested others >>= fun read => .ok (.neg read.1, read.2) := rfl

theorem signed_of_ne_minus {tokens : List Token} (h : ¬Begins (.operator .minus) tokens) :
    signed nested expression tokens = power nested expression tokens := by
  unfold signed
  split
  · next position others => exact absurd ⟨position, others, rfl⟩ h
  · rfl

theorem reads_signed (hnested : Reads .unary budget nested)
    (hexpression : Reads .expression budget expression) :
    Reads .unary (budget + 1) (signed nested expression) where
  sound {tokens tree rest} h := by
    by_cases hminus : Begins (.operator .minus) tokens
    · obtain ⟨position, others, rfl⟩ := hminus
      obtain ⟨⟨_, rest'⟩, hoperand, hrest⟩ := Outcome.bind_eq_ok_iff.1 h
      obtain ⟨operand, rfl, hfits, hspells⟩ := hnested.sound hoperand
      obtain ⟨rfl, rfl⟩ := Prod.mk.inj (Except.ok.inj hrest)
      exact ⟨.minus operand, rfl, Derivation.fits_minus_iff.2 hfits, position, others, rfl, hspells⟩
    · rw [signed_of_ne_minus hminus] at h
      obtain ⟨d, htree, hfits, hspells⟩ := (reads_power hnested hexpression).sound h
      exact ⟨.unsigned d, htree, hfits, hspells⟩
  complete d {tokens rest} hfits hspells hends := by
    cases d with
    | minus operand =>
      obtain ⟨position, others, rfl, hothers⟩ := hspells
      rw [signed_of_minus, Outcome.bind_eq_ok_iff]
      exact ⟨_, hnested.complete operand (Derivation.fits_minus_iff.1 hfits) hothers hends, rfl⟩
    | unsigned d =>
      rw [signed_of_ne_minus]
      · exact (reads_power hnested hexpression).complete d hfits hspells hends
      · rintro ⟨position, others, rfl⟩
        refine d.head?_ne_operator (rest.map Token.lexeme) .minus ?_
        have hlexemes := hspells.map_lexeme
        exact hlexemes ▸ rfl
  mistaken {tokens rejection} hread h := by
    by_cases hminus : Begins (.operator .minus) tokens
    · obtain ⟨position, others, rfl⟩ := hminus
      rw [signed_of_minus] at h
      exact hnested.mistaken_bind hread.of_cons h fun _ _ _ h => nomatch h
    · rw [signed_of_ne_minus hminus] at h
      exact (reads_power hnested hexpression).mistaken hread h

theorem reads_unary (budget : Nat) : Reads .unary (budget + 1) (unary budget) := by
  -- without budget the readers of nested parts accept nothing, and no nested part fits either
  induction budget with
  | zero => exact reads_signed (reads_tooDeep .unary) (reads_tooDeep .expression)
  | succ budget ih => exact reads_signed ih (reads_sum ih)

theorem reads_expression (budget : Nat) : Reads .expression budget (Grammar.expression budget) := by
  cases budget with
  | zero => exact reads_tooDeep .expression
  | succ budget => exact reads_sum (reads_unary budget)

end Grammar

namespace Expr

open Grammar

variable {tokens : List Token} {position : Nat}

/-- An expression before the end of the text takes all tokens up to it. -/
private theorem lexemes_eq_of_next_eq_finish {d : Derivation False .expression} {rest : List Token}
    (hfinish : ∀ token ∈ tokens, token.lexeme ≠ .finish)
    (hspells : Spells d.lexemes (tokens ++ [⟨.finish, position⟩]) rest)
    (hrest : (next rest).lexeme = .finish) : d.lexemes = tokens.map Token.lexeme := by
  obtain ⟨first, hsplit, hfirst⟩ := spells_iff.1 hspells
  rw [← hfirst]
  rcases List.append_eq_append_iff.1 hsplit with ⟨extra, rfl, hextra⟩ | ⟨unread, rfl, rfl⟩
  · rcases extra with _ | ⟨token, extra⟩
    · rw [List.append_nil]
    · refine absurd ?_ d.finish_notMem_lexemes
      obtain ⟨rfl, -⟩ := List.cons.inj hextra
      rw [← hfirst]
      simp
  · rcases unread with _ | ⟨token, unread⟩
    · rw [List.append_nil]
    · exact absurd hrest (hfinish token (by simp))

/-- A tree that is read is the tree of a derivation up to the end of the text. -/
theorem exists_derivation_of_ofTokens {tree : Expr} (h : ofTokens tokens = .ok tree) :
    ∃ (d : Derivation False .expression) (rest : List Token), d.tree = tree ∧
      d.Fits deepestNesting ∧ Spells d.lexemes tokens rest ∧ (next rest).lexeme = .finish := by
  unfold ofTokens at h
  split at h
  · cases h
  · obtain ⟨⟨_, rest⟩, hexpression, hrest⟩ := Outcome.bind_eq_ok_iff.1 h
    obtain ⟨d, rfl, hfits, hspells⟩ := (reads_expression deepestNesting).sound hexpression
    dsimp only at hrest
    split at hrest
    · next hnext =>
      obtain rfl := Except.ok.inj hrest
      exact ⟨d, rest, rfl, hfits, hspells, hnext⟩
    · cases hrest

/-- The trees of formulas are those of derivations with calls of the right arity and not more
levels than allowed. -/
theorem ofTokens_eq_ok_iff (hfinish : ∀ token ∈ tokens, token.lexeme ≠ .finish) (tree : Expr) :
    ofTokens (tokens ++ [⟨.finish, position⟩]) = .ok tree ↔
      ∃ d : Derivation False .expression, d.lexemes = tokens.map Token.lexeme ∧ d.tree = tree ∧
        d.HasArity ∧ d.depth ≤ deepestNesting := by
  have hreads := reads_expression deepestNesting
  constructor
  · intro h
    obtain ⟨d, rest, rfl, ⟨hnesting, harity⟩, hspells, hnext⟩ := exists_derivation_of_ofTokens h
    exact ⟨d, lexemes_eq_of_next_eq_finish hfinish hspells hnext, rfl, harity, hnesting⟩
  · rintro ⟨d, hlexemes, rfl, harity, hdepth⟩
    have hspells : Spells d.lexemes (tokens ++ [⟨.finish, position⟩]) [⟨.finish, position⟩] :=
      spells_iff.2 ⟨tokens, rfl, hlexemes.symm⟩
    have hends : Category.expression.Ends [.finish] := by
      intro op hop
      simp at hop
    have hread := hreads.complete d ⟨hdepth, harity⟩ hspells hends
    have hnext : (next (tokens ++ [⟨.finish, position⟩])).lexeme ≠ .finish := by
      obtain ⟨lexeme, hhead, -⟩ := d.starts
      rcases tokens with _ | ⟨token, tokens⟩
      · simp [hlexemes] at hhead
      · exact hfinish token List.mem_cons_self
    rw [ofTokens, if_neg hnext, hread]
    rfl

/-- A text that is read has tokens, and they form its tree. -/
theorem ofText_eq_ok_iff {formula : String} {tree : Expr} :
    ofText formula = .ok tree ↔ formula.length ≤ longestFormula ∧
      ∃ tokens, Token.scan formula = .ok tokens ∧ ofTokens tokens = .ok tree := by
  unfold ofText
  by_cases hlength : longestFormula < formula.length
  · rw [if_pos hlength]
    exact iff_of_false nofun fun h => absurd h.1 (Nat.not_le.2 hlength)
  · rw [if_neg hlength, and_iff_right (Nat.not_lt.1 hlength)]
    cases Token.scan formula with
    | error error => simp
    | ok tokens =>
      cases hread : ofTokens tokens with
      | ok tree => simp [hread]
      | error rejection => cases rejection <;> simp [hread]

theorem ofTokens_mistaken {rejection : Rejection} (hread : Readable tokens)
    (h : ofTokens tokens = .error rejection) : ∃ fault, rejection = .mistake fault := by
  unfold ofTokens at h
  split at h
  · exact ⟨_, (Except.error.inj h).symm⟩
  · refine (reads_expression deepestNesting).mistaken_bind hread h fun tree rest _ h => ?_
    dsimp only at h
    split at h
    · cases h
    · exact ⟨_, (Except.error.inj h).symm⟩

/-- The parser accepts exactly the formulas of the grammar whose calls are of the right arity and
which nest no more levels than allowed, each with the tree of its only derivation, and blames the
tokens of all others. -/
theorem ofTokens_exact (tokens : List Token) (position : Nat)
    (hfinish : ∀ token ∈ tokens, token.lexeme ≠ .finish) (hread : Readable tokens) :
    (∀ tree, ofTokens (tokens ++ [⟨.finish, position⟩]) = .ok tree ↔
      ∃ d : Derivation False .expression, d.lexemes = tokens.map Token.lexeme ∧ d.tree = tree ∧
        d.HasArity ∧ d.depth ≤ deepestNesting) ∧
      (∀ rejection, ofTokens (tokens ++ [⟨.finish, position⟩]) = .error rejection →
        ∃ fault, rejection = .mistake fault) ∧
      ∀ d d' : Derivation False .expression, d.lexemes = tokens.map Token.lexeme →
        d'.lexemes = tokens.map Token.lexeme → d = d' := by
  refine ⟨ofTokens_eq_ok_iff hfinish, ?_, ?_⟩
  · intro rejection h
    refine ofTokens_mistaken ?_ h
    intro literal hliteral
    rw [List.map_append] at hliteral
    rcases List.mem_append.1 hliteral with hliteral | hliteral
    · exact hread literal hliteral
    · simp at hliteral
  · intro d d' h h'
    exact Derivation.eq_of_lexemes_eq (h.trans h'.symm)

/-- A sign takes a whole power, here in the first argument of a call that is itself subtracted. -/
theorem ofTokens_exact_signed_power :
    let tokens : List Token := [⟨.number "2", 0⟩, ⟨.operator .minus, 1⟩, ⟨.function .max, 2⟩,
      ⟨.opening, 5⟩, ⟨.operator .minus, 6⟩, ⟨.named .level, 7⟩, ⟨.operator .power, 8⟩,
      ⟨.named .size, 9⟩, ⟨.comma, 13⟩, ⟨.named .level, 14⟩, ⟨.closing, 15⟩]
    (∀ token ∈ tokens, token.lexeme ≠ .finish) ∧ Readable tokens ∧
      ∃ two, Numeral.binary64? "2" = some two ∧
        ofTokens (tokens ++ [⟨.finish, 16⟩]) = .ok (.binary .minus (.number two)
          (.call .max [.neg (.binary .power (.named .level) (.named .size)), .named .level])) := by
  intro tokens
  have hfinish : ∀ token ∈ tokens, token.lexeme ≠ .finish := by decide
  have htwo : (Numeral.binary64? "2").isSome := by decide +kernel
  have hread : Readable tokens := by
    intro literal hliteral
    obtain rfl : literal = "2" := by simpa [tokens] using hliteral
    exact htwo
  obtain ⟨two, hx⟩ := Option.isSome_iff_exists.1 htwo
  let level : Derivation False .unary := .unsigned (.plain (.named .level))
  let power : Derivation False .unary :=
    .minus (.unsigned (.raised (.named .level) (.unsigned (.plain (.named .size)))))
  let alone (d : Derivation False .unary) : Derivation False .expression :=
    .chain (.term (.chain (.factor d) .stop)) .stop
  let call : Derivation False .primary := .call .max (alone power) (.another (alone level) .close)
  let d : Derivation False .expression :=
    .chain (.term (.chain (.factor (.unsigned (.plain (.number "2" two hx)))) .stop))
      (.more .minus rfl (.term (.chain (.factor (.unsigned (.plain call))) .stop)) .stop)
  have harity : d.HasArity := by
    simp [d, call, alone, power, level, Derivation.HasArity, Derivation.tree, Function.arity]
  have hdepth : d.depth ≤ deepestNesting := by
    have hfour : d.depth = 4 := rfl
    rw [hfour]
    decide
  refine ⟨hfinish, hread, two, hx, ?_⟩
  exact ((ofTokens_exact tokens 16 hfinish hread).1 _).2 ⟨d, rfl, rfl, harity, hdepth⟩

end Expr

end ExperienceCurves.Formula
