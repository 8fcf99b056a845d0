import ExperienceCurves.Proofs.Reading
import ExperienceCurves.Proofs.Scanning

/-!
Where the parser finds fault with formulas. Its readers look one token ahead: a part is left at a
token that it cannot go on with, and refused at one that no part goes on with. So the tokens before
the one that is blamed start a formula, and none starts with that one as well. Formulas are here
those of the whole grammar, at any depth and with any number of arguments, also none.
-/
namespace ExperienceCurves.Formula

/-- Mistakes against the grammar itself, not against the limits of nesting and of arguments. -/
def Mistake.OfGrammar (mistake : Mistake) : Prop :=
  mistake ≠ .tooDeep ∧ ∀ name arity found, mistake ≠ .wrongArity name arity found

namespace Derivation

/-- Derivations without empty calls are derivations. -/
def widen {s : Category} : Derivation False s → Derivation True s
  | chain head tail => chain head.widen tail.widen
  | stop => stop
  | more op hop right tail => more op hop right.widen tail.widen
  | term operand => term operand.widen
  | factor operand => factor operand.widen
  | minus operand => minus operand.widen
  | unsigned power => unsigned power.widen
  | plain base => plain base.widen
  | raised base exponent => raised base.widen exponent.widen
  | number literal x hx => number literal x hx
  | named v => named v
  | enclosed inner => enclosed inner.widen
  | bare hbare f => hbare.elim
  | call f first others => call f first.widen others.widen
  | close => close
  | another arg others => another arg.widen others.widen

theorem lexemes_widen {s : Category} (d : Derivation False s) : d.widen.lexemes = d.lexemes := by
  induction d with
  | bare hbare f => exact hbare.elim
  | _ => simp_all [widen, lexemes]

end Derivation

namespace Category

/-- Some part starts with the lexemes. -/
def Viable (s : Category) (lexemes : List Lexeme) : Prop :=
  ∃ d : Derivation True s, lexemes <+: d.lexemes

/-- No part starts with the lexemes, nor do they go on after one that ends before. -/
def Barred (s : Category) (lexemes : List Lexeme) : Prop :=
  ∀ (d : Derivation True s) (rest : List Lexeme), s.Ends rest → ¬lexemes <+: d.lexemes ++ rest

theorem ends_congr {s : Category} {u v : List Lexeme} (h : u.head? = v.head?) :
    s.Ends u ↔ s.Ends v := by
  cases s <;> simp only [Ends, Looser, h]

theorem ends_nil (s : Category) : s.Ends [] := by
  cases s <;> simp [Ends, Looser]

theorem ends_finish (s : Category) : s.Ends [.finish] := by
  cases s <;> simp [Ends, Looser]

end Category

/-- What is left after a part, up to the lexeme after it, is a part of what may be left. -/
theorem Derivation.eq_of_prefix {Bare : Prop} {s : Category} (d d' : Derivation Bare s)
    {u rest : List Lexeme} {lexeme : Lexeme} (hhead : u.head? = some lexeme) (hends : s.Ends u)
    (hrest : s.Ends rest) (h : d.lexemes ++ u <+: d'.lexemes ++ rest) : d = d' ∧ u <+: rest := by
  obtain ⟨more, hmore⟩ := h
  rw [List.append_assoc] at hmore
  have hends' : s.Ends (u ++ more) :=
    (Category.ends_congr (by rw [List.head?_append, hhead, Option.some_or])).1 hends
  obtain ⟨heq, hrest⟩ := d.eq_of_lexemes_append d' hends' hrest hmore
  exact ⟨heq, more, hrest⟩

namespace Grammar

/-- The tokens before the position start a part, and none starts with the token there as well. -/
def Blames (s : Category) (tokens : List Token) (position : Nat) : Prop :=
  ∃ first rest, tokens = first ++ rest ∧ (next rest).position = position ∧
    s.Viable (first.map Token.lexeme) ∧
    s.Barred (first.map Token.lexeme ++ [(next rest).lexeme])

section Blames

variable {s t : Category} {tokens middle : List Token} {position : Nat}

/-- The token after some lexemes is to blame. -/
theorem Blames.intro (lexemes : List Lexeme) (hspells : Spells lexemes tokens middle)
    (hviable : s.Viable lexemes) (hbarred : s.Barred (lexemes ++ [(next middle).lexeme])) :
    Blames s tokens (next middle).position := by
  obtain ⟨first, rfl, rfl⟩ := spells_iff.1 hspells
  exact ⟨first, middle, rfl, rfl, hviable, hbarred⟩

/-- The first token is to blame. -/
theorem Blames.here (hviable : s.Viable []) (hbarred : s.Barred [(next tokens).lexeme]) :
    Blames s tokens (next tokens).position :=
  Blames.intro [] rfl hviable hbarred

/-- A token is to blame for a part if it is for what follows the first lexemes of the part. -/
theorem Blames.after (h : Blames s middle position) (lexemes : List Lexeme)
    (hspells : Spells lexemes tokens middle)
    (hviable : ∀ u, s.Viable u → t.Viable (lexemes ++ u))
    (hbarred : ∀ u, u.head? = some (next middle).lexeme → s.Barred u → t.Barred (lexemes ++ u)) :
    Blames t tokens position := by
  obtain ⟨before, rfl, rfl⟩ := spells_iff.1 hspells
  obtain ⟨first, rest, rfl, hposition, hfirst, hnext⟩ := h
  have hhead : (first.map Token.lexeme ++ [(next rest).lexeme]).head? =
      some (next (first ++ rest)).lexeme := by
    cases first <;> rfl
  refine ⟨before ++ first, rest, (List.append_assoc _ _ _).symm, hposition, ?_, ?_⟩
  · rw [List.map_append]
    exact hviable _ hfirst
  · rw [List.map_append, List.append_assoc]
    exact hbarred _ hhead hnext

theorem begins_of_next {lexeme : Lexeme} (h : (next tokens).lexeme = lexeme)
    (hfinish : lexeme ≠ .finish) : Begins lexeme tokens := by
  rcases tokens with _ | ⟨⟨_, position⟩, others⟩
  · exact absurd h.symm hfinish
  · exact ⟨position, others, by rw [← h]; rfl⟩

theorem refuse_error {α : Type} {mistake : Mistake} {fault : Token.Fault}
    (h : (refuse mistake tokens : Except Rejection α) = .error (.mistake fault)) :
    fault.position = (next tokens).position := by
  obtain rfl := Rejection.mistake.inj (Except.error.inj h)
  rfl

theorem expect_error {what : Expectation} {fault : Token.Fault}
    (h : expect what tokens = .error (.mistake fault)) :
    fault.position = (next tokens).position ∧ (next tokens).lexeme ≠ expectedLexeme what := by
  unfold expect at h
  split at h
  · cases h
  · next hne => exact ⟨refuse_error h, hne⟩

end Blames

/-- A reader that leaves a part at a token that the part cannot go on with, and blames the first one
that no part has at its place. -/
structure Blaming (s : Category) (budget : Nat) (reader : Reader s.Tree) : Prop
    extends Reads s budget reader where
  ends : ∀ {tokens tree rest}, reader tokens = .ok (tree, rest) → s.Ends (rest.map Token.lexeme)
  blames : ∀ {tokens fault}, reader tokens = .error (.mistake fault) → fault.mistake.OfGrammar →
    Blames s tokens fault.position

theorem Blaming.exists_spells {s : Category} {budget : Nat} {reader : Reader s.Tree}
    (h : Blaming s budget reader) {tokens rest : List Token} {tree : s.Tree}
    (hread : reader tokens = .ok (tree, rest)) :
    ∃ d : Derivation True s, Spells d.lexemes tokens rest ∧
      ∀ u : List Lexeme, u.head? = some (next rest).lexeme → s.Ends u := by
  obtain ⟨d, -, -, hspells⟩ := h.sound hread
  refine ⟨d.widen, by rwa [d.lexemes_widen], fun u hu => ?_⟩
  rcases rest with _ | ⟨token, rest⟩
  · exact (Category.ends_congr hu).2 s.ends_finish
  · exact (Category.ends_congr hu).2 (h.ends hread)

theorem blaming_tooDeep (s : Category) : Blaming s 0 tooDeep where
  toReads := reads_tooDeep s
  ends h := nomatch h
  blames h hgrammar := by
    obtain rfl := Rejection.mistake.inj (Except.error.inj h)
    exact absurd rfl hgrammar.1

variable {budget : Nat} {r : Rank} {operand : Reader Expr}

theorem chainFrom_ends (hoperand : Blaming (.operand r) budget operand) (rounds : Nat)
    {left tree : Expr} {tokens rest : List Token} (hrounds : tokens.length ≤ rounds)
    (hends : (Category.operand r).Ends (tokens.map Token.lexeme))
    (h : chainFrom operand r.joins rounds left tokens = .ok (tree, rest)) :
    (Category.chain r).Ends (rest.map Token.lexeme) := by
  induction rounds generalizing left tokens with
  | zero =>
    obtain ⟨-, rfl⟩ := Prod.mk.inj (Except.ok.inj h)
    obtain rfl := List.length_eq_zero_iff.1 (Nat.le_zero.1 hrounds)
    intro op hop
    cases hop
  | succ rounds ih =>
    by_cases hjoined : Joined r tokens
    · obtain ⟨op, hop, position, others, rfl⟩ := hjoined
      rw [chainFrom_of_joins hop] at h
      obtain ⟨⟨_, middle⟩, hright, h⟩ := Outcome.bind_eq_ok_iff.1 h
      obtain ⟨right, hspells, -⟩ := hoperand.exists_spells hright
      have hlength := hspells.length_le
      rw [List.length_cons] at hrounds
      exact ih (by omega) (hoperand.ends hright) h
    · rw [chainFrom_of_not_joined hjoined] at h
      obtain ⟨-, rfl⟩ := Prod.mk.inj (Except.ok.inj h)
      intro op hop
      refine Nat.lt_of_le_of_ne (Nat.le_of_lt_succ (hends op hop)) fun hstrength => hjoined ?_
      rcases tokens with _ | ⟨⟨lexeme, position⟩, others⟩
      · cases hop
      · obtain rfl : lexeme = .operator op := Option.some.inj hop
        exact ⟨op, (r.joins_iff op).2 hstrength, position, others, rfl⟩

/-- A tail starts with its own operator only. -/
theorem barred_more {op : Operator} (hop : op.strength = r.strength) {u : List Lexeme}
    (h : ∀ (right : Derivation True (.operand r)) (tail : Derivation True (.tail r)) rest,
      (Category.tail r).Ends rest → ¬u <+: right.lexemes ++ (tail.lexemes ++ rest)) :
    (Category.tail r).Barred (.operator op :: u) := by
  intro d rest hrest hprefix
  cases d with
  | stop =>
    obtain ⟨more, rfl⟩ := hprefix
    exact (hrest op rfl).ne hop
  | more op' hop' right tail =>
    refine h right tail rest hrest ?_
    rw [← List.append_assoc]
    exact (List.cons_prefix_cons.1 hprefix).2

theorem chainFrom_blames (hoperand : Blaming (.operand r) budget operand) (rounds : Nat)
    {left : Expr} {tokens : List Token} {fault : Token.Fault}
    (h : chainFrom operand r.joins rounds left tokens = .error (.mistake fault))
    (hgrammar : fault.mistake.OfGrammar) : Blames (.tail r) tokens fault.position := by
  induction rounds generalizing left tokens with
  | zero => cases h
  | succ rounds ih =>
    by_cases hjoined : Joined r tokens
    · obtain ⟨op, hop, position, others, rfl⟩ := hjoined
      rw [chainFrom_of_joins hop] at h
      rw [Rank.joins_iff] at hop
      rcases Outcome.bind_eq_error_iff.1 h with h | ⟨⟨tree, middle⟩, hright, h⟩
      · refine (hoperand.blames h hgrammar).after [.operator op]
          ⟨position, others, rfl, rfl⟩ ?_ ?_
        · rintro u ⟨right, hu⟩
          refine ⟨.more op hop right .stop, List.cons_prefix_cons.2 ⟨rfl, ?_⟩⟩
          exact hu.trans (List.prefix_append _ _)
        · intro u hhead hbarred
          exact barred_more hop fun right tail rest hrest =>
            hbarred right _ (tail.operand_ends hrest)
      · obtain ⟨right, hspells, hends⟩ := hoperand.exists_spells hright
        refine (ih h).after (.operator op :: right.lexemes)
          ⟨position, others, rfl, hspells⟩ ?_ ?_
        · rintro u ⟨tail, hu⟩
          exact ⟨.more op hop right tail,
            List.cons_prefix_cons.2 ⟨rfl, (List.prefix_append_right_inj _).2 hu⟩⟩
        · intro u hhead hbarred
          refine barred_more hop fun right' tail rest hrest hprefix => ?_
          obtain ⟨-, hu⟩ :=
            right.eq_of_prefix right' hhead (hends u hhead) (tail.operand_ends hrest) hprefix
          exact hbarred tail rest hrest hu
    · rw [chainFrom_of_not_joined hjoined] at h
      cases h

theorem blaming_chain (hoperand : Blaming (.operand r) budget operand) :
    Blaming (.chain r) budget (chain operand r.joins) where
  toReads := reads_chain hoperand.toReads
  ends {tokens tree rest} h := by
    obtain ⟨⟨_, middle⟩, hhead, htail⟩ := Outcome.bind_eq_ok_iff.1 h
    exact chainFrom_ends hoperand middle.length (Nat.le_refl _) (hoperand.ends hhead) htail
  blames {tokens fault} h hgrammar := by
    rcases Outcome.bind_eq_error_iff.1 h with h | ⟨⟨tree, middle⟩, hhead, h⟩
    · refine (hoperand.blames h hgrammar).after [] rfl ?_ ?_
      · rintro u ⟨head, hu⟩
        exact ⟨.chain head .stop, hu.trans (List.prefix_append _ _)⟩
      · intro u hhead hbarred d rest hrest hprefix
        cases d with
        | chain head tail =>
          refine hbarred head _ (tail.operand_ends hrest) ?_
          rw [← List.append_assoc]
          exact hprefix
    · obtain ⟨head, hspells, hends⟩ := hoperand.exists_spells hhead
      refine (chainFrom_blames hoperand _ h hgrammar).after _ hspells ?_ ?_
      · rintro u ⟨tail, hu⟩
        exact ⟨.chain head tail, (List.prefix_append_right_inj _).2 hu⟩
      · intro u hhead hbarred d rest hrest hprefix
        cases d with
        | chain head' tail =>
          rw [Derivation.lexemes, List.append_assoc] at hprefix
          obtain ⟨-, hu⟩ :=
            head.eq_of_prefix head' hhead (hends u hhead) (tail.operand_ends hrest) hprefix
          exact hbarred tail rest hrest hu

theorem blaming_term (hterm : Blaming .term budget operand) :
    Blaming (.operand .additive) budget operand where
  toReads := reads_term hterm.toReads
  ends h := hterm.ends h
  blames h hgrammar := by
    refine (hterm.blames h hgrammar).after [] rfl ?_ ?_
    · rintro u ⟨d, hu⟩
      exact ⟨.term d, hu⟩
    · intro u hhead hbarred d rest hrest hprefix
      cases d with
      | term d => exact hbarred d rest hrest hprefix

theorem blaming_factor (hunary : Blaming .unary budget operand) :
    Blaming (.operand .multiplicative) budget operand where
  toReads := reads_factor hunary.toReads
  ends h := hunary.ends h
  blames h hgrammar := by
    refine (hunary.blames h hgrammar).after [] rfl ?_ ?_
    · rintro u ⟨d, hu⟩
      exact ⟨.factor d, hu⟩
    · intro u hhead hbarred d rest hrest hprefix
      cases d with
      | factor d => exact hbarred d rest hrest hprefix

theorem blaming_sum (hunary : Blaming .unary budget operand) :
    Blaming .expression budget (sum operand) :=
  have hterm : Blaming .term budget (chain operand isMultiplicative) :=
    blaming_chain (blaming_factor hunary)
  blaming_chain (blaming_term hterm)

variable {expression : Reader Expr}

/-- Further arguments and the closing parenthesis start with a comma or are that parenthesis. -/
theorem barred_others {lexeme : Lexeme} (hclosing : lexeme ≠ .closing) (hcomma : lexeme ≠ .comma) :
    Category.others.Barred [lexeme] := by
  intro d rest _ hprefix
  cases d with
  | close => exact hclosing (List.cons_prefix_cons.1 hprefix).1
  | another arg others => exact hcomma (List.cons_prefix_cons.1 hprefix).1

/-- What starts with a comma goes on with an argument. -/
theorem barred_another {u : List Lexeme}
    (h : ∀ (arg : Derivation True .expression) (others : Derivation True .others) rest,
      ¬u <+: arg.lexemes ++ (others.lexemes ++ rest)) : Category.others.Barred (.comma :: u) := by
  intro d rest _ hprefix
  cases d with
  | close => cases (List.cons_prefix_cons.1 hprefix).1
  | another arg others =>
    refine h arg others rest ?_
    rw [← List.append_assoc]
    exact (List.cons_prefix_cons.1 hprefix).2

theorem argumentsFrom_blames (hexpression : Blaming .expression budget expression) (rounds : Nat)
    {args : List Expr} {tokens : List Token} {fault : Token.Fault}
    (hrounds : tokens.length ≤ rounds)
    (h : (argumentsFrom expression rounds args tokens >>= fun read => expect .closing read.2) =
      .error (.mistake fault)) (hgrammar : fault.mistake.OfGrammar) :
    Blames .others tokens fault.position := by
  induction rounds generalizing args tokens with
  | zero =>
    obtain rfl := List.length_eq_zero_iff.1 (Nat.le_zero.1 hrounds)
    have hexpect : expect .closing [] = .error (.mistake fault) := h
    rw [(expect_error hexpect).1]
    exact Blames.here ⟨.close, List.nil_prefix⟩ (barred_others (by decide) (by decide))
  | succ rounds ih =>
    by_cases hcomma : Begins .comma tokens
    · obtain ⟨position, others, rfl⟩ := hcomma
      rw [argumentsFrom_of_comma, bind_assoc] at h
      rcases Outcome.bind_eq_error_iff.1 h with h | ⟨⟨tree, middle⟩, harg, h⟩
      · refine (hexpression.blames h hgrammar).after [.comma]
          ⟨position, others, rfl, rfl⟩ ?_ ?_
        · rintro u ⟨arg, hu⟩
          refine ⟨.another arg .close, List.cons_prefix_cons.2 ⟨rfl, ?_⟩⟩
          exact hu.trans (List.prefix_append _ _)
        · intro u hhead hbarred
          exact barred_another fun arg others rest => hbarred arg _ (others.expression_ends rest)
      · obtain ⟨arg, hspells, hends⟩ := hexpression.exists_spells harg
        have hlength : middle.length ≤ rounds :=
          hspells.length_le.trans (Nat.le_of_succ_le_succ hrounds)
        refine (ih hlength h).after (.comma :: arg.lexemes)
          ⟨position, others, rfl, hspells⟩ ?_ ?_
        · rintro u ⟨d, hu⟩
          exact ⟨.another arg d,
            List.cons_prefix_cons.2 ⟨rfl, (List.prefix_append_right_inj _).2 hu⟩⟩
        · intro u hhead hbarred
          refine barred_another fun arg' others' rest hprefix => ?_
          obtain ⟨-, hu⟩ :=
            arg.eq_of_prefix arg' hhead (hends u hhead) (others'.expression_ends rest) hprefix
          exact hbarred others' rest trivial hu
    · rw [argumentsFrom_of_ne_comma hcomma] at h
      have hexpect : expect .closing tokens = .error (.mistake fault) := h
      obtain ⟨hposition, hclosing⟩ := expect_error hexpect
      rw [hposition]
      exact Blames.here ⟨.close, List.nil_prefix⟩
        (barred_others hclosing fun hnext => hcomma (begins_of_next hnext (by decide)))

/-- The name of a function goes on with an opening parenthesis, and where the closing one does not
follow with an argument. -/
theorem barred_call {f : Function} {u : List Lexeme} {lexeme : Lexeme}
    (hhead : u.head? = some lexeme) (hclosing : lexeme ≠ .closing)
    (h : ∀ (first : Derivation True .expression) (others : Derivation True .others) rest,
      ¬u <+: first.lexemes ++ (others.lexemes ++ rest)) :
    Category.primary.Barred (.function f :: .opening :: u) := by
  intro d rest _ hprefix
  cases d with
  | bare hbare g =>
    have hinside := (List.cons_prefix_cons.1 (List.cons_prefix_cons.1 hprefix).2).2
    obtain ⟨more, rfl⟩ := List.head?_eq_some_iff.1 hhead
    exact hclosing (List.cons_prefix_cons.1 hinside).1
  | call g first others =>
    refine h first others rest ?_
    rw [← List.append_assoc]
    exact (List.cons_prefix_cons.1 (List.cons_prefix_cons.1 hprefix).2).2
  | _ => cases (List.cons_prefix_cons.1 hprefix).1

theorem call_blames (hexpression : Blaming .expression budget expression) {f : Function}
    {position : Nat} {tokens : List Token} {fault : Token.Fault}
    (h : call expression f position tokens = .error (.mistake fault))
    (hgrammar : fault.mistake.OfGrammar) :
    Blames .primary (⟨.function f, position⟩ :: tokens) fault.position := by
  rcases Outcome.bind_eq_error_iff.1 h with h | ⟨inside, hopening, h⟩
  · obtain ⟨hposition, hopening⟩ := expect_error h
    rw [hposition]
    refine Blames.intro [.function f] ⟨position, tokens, rfl, rfl⟩
      ⟨.bare trivial f, _, rfl⟩ ?_
    intro d rest _ hprefix
    cases d with
    | bare hbare g =>
      exact hopening (List.cons_prefix_cons.1 (List.cons_prefix_cons.1 hprefix).2).1
    | call g first others =>
      exact hopening (List.cons_prefix_cons.1 (List.cons_prefix_cons.1 hprefix).2).1
    | _ => cases (List.cons_prefix_cons.1 hprefix).1
  obtain ⟨opening, others, rfl, rfl⟩ := expect_eq_ok_iff.1 hopening
  -- a wrong number of arguments is no mistake against the grammar
  have harity {args : List Expr} {rest : List Token} :
      (if args.length = f.arity then .ok (.call f args, rest)
        else .error (.mistake ⟨.wrongArity f.name f.arity args.length, position⟩) :
        Except Rejection (Expr × List Token)) ≠ .error (.mistake fault) := by
    intro h
    split at h
    · cases h
    · obtain rfl := Rejection.mistake.inj (Except.error.inj h)
      exact hgrammar.2 _ _ _ rfl
  by_cases hempty : Begins .closing others
  · obtain ⟨closing, others, rfl⟩ := hempty
    exact absurd h harity
  have hclosing : (next others).lexeme ≠ .closing := fun hnext =>
    hempty (begins_of_next hnext (by decide))
  have hothers {first : Expr} {middle : List Token} (hfirst : expression others = .ok (first, middle))
      (h : (argumentsFrom expression middle.length [first] middle >>= fun read =>
        expect .closing read.2) = .error (.mistake fault)) :
      Blames .primary (⟨.function f, position⟩ :: ⟨.opening, opening⟩ :: others)
        fault.position := by
    obtain ⟨d, hspells, hends⟩ := hexpression.exists_spells hfirst
    refine (argumentsFrom_blames hexpression _ (Nat.le_refl _) h hgrammar).after
      (.function f :: .opening :: d.lexemes)
      ⟨position, _, rfl, opening, _, rfl, hspells⟩ ?_ ?_
    · rintro u ⟨d', hu⟩
      exact ⟨.call f d d', List.cons_prefix_cons.2 ⟨rfl, List.cons_prefix_cons.2
        ⟨rfl, (List.prefix_append_right_inj _).2 hu⟩⟩⟩
    · intro u hhead hbarred
      obtain ⟨lexeme, hstart, hne⟩ := d.starts
      have hfirst : (d.lexemes ++ u).head? = some lexeme := by simp [hstart]
      refine barred_call hfirst hne fun first others rest hprefix => ?_
      obtain ⟨-, hu⟩ :=
        d.eq_of_prefix first hhead (hends u hhead) (others.expression_ends rest) hprefix
      exact hbarred others rest trivial hu
  rcases Outcome.bind_eq_error_iff.1 h with h | ⟨⟨args, middle⟩, hargs, h⟩
  · rw [arguments_of_ne_closing hempty] at h
    rcases Outcome.bind_eq_error_iff.1 h with h | ⟨⟨first, middle⟩, hfirst, h⟩
    · refine (hexpression.blames h hgrammar).after [.function f, .opening]
        ⟨position, _, rfl, opening, others, rfl, rfl⟩ ?_ ?_
      · rintro u ⟨first, hu⟩
        refine ⟨.call f first .close, List.cons_prefix_cons.2 ⟨rfl, List.cons_prefix_cons.2
          ⟨rfl, hu.trans (List.prefix_append _ _)⟩⟩⟩
      · intro u hhead hbarred
        exact barred_call hhead hclosing fun first others rest =>
          hbarred first _ (others.expression_ends rest)
    · exact hothers hfirst (Outcome.bind_eq_error_iff.2 (Or.inl h))
  · rw [arguments_of_ne_closing hempty] at hargs
    obtain ⟨⟨first, after⟩, hfirst, hargs⟩ := Outcome.bind_eq_ok_iff.1 hargs
    rcases Outcome.bind_eq_error_iff.1 h with h | ⟨rest, -, h⟩
    · exact hothers hfirst (Outcome.bind_eq_error_iff.2 (Or.inr ⟨_, hargs, h⟩))
    · exact absurd h harity

theorem viable_primary_nil : Category.primary.Viable [] := ⟨.named .level, List.nil_prefix⟩

/-- What starts with an opening parenthesis goes on with an expression and the closing one. -/
theorem barred_enclosed {u : List Lexeme}
    (h : ∀ (inner : Derivation True .expression) rest, ¬u <+: inner.lexemes ++ .closing :: rest) :
    Category.primary.Barred (.opening :: u) := by
  intro d rest _ hprefix
  cases d with
  | enclosed inner =>
    refine h inner rest ?_
    rw [← List.singleton_append, ← List.append_assoc]
    exact (List.cons_prefix_cons.1 hprefix).2
  | _ => cases (List.cons_prefix_cons.1 hprefix).1

theorem blaming_primary (hexpression : Blaming .expression budget expression) :
    Blaming .primary (budget + 1) (primary expression) where
  toReads := reads_primary hexpression.toReads
  ends _ := trivial
  blames {tokens fault} h hgrammar := by
    rcases tokens with _ | ⟨⟨lexeme, position⟩, others⟩
    · rw [refuse_error h]
      refine Blames.here viable_primary_nil fun d rest _ hprefix => ?_
      cases d <;> cases (List.cons_prefix_cons.1 hprefix).1
    cases lexeme with
    | number literal =>
      cases hx : Numeral.binary64? literal with
      | none => simp [primary, hx] at h
      | some x => simp [primary, hx] at h
    | named v => cases h
    | function f => exact call_blames hexpression h hgrammar
    | opening =>
      rw [enclosed_eq_bind] at h
      rcases Outcome.bind_eq_error_iff.1 h with h | ⟨⟨tree, middle⟩, hinner, h⟩
      · refine (hexpression.blames h hgrammar).after [.opening]
          ⟨position, others, rfl, rfl⟩ ?_ ?_
        · rintro u ⟨inner, hu⟩
          refine ⟨.enclosed inner, List.cons_prefix_cons.2 ⟨rfl, ?_⟩⟩
          exact hu.trans (List.prefix_append _ _)
        · intro u hhead hbarred
          exact barred_enclosed fun inner rest => hbarred inner _ (looser_closing 0 rest)
      · rcases Outcome.bind_eq_error_iff.1 h with h | ⟨rest, -, h⟩
        · obtain ⟨hposition, hclosing⟩ := expect_error h
          obtain ⟨inner, hspells, hends⟩ := hexpression.exists_spells hinner
          rw [hposition]
          refine Blames.intro (.opening :: inner.lexemes)
            ⟨position, others, rfl, hspells⟩ ?_ ?_
          · exact ⟨.enclosed inner, List.cons_prefix_cons.2 ⟨rfl, List.prefix_append _ _⟩⟩
          · refine barred_enclosed fun inner' rest hprefix => ?_
            obtain ⟨-, hu⟩ :=
              inner.eq_of_prefix inner' rfl (hends _ rfl) (looser_closing 0 rest) hprefix
            exact hclosing (List.cons_prefix_cons.1 hu).1
        · cases h
    | operator op | closing | comma | finish =>
      rw [refuse_error h]
      refine Blames.here viable_primary_nil fun d rest _ hprefix => ?_
      cases d <;> cases (List.cons_prefix_cons.1 hprefix).1

variable {nested : Reader Expr}

theorem looser_of_not_begins {tokens : List Token} (h : ¬Begins (.operator .power) tokens) :
    Looser 2 (tokens.map Token.lexeme) := by
  intro op hop
  rcases tokens with _ | ⟨⟨lexeme, position⟩, others⟩
  · cases hop
  · obtain rfl : lexeme = .operator op := Option.some.inj hop
    cases op with
    | power => exact absurd ⟨position, others, rfl⟩ h
    | plus | minus | times | dividedBy => decide

theorem blaming_power (hnested : Blaming .unary budget nested)
    (hexpression : Blaming .expression budget expression) :
    Blaming .power (budget + 1) (power nested expression) where
  toReads := reads_power hnested.toReads hexpression.toReads
  ends {tokens tree rest} h := by
    obtain ⟨⟨base, middle⟩, hbase, -⟩ := Outcome.bind_eq_ok_iff.1 h
    by_cases hpower : Begins (.operator .power) middle
    · obtain ⟨position, others, rfl⟩ := hpower
      rw [power_of_raised hbase] at h
      obtain ⟨⟨_, rest'⟩, hraised, hrest⟩ := Outcome.bind_eq_ok_iff.1 h
      obtain ⟨-, rfl⟩ := Prod.mk.inj (Except.ok.inj hrest)
      exact hnested.ends hraised
    · rw [power_of_plain hbase hpower] at h
      obtain ⟨-, rfl⟩ := Prod.mk.inj (Except.ok.inj h)
      exact looser_of_not_begins hpower
  blames {tokens fault} h hgrammar := by
    rcases hbase : primary expression tokens with rejection | ⟨tree, middle⟩
    · rw [power, hbase] at h
      obtain rfl := Except.error.inj h
      refine ((blaming_primary hexpression).blames hbase hgrammar).after [] rfl ?_ ?_
      · rintro u ⟨base, hu⟩
        exact ⟨.plain base, hu⟩
      · intro u hhead hbarred d rest hrest hprefix
        cases d with
        | plain base => exact hbarred base rest trivial hprefix
        | raised base exponent =>
          rw [Derivation.lexemes, List.append_assoc] at hprefix
          exact hbarred base _ trivial hprefix
    by_cases hpower : Begins (.operator .power) middle
    · obtain ⟨position, others, rfl⟩ := hpower
      rw [power_of_raised hbase] at h
      obtain ⟨base, hspells, -⟩ := (blaming_primary hexpression).exists_spells hbase
      rcases Outcome.bind_eq_error_iff.1 h with h | ⟨⟨tree, middle⟩, -, h⟩
      · refine (hnested.blames h hgrammar).after (base.lexemes ++ [.operator .power])
          (spells_append_iff.2 ⟨_, hspells, position, others, rfl, rfl⟩) ?_ ?_
        · rintro u ⟨exponent, hu⟩
          refine ⟨.raised base exponent, ?_⟩
          rw [Derivation.lexemes, List.append_assoc]
          exact (List.prefix_append_right_inj _).2 (List.cons_prefix_cons.2 ⟨rfl, hu⟩)
        · intro u hhead hbarred d rest hrest hprefix
          rw [List.append_assoc] at hprefix
          cases d with
          | plain base' =>
            obtain ⟨-, hu⟩ := base.eq_of_prefix base' rfl trivial trivial hprefix
            obtain ⟨more, rfl⟩ := hu
            exact absurd (hrest .power rfl) (by decide)
          | raised base' exponent =>
            rw [Derivation.lexemes, List.append_assoc] at hprefix
            obtain ⟨-, hu⟩ := base.eq_of_prefix base' rfl trivial trivial hprefix
            exact hbarred exponent rest hrest (List.cons_prefix_cons.1 hu).2
      · cases h
    · rw [power_of_plain hbase hpower] at h
      cases h

theorem blaming_signed (hnested : Blaming .unary budget nested)
    (hexpression : Blaming .expression budget expression) :
    Blaming .unary (budget + 1) (signed nested expression) where
  toReads := reads_signed hnested.toReads hexpression.toReads
  ends {tokens tree rest} h := by
    by_cases hminus : Begins (.operator .minus) tokens
    · obtain ⟨position, others, rfl⟩ := hminus
      obtain ⟨⟨_, rest'⟩, hoperand, hrest⟩ := Outcome.bind_eq_ok_iff.1 h
      obtain ⟨-, rfl⟩ := Prod.mk.inj (Except.ok.inj hrest)
      exact hnested.ends hoperand
    · rw [signed_of_ne_minus hminus] at h
      exact (blaming_power hnested hexpression).ends h
  blames {tokens fault} h hgrammar := by
    by_cases hminus : Begins (.operator .minus) tokens
    · obtain ⟨position, others, rfl⟩ := hminus
      rw [signed_of_minus] at h
      rcases Outcome.bind_eq_error_iff.1 h with h | ⟨⟨tree, middle⟩, -, h⟩
      · refine (hnested.blames h hgrammar).after [.operator .minus]
          ⟨position, others, rfl, rfl⟩ ?_ ?_
        · rintro u ⟨operand, hu⟩
          exact ⟨.minus operand, List.cons_prefix_cons.2 ⟨rfl, hu⟩⟩
        · intro u hhead hbarred d rest hrest hprefix
          cases d with
          | minus operand => exact hbarred operand rest hrest (List.cons_prefix_cons.1 hprefix).2
          | unsigned power =>
            obtain ⟨more, hmore⟩ := hprefix
            exact power.head?_ne_operator rest .minus (hmore ▸ rfl)
      · cases h
    · rw [signed_of_ne_minus hminus] at h
      refine ((blaming_power hnested hexpression).blames h hgrammar).after [] rfl ?_ ?_
      · rintro u ⟨power, hu⟩
        exact ⟨.unsigned power, hu⟩
      · intro u hhead hbarred d rest hrest hprefix
        cases d with
        | minus operand =>
          obtain ⟨more, rfl⟩ := List.head?_eq_some_iff.1 hhead
          exact hminus (begins_of_next (List.cons_prefix_cons.1 hprefix).1 (by decide))
        | unsigned power => exact hbarred power rest hrest hprefix

theorem blaming_unary (budget : Nat) : Blaming .unary (budget + 1) (unary budget) := by
  induction budget with
  | zero => exact blaming_signed (blaming_tooDeep .unary) (blaming_tooDeep .expression)
  | succ budget ih => exact blaming_signed ih (blaming_sum ih)

theorem blaming_expression (budget : Nat) :
    Blaming .expression budget (Grammar.expression budget) := by
  cases budget with
  | zero => exact blaming_tooDeep .expression
  | succ budget => exact blaming_sum (blaming_unary budget)

end Grammar

/-- No two tokens of a text stand at the same position. -/
theorem Token.eq_of_position_eq {formula : String} {tokens : List Token} {p q : Token}
    (hscan : scan formula = .ok tokens) (hp : p ∈ tokens) (hq : q ∈ tokens)
    (h : p.position = q.position) : p = q := by
  obtain ⟨pieces, hcut, rfl⟩ := exists_cut_of_scan hscan
  have hcovers := hcut.covers (List.nil_append _).symm rfl
  have hdistinct : List.Pairwise (fun p q : Token => p.position ≠ q.position)
      (pieces.map Piece.token ++ [⟨.finish, formula.length⟩]) := by
    refine List.pairwise_append.2
      ⟨List.pairwise_map.2 (hcovers.increasing.imp Nat.ne_of_lt), List.pairwise_singleton _ _, ?_⟩
    intro p hp q hq
    obtain ⟨piece, hpiece, rfl⟩ := List.mem_map.1 hp
    obtain rfl := List.mem_singleton.1 hq
    exact Nat.ne_of_lt
      ((hcovers.position_lt_stop hpiece).trans_le (hcovers.within piece hpiece).2)
  have : Std.Symm fun p q : Token => p.position ≠ q.position := ⟨fun _ _ => Ne.symm⟩
  by_contra hne
  exact hdistinct.forall hp hq hne h

namespace Expr

open Grammar

/-- The lexemes are a formula of the grammar. -/
def IsFormula (lexemes : List Lexeme) : Prop :=
  ∃ d : Derivation True .expression, d.lexemes = lexemes

theorem not_viable_finish (lexemes : List Lexeme) :
    ¬Category.expression.Viable (lexemes ++ [.finish]) := by
  rintro ⟨d, hd⟩
  exact d.finish_notMem_lexemes (hd.subset (by simp))

/-- The tokens before the one that is blamed start a formula. With that token as well they start
none, and are none if it is the end. -/
theorem ofTokens_blames {tokens : List Token} {fault : Token.Fault}
    (h : ofTokens tokens = .error (.mistake fault)) (hgrammar : fault.mistake.OfGrammar) :
    ∃ first rest, tokens = first ++ rest ∧ (next rest).position = fault.position ∧
      Category.expression.Viable (first.map Token.lexeme) ∧
      ¬Category.expression.Viable (first.map Token.lexeme ++ [(next rest).lexeme]) ∧
      ((next rest).lexeme = .finish → ¬IsFormula (first.map Token.lexeme)) := by
  unfold ofTokens at h
  split at h
  · next hfinish =>
    refine ⟨[], tokens, rfl, (refuse_error h).symm, ?_, ?_, ?_⟩
    · exact ⟨.chain (.term (.chain (.factor (.unsigned (.plain (.named .level)))) .stop)) .stop,
        List.nil_prefix⟩
    · rw [hfinish]
      exact not_viable_finish []
    · rintro - ⟨d, hd⟩
      obtain ⟨lexeme, hhead, -⟩ := d.starts
      rw [hd] at hhead
      cases hhead
  · rcases Outcome.bind_eq_error_iff.1 h with h | ⟨⟨tree, rest⟩, hread, h⟩
    · obtain ⟨first, rest, rfl, hposition, hviable, hbarred⟩ :=
        (blaming_expression deepestNesting).blames h hgrammar
      refine ⟨first, rest, rfl, hposition, hviable, ?_, ?_⟩
      · rintro ⟨d, hd⟩
        refine hbarred d [] (Category.ends_nil _) ?_
        rwa [List.append_nil]
      · rintro hfinish ⟨d, hd⟩
        have hwhole : first.map Token.lexeme ++ [(next rest).lexeme] = d.lexemes ++ [.finish] := by
          rw [hd, hfinish]
        exact hbarred d [.finish] (Category.ends_finish _) (hwhole ▸ List.prefix_rfl)
    · obtain ⟨d, hspells, hends⟩ := (blaming_expression deepestNesting).exists_spells hread
      obtain ⟨first, htokens, hfirst⟩ := spells_iff.1 hspells
      dsimp only at h
      split at h
      · cases h
      · next hfinish =>
        refine ⟨first, rest, htokens, (refuse_error h).symm, ⟨d, hfirst ▸ List.prefix_rfl⟩,
          ?_, fun hlast => absurd hlast hfinish⟩
        rintro ⟨d', hd'⟩
        rw [hfirst, ← List.append_nil d'.lexemes] at hd'
        obtain ⟨-, hnil⟩ :=
          d.eq_of_prefix d' rfl (hends _ rfl) (Category.ends_nil _) hd'
        cases List.prefix_nil.1 hnil

/-- A mistake is reported at the first token that is impossible: what stands before it starts a
formula, with it nothing does, and the end of the text is only blamed for what is no formula yet. -/
theorem ofText_blames {formula shown : String} {mistake : Mistake} {position : Nat}
    {tokens : List Token}
    (h : ofText formula = .error (.formula (.malformed mistake shown (some position))))
    (hscan : Token.scan formula = .ok tokens) (hgrammar : mistake.OfGrammar) :
    ∃ k token, tokens[k]? = some token ∧
      (∀ other ∈ tokens, other.position = position ↔ other = token) ∧
      Category.expression.Viable ((tokens.take k).map Token.lexeme) ∧
      ¬Category.expression.Viable ((tokens.take (k + 1)).map Token.lexeme) ∧
      (token.lexeme = .finish → ¬IsFormula ((tokens.take k).map Token.lexeme)) := by
  have herror : ofTokens tokens = .error (.mistake ⟨mistake, position⟩) := by
    unfold ofText at h
    split at h
    · cases h
    · rw [hscan] at h
      dsimp only at h
      split at h
      · cases h
      · next fault hfault =>
        cases h
        exact hfault
      · cases h
  obtain ⟨first, rest, rfl, hposition, hviable, hbarred, hend⟩ := ofTokens_blames herror hgrammar
  rcases rest with _ | ⟨token, rest⟩
  · -- the end of the text is among the tokens, and is in no formula
    obtain ⟨pieces, -, htokens⟩ := Token.exists_cut_of_scan hscan
    obtain ⟨d, hd⟩ := hviable
    refine absurd (hd.subset ?_) d.finish_notMem_lexemes
    rw [← List.append_nil first, htokens]
    simp
  · have hmem : token ∈ first ++ token :: rest := by simp
    refine ⟨first.length, token, by simp, fun other hother => ⟨fun h => ?_, fun h => ?_⟩, ?_, ?_, ?_⟩
    · exact Token.eq_of_position_eq hscan hother hmem (h.trans hposition.symm)
    · rw [h]
      exact hposition
    · rwa [List.take_left]
    · rw [← List.singleton_append, ← List.append_assoc, List.take_left' (by simp), List.map_append]
      exact hbarred
    · rwa [List.take_left]

/-- Two variables in a row: the second one is to blame, though the call is not closed either. -/
theorem ofText_blames_second_variable :
    let formula := "min(x, size level"
    let tokens : List Token := [⟨.function .min, 0⟩, ⟨.opening, 3⟩, ⟨.named .level, 4⟩,
      ⟨.comma, 5⟩, ⟨.named .size, 7⟩, ⟨.named .level, 12⟩, ⟨.finish, 17⟩]
    Token.scan formula = .ok tokens ∧
      ofText formula =
        .error (.formula (.malformed (.expected .closing "level") formula (some 12))) ∧
      (Mistake.expected .closing "level").OfGrammar ∧
      ∃ k token, tokens[k]? = some token ∧
        (∀ other ∈ tokens, other.position = 12 ↔ other = token) ∧
        Category.expression.Viable ((tokens.take k).map Token.lexeme) ∧
        ¬Category.expression.Viable ((tokens.take (k + 1)).map Token.lexeme) := by
  intro formula tokens
  have hscan : Token.scan formula = .ok tokens := by decide +kernel
  have htokens : ofTokens tokens = .error (.mistake ⟨.expected .closing "level", 12⟩) := rfl
  have hlength : ¬longestFormula < formula.length := by decide
  have herror : ofText formula =
      .error (.formula (.malformed (.expected .closing "level") formula (some 12))) := by
    rw [ofText, if_neg hlength, hscan]
    dsimp only
    rw [htokens]
  have hgrammar : (Mistake.expected .closing "level").OfGrammar := ⟨nofun, nofun⟩
  obtain ⟨k, token, htoken, hplace, hviable, hbarred, -⟩ := ofText_blames herror hscan hgrammar
  exact ⟨hscan, herror, hgrammar, k, token, htoken, hplace, hviable, hbarred⟩

end Expr

end ExperienceCurves.Formula
