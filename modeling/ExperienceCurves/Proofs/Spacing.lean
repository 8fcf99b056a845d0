import ExperienceCurves.Proofs.Alignment
import ExperienceCurves.Proofs.Chains
import ExperienceCurves.Proofs.LetterCase
import ExperienceCurves.Proofs.Scanning

/-!
Spacing and letter case. Texts that are made of the same lexemes, up to the case of basic letters,
with any blanks around them have the same tokens at different positions. So they are parsed into the
same tree or blamed for the same mistake at the same token, and evaluated to the same value or to
failures that differ only in the text and in the position they name.
-/
namespace ExperienceCurves.Formula

open Text

/-- The lexeme that is written with the characters, by the kind of the first one. -/
def Lexeme.ofSpan? (span : List Char) : Option Lexeme :=
  match span with
  | [] => none
  | c :: _ =>
      if Token.startsWord c then ofWord? span
      else (ofSymbol? c).or (some (number (String.ofList span)))

namespace Token

theorem startsWord_toLower (c : Char) : startsWord c.toLower = startsWord c :=
  apply_toLower (by decide +kernel) c

theorem toLower_of_isDigit {c : Char} (h : isDigit c = true) : c.toLower = c := by
  refine toLower_of_not_capital fun hc => ?_
  cases h.symm.trans (forall_capital (p := fun c => isDigit c = false) (by decide +kernel) hc)

theorem startsWord_of_ofSymbol? {c : Char} {lexeme : Lexeme} (h : Lexeme.ofSymbol? c = some lexeme) :
    startsWord c = false ∧ c.toLower = c :=
  (by decide +kernel : ∀ s ∈ symbols, startsWord s.1 = false ∧ s.1.toLower = s.1) _ (mem_symbols h)

theorem map_toLower_of_isLiteral {span : List Char} (h : IsLiteral span) :
    span.map Char.toLower = span := by
  refine (List.map_congr_left fun c hc => ?_).trans (List.map_id span)
  rcases h.isDigit_or c hc with hdigit | rfl
  · exact toLower_of_isDigit hdigit
  · rfl

theorem ofSpan?_of_isLiteral {span : List Char} (h : IsLiteral span) :
    Lexeme.ofSpan? span = some (.number (String.ofList span)) := by
  have hstarts := startsNumber_append h []
  rw [List.append_nil] at hstarts
  cases span with
  | nil => cases hstarts
  | cons c rest =>
    have hword : startsWord c ≠ true := fun hword => by
      cases hstarts.symm.trans (startsNumber_eq_false_of_startsWord hword rest)
    have hsymbol : Lexeme.ofSymbol? c = none := by
      refine Option.eq_none_iff_forall_ne_some.2 fun lexeme hlexeme => ?_
      obtain ⟨-, hdigit, hpoint, -⟩ := of_ofSymbol? hlexeme
      cases hstarts.symm.trans (startsNumber_eq_false hdigit hpoint rest)
    rw [Lexeme.ofSpan?, if_neg hword, hsymbol]
    rfl

theorem ofSpan?_of_isWord {span after : List Char} (h : IsWord span after) :
    Lexeme.ofSpan? (span.map Char.toLower) = Lexeme.ofWord? span := by
  obtain ⟨c, hhead, hstarts⟩ := h.starts
  obtain ⟨rest, rfl⟩ := List.head?_eq_some_iff.1 hhead
  have hsame := SameLetters.map_toLower (c :: rest)
  rw [← startsWord_toLower] at hstarts
  rw [List.map_cons, Lexeme.ofSpan?, if_pos hstarts, ← List.map_cons, Lexeme.ofWord?,
    hsame.smalls_eq, hsame.capitals_eq]
  rfl

/-- The small form of the characters tells the lexeme, whatever comes after them. -/
theorem Writes.ofSpan?_eq {lexeme : Lexeme} {span after : List Char}
    (h : Writes lexeme span after) : Lexeme.ofSpan? (span.map Char.toLower) = some lexeme := by
  by_cases hnames : Names lexeme
  · rw [ofSpan?_of_isWord (h.isWord hnames), h.ofWord?_eq hnames]
  · cases h with
    | number hspan hafter => rw [map_toLower_of_isLiteral hspan, ofSpan?_of_isLiteral hspan]
    | named hword hname => exact absurd trivial hnames
    | function hword hnot hname => exact absurd trivial hnames
    | symbol after hsymbol =>
      obtain ⟨hword, hlower⟩ := startsWord_of_ofSymbol? hsymbol
      rw [List.map_singleton, hlower, Lexeme.ofSpan?, if_neg (by simp [hword]), hsymbol]
      rfl

/-- What is written with the same letters is the same lexeme. -/
theorem Writes.eq_of_sameLetters {lexeme lexeme' : Lexeme} {span span' after after' : List Char}
    (h : Writes lexeme span after) (h' : Writes lexeme' span' after')
    (hsame : SameLetters span span') : lexeme = lexeme' := by
  have hlexeme := h.ofSpan?_eq
  rw [hsame, h'.ofSpan?_eq] at hlexeme
  exact (Option.some.inj hlexeme).symm

/-- The second text is the first one with other blanks around its lexemes, and with basic letters
in another case. -/
def Respaced (first second : String) : Prop :=
  ∃ pieces pieces', Cut 0 first.toList pieces first.length [] ∧
    Cut 0 second.toList pieces' second.length [] ∧
    List.Forall₂ (fun p p' => SameLetters p.span p'.span) pieces pieces'

theorem Cut.writes {position last : Nat} {text rest : List Char} {pieces : List Piece}
    (h : Cut position text pieces last rest) :
    ∀ p ∈ pieces, ∃ after, Writes p.lexeme p.span after := by
  induction h with
  | stop => simp
  | blank hblank h ih => exact ih
  | piece hwrites h ih => exact List.forall_mem_cons.2 ⟨⟨_, hwrites⟩, ih⟩

theorem aligned_of_pieces {pieces pieces' : List Piece} {last last' : Nat}
    (h : List.Forall₂ (fun p p' => p.lexeme = p'.lexeme ∧ p.lexeme ≠ .finish) pieces pieces') :
    Aligned (fun _ _ => True) (pieces.map Piece.token ++ [⟨.finish, last⟩])
      (pieces'.map Piece.token ++ [⟨.finish, last'⟩]) := by
  induction h with
  | nil => exact .finish trivial
  | @cons p p' _ _ hlexeme h ih =>
    rw [List.map_cons, List.map_cons, Piece.token, Piece.token, ← hlexeme.1]
    exact .cons hlexeme.2 trivial ih

theorem Respaced.exists_aligned {first second : String} (h : Respaced first second) :
    ∃ tokens tokens', scan first = .ok tokens ∧ scan second = .ok tokens' ∧
      Aligned (Opposite tokens tokens') tokens tokens' := by
  obtain ⟨pieces, pieces', hcut, hcut', hsame⟩ := h
  refine ⟨_, _, hcut.scan_eq, hcut'.scan_eq, Aligned.opposite (aligned_of_pieces ?_)⟩
  refine List.forall₂_iff_zip.2 ⟨hsame.length_eq, fun {p p'} hmem => ?_⟩
  obtain ⟨after, hwrites⟩ := hcut.writes p (List.of_mem_zip hmem).1
  obtain ⟨after', hwrites'⟩ := hcut'.writes p' (List.of_mem_zip hmem).2
  exact ⟨hwrites.eq_of_sameLetters hwrites' (List.forall₂_zip hsame hmem), hwrites.ne_finish⟩

end Token

/-- Failures to parse two texts: the same mistake at tokens that stand at the same place, or the same
literal that is no number, which takes a digit without a decimal value in both texts. -/
inductive SameBlame (first second : String) (tokens tokens' : List Token) : Failure → Failure → Prop
  | mistake (mistake : Mistake) {t t' : Token} (h : (t, t') ∈ tokens.zip tokens') :
      SameBlame first second tokens tokens'
        (.formula (.malformed mistake first (some t.position)))
        (.formula (.malformed mistake second (some t'.position)))
  | literal (literal : String) (hfirst : ¬Positional first.toList)
      (hsecond : ¬Positional second.toList) :
      SameBlame first second tokens tokens' (.refused (.notDecimal literal))
        (.refused (.notDecimal literal))

/-- A literal that is no number has a digit without a decimal value. -/
theorem not_positional_of_numeral {formula literal : String} {tokens : List Token}
    (hscan : Token.scan formula = .ok tokens) (h : Expr.ofTokens tokens = .error (.numeral literal)) :
    ¬Positional formula.toList := by
  intro hpositional
  obtain ⟨fault, hfault⟩ := Expr.ofTokens_mistaken (readable_of_scan hscan hpositional) h
  cases hfault

theorem ofText_of_scan {formula : String} {tokens : List Token}
    (hscan : Token.scan formula = .ok tokens) (hlength : formula.length ≤ longestFormula) :
    Expr.ofText formula =
      match Expr.ofTokens tokens with
      | .ok tree => .ok tree
      | .error (.mistake fault) =>
          .error (.formula (.malformed fault.mistake formula (some fault.position)))
      | .error (.numeral literal) => .error (.refused (.notDecimal literal)) := by
  rw [Expr.ofText, if_neg (Nat.not_lt.2 hlength)]
  cases hread : Expr.ofTokens tokens with
  | ok tree => simp only [hscan, hread]
  | error rejection => cases rejection <;> simp only [hscan, hread]

theorem agrees_ofText {first second : String} {tokens tokens' : List Token}
    (hscan : Token.scan first = .ok tokens) (hscan' : Token.scan second = .ok tokens')
    (hfirst : first.length ≤ longestFormula) (hsecond : second.length ≤ longestFormula)
    (h : Aligned (Opposite tokens tokens') tokens tokens') :
    Agrees (SameBlame first second tokens tokens') Eq (Expr.ofText first) (Expr.ofText second) := by
  have hagrees := Expr.agrees_ofTokens h
  rw [ofText_of_scan hscan hfirst, ofText_of_scan hscan' hsecond]
  generalize hread : Expr.ofTokens tokens = result at hagrees
  generalize hread' : Expr.ofTokens tokens' = result' at hagrees
  cases hagrees with
  | ok htree => exact .ok htree
  | error hrejection =>
    cases hrejection with
    | mistake mistake hplaces =>
      obtain ⟨t, t', hmem, rfl, rfl⟩ := hplaces
      exact .error (.mistake mistake hmem)
    | numeral literal =>
      exact .error (.literal literal (not_positional_of_numeral hscan hread)
        (not_positional_of_numeral hscan' hread'))

/-- Failures that differ at most in the formula and in the position that they name. -/
inductive SameCause : Failure → Failure → Prop
  | malformed (mistake : Mistake) (formula formula' : String) (position position' : Option Nat) :
      SameCause (.formula (.malformed mistake formula position))
        (.formula (.malformed mistake formula' position'))
  | undefined (cause : Undefined) (formula formula' : String) :
      SameCause (.formula (.undefined cause formula)) (.formula (.undefined cause formula'))
  | same (failure : Failure) : SameCause failure failure

theorem SameBlame.sameCause {first second : String} {tokens tokens' : List Token}
    {failure failure' : Failure} (h : SameBlame first second tokens tokens' failure failure') :
    SameCause failure failure' := by
  cases h with
  | mistake mistake hmem => exact .malformed mistake _ _ _ _
  | literal literal => exact .same _

theorem agrees_self {α : Type} (result : Outcome α) : Agrees SameCause Eq result result := by
  cases result with
  | ok x => exact .ok rfl
  | error failure => exact .error (.same failure)

variable (formula formula' : String)

theorem Function.agrees_rounded (f : Function) (result : Except Fault Binary64) :
    Agrees SameCause Eq (f.rounded formula result) (f.rounded formula' result) := by
  cases result with
  | ok x => exact .ok rfl
  | error fault => exact .error (.undefined _ _ _)

theorem Function.agrees_apply (f : Function) (xs : List Binary64) :
    Agrees SameCause Eq (f.apply formula xs) (f.apply formula' xs) := by
  rcases xs with _ | ⟨x, _ | ⟨y, rest⟩⟩
  · cases f <;> exact agrees_self _
  · cases f with
    | max => exact agrees_self _
    | min => exact agrees_self _
    | round => exact agrees_rounded formula formula' round _
    | floor => exact agrees_rounded formula formula' floor _
    | ceil => exact agrees_rounded formula formula' ceil _
    | sqrt =>
      simp only [Function.apply]
      split
      · exact .error (.undefined _ _ _)
      · exact .ok rfl
  · cases f <;> exact agrees_self _

theorem Operator.agrees_apply (op : Operator) (x y : Binary64) :
    Agrees SameCause Eq (op.apply formula x y) (op.apply formula' x y) := by
  cases op with
  | plus => exact .ok rfl
  | minus => exact .ok rfl
  | times => exact .ok rfl
  | dividedBy =>
    simp only [Operator.apply]
    split
    · exact .error (.undefined _ _ _)
    · exact .ok rfl
  | power =>
    simp only [Operator.apply]
    cases realPower x y with
    | ok z => exact .ok rfl
    | error fault => exact .error (.undefined _ _ _)

namespace Expr

variable (bindings : Bindings)

theorem agrees_values {args : List Expr}
    (h : ∀ arg ∈ args, Agrees SameCause Eq (value bindings formula arg)
      (value bindings formula' arg)) :
    Agrees SameCause Eq (values bindings formula args) (values bindings formula' args) := by
  induction args with
  | nil =>
    rw [values, values]
    exact .ok rfl
  | cons arg rest ih =>
    rw [values, values]
    refine (h arg List.mem_cons_self).bind ?_
    rintro x _ rfl
    refine (ih fun arg harg => h arg (List.mem_cons_of_mem _ harg)).bind ?_
    rintro xs _ rfl
    exact .ok rfl

/-- The text of a formula is only named in failures. -/
theorem agrees_value (tree : Expr) :
    Agrees SameCause Eq (value bindings formula tree) (value bindings formula' tree) := by
  induction tree using byParts with
  | number x =>
    rw [value, value]
    exact .ok rfl
  | named v =>
    rw [value, value]
    cases bindings.value? v with
    | none => exact .error (.malformed _ _ _ _ _)
    | some given => exact agrees_self _
  | neg operand ih =>
    rw [value_neg, value_neg]
    refine ih.bind ?_
    rintro x _ rfl
    exact .ok rfl
  | binary op left right ihleft ihright =>
    rw [value_binary, value_binary]
    refine ihleft.bind ?_
    rintro x _ rfl
    refine ihright.bind ?_
    rintro y _ rfl
    exact op.agrees_apply formula formula' x y
  | call f args ih =>
    rw [value_call, value_call]
    refine (agrees_values formula formula' bindings ih).bind ?_
    rintro xs _ rfl
    exact f.agrees_apply formula formula' xs

end Expr

theorem agrees_evaluate {first second : String} {tokens tokens' : List Token}
    (h : Agrees (SameBlame first second tokens tokens') Eq (Expr.ofText first) (Expr.ofText second))
    (bindings : Bindings) :
    Agrees SameCause Eq (evaluate (.text first) bindings) (evaluate (.text second) bindings) := by
  have htree : Agrees SameCause Eq (Expr.ofDatum (.text first)) (Expr.ofDatum (.text second)) := by
    unfold Expr.ofDatum
    exact h.mono_error fun _ _ hblame => hblame.sameCause
  refine htree.bind ?_
  rintro tree _ rfl
  refine (tree.agrees_value _ _ bindings).bind ?_
  rintro x _ rfl
  split
  · exact .ok rfl
  · exact .error (.undefined _ _ _)

/-- Neither blanks around the lexemes of a formula nor the case of its letters make a difference. The
text is parsed into the same tree or refused for the same reason at the same token, and under any
bindings it has the same value or fails for the same cause. -/
theorem respaced_agrees {first second : String} (h : Token.Respaced first second)
    (hfirst : first.length ≤ longestFormula) (hsecond : second.length ≤ longestFormula) :
    ∃ tokens tokens', Token.scan first = .ok tokens ∧ Token.scan second = .ok tokens' ∧
      tokens.map Token.lexeme = tokens'.map Token.lexeme ∧
      Agrees (SameBlame first second tokens tokens') Eq (Expr.ofText first) (Expr.ofText second) ∧
      ∀ bindings,
        Agrees SameCause Eq (evaluate (.text first) bindings) (evaluate (.text second) bindings) := by
  obtain ⟨tokens, tokens', hscan, hscan', haligned⟩ := h.exists_aligned
  have hparse := agrees_ofText hscan hscan' hfirst hsecond haligned
  exact ⟨tokens, tokens', hscan, hscan', haligned.map_lexeme, hparse, agrees_evaluate hparse⟩

theorem IsLiteral.singleton {c : Char} (h : isDigit c = true) : IsLiteral [c] :=
  ⟨[c], [], Or.inl ⟨rfl, rfl⟩, by simp, by simpa using h⟩

theorem respaced_agrees_square :
    Token.Respaced "x^2" " X ^2" ∧
    ∃ tokens tokens', Token.scan "x^2" = .ok tokens ∧ Token.scan " X ^2" = .ok tokens' ∧
      tokens.map Token.lexeme = tokens'.map Token.lexeme ∧
      Agrees (SameBlame "x^2" " X ^2" tokens tokens') Eq (Expr.ofText "x^2") (Expr.ofText " X ^2") ∧
      ∀ bindings,
        Agrees SameCause Eq (evaluate (.text "x^2") bindings) (evaluate (.text " X ^2") bindings) := by
  have htwo : IsLiteral ['2'] := .singleton (by decide)
  have hend : ∀ position, Token.Cut position ['^', '2']
      [⟨.operator .power, position, ['^']⟩, ⟨.number "2", position + 1, ['2']⟩] (position + 2) [] :=
    fun position => .piece (.symbol _ rfl) (.piece (.number htwo (by simp)) (.stop _ _))
  have hword : ∀ c d rest, Token.startsWord c = true → Token.continuesWord d = false →
      Token.IsWord [c] (d :: rest) := by
    intro c d rest hc hd
    refine ⟨⟨c, rfl, hc⟩, List.forall_mem_singleton.2 (Token.continuesWord_of_startsWord hc), ?_⟩
    exact fun e he => Option.some.inj he ▸ hd
  have hx := hword 'x' '^' ['2'] (by decide +kernel) (by decide +kernel)
  have hX := hword 'X' ' ' ['^', '2'] (by decide +kernel) (by decide +kernel)
  have hrespaced : Token.Respaced "x^2" " X ^2" :=
    ⟨_, _, .piece (.named (v := .level) hx (by decide)) (hend 1),
      .blank (by decide) (.piece (.named (v := .level) hX (by decide)) (.blank (by decide) (hend 3))),
      .cons (by decide) (.cons (by decide) (.cons (by decide) .nil))⟩
  exact ⟨hrespaced, respaced_agrees hrespaced (by decide) (by decide)⟩

theorem Expr.ofTokens_of_no_numeral {literal : String} (h : Numeral.binary64? literal = none)
    (position stop : Nat) :
    ofTokens [⟨.number literal, position⟩, ⟨.finish, stop⟩] = .error (.numeral literal) := by
  simp [ofTokens, Grammar.next, deepestNesting, Grammar.expression, Grammar.sum, Grammar.chain,
    Grammar.unary, Grammar.signed, Grammar.power, Grammar.primary, h, bind, Except.bind]

/-- A superscript is a literal in both of these texts, but no number, so that they have no tree and
no mistake either. -/
theorem respaced_superscript :
    Token.Respaced "²" " ²" ∧ ∀ formula ∈ ["²", " ²"],
      (∃ tokens, Token.scan formula = .ok tokens) ∧ formula.length ≤ longestFormula ∧
      ¬((∃ tree, Expr.ofText formula = .ok tree) ∨
        ∃ error, Expr.ofText formula = .error (.formula error)) := by
  have hliteral : IsLiteral ['²'] := .singleton (by decide +kernel)
  have hcut : ∀ position, Token.Cut position ['²'] [⟨.number "²", position, ['²']⟩] (position + 1) [] :=
    fun position => .piece (.number hliteral (by simp)) (.stop _ _)
  refine ⟨⟨_, _, hcut 0, .blank (by decide) (hcut 1), .cons rfl .nil⟩, ?_⟩
  have hrefused : ∀ formula position stop,
      Token.scan formula = .ok [⟨.number "²", position⟩, ⟨.finish, stop⟩] →
      formula.length ≤ longestFormula →
      Expr.ofText formula = .error (.refused (.notDecimal "²")) := by
    intro formula position stop hscan hlength
    rw [ofText_of_scan hscan hlength, Expr.ofTokens_of_no_numeral (by decide +kernel)]
  intro formula hformula
  have hscan : ∃ position stop, Token.scan formula =
      .ok [⟨.number "²", position⟩, ⟨.finish, stop⟩] ∧ formula.length ≤ longestFormula := by
    rcases List.mem_pair.1 hformula with rfl | rfl
    · exact ⟨0, 1, by decide +kernel⟩
    · exact ⟨1, 2, by decide +kernel⟩
  obtain ⟨position, stop, hscan, hlength⟩ := hscan
  rw [hrefused formula position stop hscan hlength]
  refine ⟨⟨_, hscan⟩, hlength, ?_⟩
  simp

end ExperienceCurves.Formula
