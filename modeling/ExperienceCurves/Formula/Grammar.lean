import ExperienceCurves.Conversion
import ExperienceCurves.Formula.Expr

/-!
The grammar of formulas, read from left to right with one token of foresight:

    expression := term (("+" | "-") term)*
    term       := unary (("*" | "/") unary)*
    unary      := "-" unary | power
    power      := primary ("^" unary)?
    primary    := NUMBER | VARIABLE | FUNCTION "(" arguments ")" | "(" expression ")"

Parentheses, arguments, signs and exponents nest, and the budget of nesting levels that is left
is what the recursion goes down on. A mistake is reported at the token where the grammar allows
nothing of the kind.
-/
namespace ExperienceCurves.Formula

/-- Why tokens form no expression: a mistake, or a literal that is no decimal number. -/
inductive Rejection
  | mistake (fault : Token.Fault)
  | numeral (literal : String)
  deriving DecidableEq

namespace Grammar

abbrev Reader (α : Type) := List Token → Except Rejection (α × List Token)

def next : List Token → Token
  | token :: _ => token
  | [] => ⟨.finish, 0⟩

def refuse (mistake : Mistake) (tokens : List Token) : Except Rejection α :=
  .error (.mistake ⟨mistake, (next tokens).position⟩)

def tooDeep : Reader α := fun tokens => refuse .tooDeep tokens

def expectedLexeme : Expectation → Lexeme
  | .closing => .closing
  | .opening _ => .opening

/-- The tokens after the one that has to come next. -/
def expect (what : Expectation) (tokens : List Token) : Except Rejection (List Token) :=
  if (next tokens).lexeme = expectedLexeme what then .ok tokens.tail
  else refuse (.expected what (next tokens).lexeme.text) tokens

/-- More operands, as long as one of the operators comes next. Every round takes a token, so the
count of tokens bounds the rounds. -/
def chainFrom (operand : Reader Expr) (joins : Operator → Bool) : Nat → Expr → Reader Expr
  | rounds + 1, left, ⟨.operator op, position⟩ :: rest =>
      if joins op then do
        let (right, rest) ← operand rest
        chainFrom operand joins rounds (.binary op left right) rest
      else .ok (left, ⟨.operator op, position⟩ :: rest)
  | _, left, tokens => .ok (left, tokens)

/-- Operands joined by operators that group to the left. -/
def chain (operand : Reader Expr) (joins : Operator → Bool) : Reader Expr := fun tokens => do
  let (left, rest) ← operand tokens
  chainFrom operand joins rest.length left rest

def isAdditive (op : Operator) : Bool := op == .plus || op == .minus

def isMultiplicative (op : Operator) : Bool := op == .times || op == .dividedBy

/-- An expression out of the operands that its terms are made of. -/
def sum (operand : Reader Expr) : Reader Expr := chain (chain operand isMultiplicative) isAdditive

def argumentsFrom (expression : Reader Expr) : Nat → List Expr → Reader (List Expr)
  | rounds + 1, args, ⟨.comma, _⟩ :: rest => do
      let (arg, rest) ← expression rest
      argumentsFrom expression rounds (args ++ [arg]) rest
  | _, args, tokens => .ok (args, tokens)

/-- Arguments up to the closing parenthesis, possibly none. -/
def arguments (expression : Reader Expr) : Reader (List Expr)
  | ⟨.closing, position⟩ :: rest => .ok ([], ⟨.closing, position⟩ :: rest)
  | tokens => do
      let (arg, rest) ← expression tokens
      argumentsFrom expression rest.length [arg] rest

/-- The rest of a call, after the name of the function at `position`. -/
def call (expression : Reader Expr) (f : Function) (position : Nat) : Reader Expr :=
    fun tokens => do
  let rest ← expect (.opening f.name) tokens
  let (args, rest) ← arguments expression rest
  let rest ← expect .closing rest
  if args.length = f.arity then return (.call f args, rest)
  else .error (.mistake ⟨.wrongArity f.name f.arity args.length, position⟩)

def primary (expression : Reader Expr) : Reader Expr
  | ⟨.number literal, _⟩ :: rest =>
      match Numeral.binary64? literal with
      | some x => .ok (.number x, rest)
      | none => .error (.numeral literal)
  | ⟨.named v, _⟩ :: rest => .ok (.named v, rest)
  | ⟨.function f, position⟩ :: rest => call expression f position rest
  | ⟨.opening, _⟩ :: rest => do
      let (inner, rest) ← expression rest
      let rest ← expect .closing rest
      return (inner, rest)
  | ⟨.finish, position⟩ :: rest => refuse .unfinished (⟨.finish, position⟩ :: rest)
  | [] => refuse .unfinished []
  | tokens => refuse (.unexpected (next tokens).lexeme.text) tokens

/-- A power; its exponent may be signed or a power again. -/
def power (exponent expression : Reader Expr) : Reader Expr := fun tokens => do
  let (base, rest) ← primary expression tokens
  match rest with
  | ⟨.operator .power, _⟩ :: rest =>
      let (raised, rest) ← exponent rest
      return (.binary .power base raised, rest)
  | rest => return (base, rest)

/-- A sign and its operand, or a power. -/
def signed (nested expression : Reader Expr) : Reader Expr
  | ⟨.operator .minus, _⟩ :: rest => do
      let (operand, rest) ← nested rest
      return (.neg operand, rest)
  | tokens => power nested expression tokens

def unary (budget : Nat) (tokens : List Token) : Except Rejection (Expr × List Token) :=
  match budget with
  | 0 => signed tooDeep tooDeep tokens
  | budget + 1 => signed (unary budget) (sum (unary budget)) tokens

def expression (budget : Nat) (tokens : List Token) : Except Rejection (Expr × List Token) :=
  match budget with
  | 0 => tooDeep tokens
  | budget + 1 => sum (unary budget) tokens

end Grammar

namespace Expr

open Grammar

/-- The expression that all tokens up to the end of the text form. -/
def ofTokens (tokens : List Token) : Except Rejection Expr :=
  if (next tokens).lexeme = .finish then refuse .empty tokens
  else do
    let (tree, rest) ← expression deepestNesting tokens
    if (next rest).lexeme = .finish then return tree
    else refuse (.trailing (next rest).lexeme.text) rest

/-- Texts that are too long are not looked at, and only their start is shown. -/
def ofText (formula : String) : Outcome Expr :=
  if longestFormula < formula.length then
    .error (.formula (.malformed .tooLong (String.ofList (formula.toList.take 50) ++ "...") none))
  else
    match Token.scan formula with
    | .error error => .error (.formula error)
    | .ok tokens =>
        match ofTokens tokens with
        | .ok tree => .ok tree
        | .error (.mistake fault) =>
            .error (.formula (.malformed fault.mistake formula (some fault.position)))
        | .error (.numeral literal) => .error (.refused (.notDecimal literal))

def ofDatum (formula : Datum) : Outcome Expr :=
  match formula with
  | .text formula => ofText formula
  | other => do throw (.formula (.malformed .notText (← other.written) none))

end Expr

end ExperienceCurves.Formula
