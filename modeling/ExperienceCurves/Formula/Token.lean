import ExperienceCurves.Formula.Error
import ExperienceCurves.Text.Blank
import ExperienceCurves.Text.Capital
import ExperienceCurves.Text.Letter

/-!
Tokens of formulas and how a text is cut into them. A token starts at the first character that is
not blank; numbers and words are as long as possible. Words are names of variables, in any case,
or of functions, and nothing else.
-/
namespace ExperienceCurves.Formula

inductive Variable
  | level
  | size
  deriving DecidableEq

inductive Function
  | max
  | min
  | round
  | floor
  | ceil
  | sqrt
  deriving DecidableEq

inductive Operator
  | plus
  | minus
  | times
  | dividedBy
  | power
  deriving DecidableEq

namespace Variable

def name : Variable → String
  | level => "level"
  | size => "size"

/-- A variable by a name in small letters; the level has a short name as well. -/
def ofName? (name : String) : Option Variable :=
  if name = "level" ∨ name = "x" then some level
  else if name = "size" then some size
  else none

end Variable

namespace Function

def name : Function → String
  | max => "MAX"
  | min => "MIN"
  | round => "ROUND"
  | floor => "FLOOR"
  | ceil => "CEIL"
  | sqrt => "SQRT"

def arity : Function → Nat
  | max => 2
  | min => 2
  | _ => 1

def all : List Function := [max, min, round, floor, ceil, sqrt]

def ofName? (name : String) : Option Function := all.find? fun f => f.name = name

theorem ofName?_name (f : Function) : ofName? f.name = some f := by
  cases f <;> decide

end Function

namespace Operator

def symbol : Operator → Char
  | plus => '+'
  | minus => '-'
  | times => '*'
  | dividedBy => '/'
  | power => '^'

end Operator

inductive Lexeme
  | number (literal : String)
  | named (v : Variable)
  | function (f : Function)
  | operator (o : Operator)
  | opening
  | closing
  | comma
  | finish
  deriving DecidableEq

structure Token where
  lexeme : Lexeme
  position : Nat
  deriving DecidableEq

namespace Lexeme

def kind : Lexeme → String
  | number _ => "number"
  | named _ => "variable"
  | function _ => "function"
  | operator _ => "operator"
  | opening => "lparen"
  | closing => "rparen"
  | comma => "comma"
  | finish => "eof"

/-- The normal form of what the token stands for; the end of the text has none. -/
def text : Lexeme → String
  | number literal => literal
  | named v => v.name
  | function f => f.name
  | operator o => o.symbol.toString
  | opening => "("
  | closing => ")"
  | comma => ","
  | finish => ""

def ofSymbol? : Char → Option Lexeme
  | '+' => some (operator .plus)
  | '-' => some (operator .minus)
  | '*' => some (operator .times)
  | '/' => some (operator .dividedBy)
  | '^' => some (operator .power)
  | '(' => some opening
  | ')' => some closing
  | ',' => some comma
  | _ => none

/-- What a word means: first as a variable, then as a function. -/
def ofWord? (word : List Char) : Option Lexeme :=
  match Variable.ofName? (String.ofList (Text.smalls word)) with
  | some v => some (named v)
  | none => (Function.ofName? (String.ofList (Text.capitals word))).map function

end Lexeme

namespace Token

/-- A mistake and where it is. -/
structure Fault where
  mistake : Mistake
  position : Nat
  deriving DecidableEq

def startsWord (c : Char) : Bool := Text.isLetter c || c = '_'

def continuesWord (c : Char) : Bool := Text.isLetterOrNumeral c || c = '_'

/-- A number starts with a digit, or with a point before a digit. -/
def startsNumber : List Char → Bool
  | '.' :: c :: _ => Text.isDigit c
  | c :: _ => Text.isDigit c
  | [] => false

/-- The longest start of the text made of digits with at most one point, and the rest. -/
def splitNumber (text : List Char) : List Char × List Char :=
  match text.dropWhile Text.isDigit with
  | '.' :: rest =>
      (text.takeWhile Text.isDigit ++ '.' :: rest.takeWhile Text.isDigit,
        rest.dropWhile Text.isDigit)
  | rest => (text.takeWhile Text.isDigit, rest)

theorem splitNumber_append (text : List Char) :
    (splitNumber text).1 ++ (splitNumber text).2 = text := by
  unfold splitNumber
  split
  · next rest h =>
    simp only [List.append_assoc, List.cons_append, List.takeWhile_append_dropWhile]
    rw [← h, List.takeWhile_append_dropWhile]
  · simp

theorem splitNumber_fst_ne_nil {text : List Char} (h : startsNumber text = true) :
    (splitNumber text).1 ≠ [] := by
  unfold splitNumber
  split
  · simp
  · next rest hrest =>
    match text, h with
    | '.' :: d :: more, h =>
      by_cases hpoint : Text.isDigit '.' = true
      · simp [List.takeWhile_cons, hpoint]
      · exact absurd (by simp [hpoint]) (hrest (d :: more))
    | [c], h =>
      have hc : Text.isDigit c = true := by
        unfold startsNumber at h
        split at h <;> simp_all
      simp [hc]
    | c :: d :: more, h =>
      by_cases hpoint : c = '.'
      · subst hpoint
        by_cases hdigit : Text.isDigit '.' = true
        · simp [List.takeWhile_cons, hdigit]
        · exact absurd (by simp [hdigit]) (hrest (d :: more))
      · have hc : Text.isDigit c = true := by
          unfold startsNumber at h
          split at h <;> simp_all
        simp [List.takeWhile_cons, hc]

theorem splitNumber_snd_length_lt {text : List Char} (h : startsNumber text = true) :
    (splitNumber text).2.length < text.length := by
  have hsum := congrArg List.length (splitNumber_append text)
  have hpos := List.length_pos_iff.2 (splitNumber_fst_ne_nil h)
  simp only [List.length_append] at hsum
  omega

/-- Cut a text whose first character stands at `position`. -/
def scanFrom (position : Nat) (text : List Char) : Except Fault (List Token) :=
  match text with
  | [] => .ok [⟨.finish, position⟩]
  | c :: rest =>
      if Text.isBlank c then scanFrom (position + 1) rest
      else if hnumber : startsNumber (c :: rest) then
        let literal := (splitNumber (c :: rest)).1
        have : (splitNumber (c :: rest)).2.length < rest.length + 1 :=
          splitNumber_snd_length_lt hnumber
        if (splitNumber (c :: rest)).2.head? = some '.' then
          .error ⟨.malformedNumber (String.ofList literal), position⟩
        else do
          let others ← scanFrom (position + literal.length) (splitNumber (c :: rest)).2
          return ⟨.number (String.ofList literal), position⟩ :: others
      else if startsWord c then
        let word := c :: rest.takeWhile continuesWord
        have := (List.dropWhile_suffix continuesWord (l := rest)).length_le
        match Lexeme.ofWord? word with
        | some lexeme => do
            let others ← scanFrom (position + word.length) (rest.dropWhile continuesWord)
            return ⟨lexeme, position⟩ :: others
        | none => .error ⟨.unknownIdentifier (String.ofList word), position⟩
      else
        match Lexeme.ofSymbol? c with
        | some lexeme => do
            let others ← scanFrom (position + 1) rest
            return ⟨lexeme, position⟩ :: others
        | none => .error ⟨.unexpectedCharacter c, position⟩
termination_by text.length

def scan (formula : String) : Except Error (List Token) :=
  match scanFrom 0 formula.toList with
  | .ok tokens => .ok tokens
  | .error fault => .error (.malformed fault.mistake formula (some fault.position))

end Token

end ExperienceCurves.Formula
