import ExperienceCurves.Binary64
import ExperienceCurves.Decimal
import ExperienceCurves.Number

/-!
What can be wrong with a formula: its text is outside the grammar, or its value is undefined. An
error holds the cause, the formula and, where there is one, the position of the mistake.
-/
namespace ExperienceCurves.Formula

/-- What the grammar asks for at a place. -/
inductive Expectation
  | closing
  | opening (function : String)
  deriving DecidableEq

inductive Mistake
  | notText
  | tooLong
  | unexpectedCharacter (c : Char)
  | malformedNumber (literal : String)
  | unknownIdentifier (word : String)
  | empty
  | unfinished
  | unexpected (token : String)
  | trailing (token : String)
  | expected (what : Expectation) (found : String)
  | wrongArity (function : String) (arity found : Nat)
  | tooDeep
  | unbound (name : String)
  deriving DecidableEq

/-- Why a power of real numbers has no value. -/
inductive PowerFault
  | outsideDomain
  | outsideRange
  deriving DecidableEq

inductive Undefined
  | divisionByZero
  | negativeRoot (radicand : Binary64)
  | noPower (base exponent : Binary64) (fault : PowerFault)
  | noInteger (function : String) (fault : Fault)
  | notFinite (value : Binary64)
  deriving DecidableEq

inductive Error
  | malformed (mistake : Mistake) (formula : String) (position : Option Nat)
  | undefined (cause : Undefined) (formula : String)
  deriving DecidableEq

def longestFormula : Nat := 1000

def deepestNesting : Nat := 64

def Expectation.text : Expectation → String
  | closing => "')'"
  | opening function => "'(' after " ++ function

def Mistake.text : Mistake → String
  | notText => "Formula must be a string"
  | tooLong => "Formula longer than " ++ toString longestFormula ++ " characters"
  | unexpectedCharacter c => "Unexpected character '" ++ c.toString ++ "'"
  | malformedNumber literal => "Malformed number '" ++ literal ++ ".'"
  | unknownIdentifier word => "Unknown identifier '" ++ word ++ "'"
  | empty => "Empty formula"
  | unfinished => "Unexpected end of formula"
  | unexpected token => "Unexpected '" ++ token ++ "'"
  | trailing token => "Unexpected '" ++ token ++ "' after expression"
  | expected what found =>
      "Expected " ++ what.text ++ " but got '" ++
        (if found = "" then "end of formula" else found) ++ "'"
  | wrongArity function arity found =>
      function ++ " takes " ++ toString arity ++ " argument" ++
        (if arity = 1 then "" else "s") ++ ", got " ++ toString found
  | tooDeep => "Formula nested too deeply"
  | unbound name => "Variable '" ++ name ++ "' is not bound"

def PowerFault.text : PowerFault → String
  | outsideDomain => "math domain error"
  | outsideRange => "math range error"

def Undefined.text : Undefined → String
  | divisionByZero => "Division by zero"
  | negativeRoot radicand => "SQRT of negative value " ++ radicand.text
  | noPower base exponent fault =>
      "Invalid power " ++ base.text ++ "^" ++ exponent.text ++ ": " ++ fault.text
  | noInteger function fault => function ++ ": " ++ fault.message
  | notFinite value => "Non-finite result " ++ value.text

/-- A mistake with a position names it. -/
def Error.message : Error → String
  | malformed mistake _ (some position) => mistake.text ++ " at position " ++ toString position
  | malformed mistake _ none => mistake.text
  | undefined cause _ => cause.text

def Error.formula : Error → String
  | malformed _ formula _ => formula
  | undefined _ formula => formula

def Error.position? : Error → Option Nat
  | malformed _ _ position => position
  | undefined _ _ => none

end ExperienceCurves.Formula
