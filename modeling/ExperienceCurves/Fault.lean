/-!
Why a computation has no result. Where operands are of kinds that do not go together, the fault
names the operation and the kinds.
-/
namespace ExperienceCurves

/-- Kinds of plain data. -/
inductive Kind
  | nothing
  | truth
  | whole
  | binary
  | text
  | list
  | record
  deriving DecidableEq

def Kind.word : Kind → String
  | nothing => "NoneType"
  | truth => "bool"
  | whole => "int"
  | binary => "float"
  | text => "str"
  | list => "list"
  | record => "dict"

/-- Questions about the order of two values. -/
inductive Relation
  | below
  | atMost
  | above
  | atLeast
  deriving DecidableEq

def Relation.symbol : Relation → String
  | below => "<"
  | atMost => "<="
  | above => ">"
  | atLeast => ">="

/-- Operations that need operands of fitting kinds. -/
inductive Operation
  | sum
  | difference
  | product
  deriving DecidableEq

def Operation.symbol : Operation → String
  | sum => "+"
  | difference => "-"
  | product => "*"

inductive Fault
  | notNumber
  | divisionByZero
  | integerTooLarge
  | quotientTooLarge
  | powerTooLarge
  | infinityAsInteger
  | nanAsInteger
  | tooOften
  | unordered (relation : Relation) (left right : Kind)
  | operands (operation : Operation) (left right : Kind)
  | notCount (factor : Kind)
  | noMagnitude (kind : Kind)
  deriving DecidableEq

def Fault.message : Fault → String
  | notNumber => "not a number"
  | divisionByZero => "division by zero"
  | integerTooLarge => "int too large to convert to float"
  | quotientTooLarge => "integer division result too large for a float"
  | powerTooLarge => "(34, 'Numerical result out of range')"
  | infinityAsInteger => "cannot convert float infinity to integer"
  | nanAsInteger => "cannot convert float NaN to integer"
  | tooOften => "cannot fit 'int' into an index-sized integer"
  | unordered relation left right =>
      "'" ++ relation.symbol ++ "' not supported between instances of '" ++ left.word ++
        "' and '" ++ right.word ++ "'"
  | operands operation left right =>
      "unsupported operand type(s) for " ++ operation.symbol ++ ": '" ++ left.word ++ "' and '" ++
        right.word ++ "'"
  | notCount factor => "can't multiply sequence by non-int of type '" ++ factor.word ++ "'"
  | noMagnitude kind => "bad operand type for abs(): '" ++ kind.word ++ "'"

/-- Whether a result left the range of its numbers. -/
def Fault.isOverflow : Fault → Bool
  | integerTooLarge | quotientTooLarge | powerTooLarge | infinityAsInteger | tooOften => true
  | _ => false

end ExperienceCurves
