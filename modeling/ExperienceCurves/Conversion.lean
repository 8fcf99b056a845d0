import ExperienceCurves.Failure

/-!
Reading typed values out of plain data. Texts that hold a numeral convert as well as numbers do;
everything else is refused with the cause.
-/
namespace ExperienceCurves.Datum

/-- The data as a text of its own, if all its whole numbers can be written. -/
def written (d : Datum) : Outcome String :=
  if d.isWritable then .ok d.toText else .error (.refused .tooLongInDigits)

/-- A value for arithmetic, where texts do not count as numbers. -/
def toNumber : Datum → Outcome Number
  | number n => .ok n
  | _ => .error Fault.notNumber

/-- The whole number that a text stands for. -/
def wholeOfText (s : String) : Outcome Int :=
  let digits := Numeral.leadingDigits s
  if Numeral.longest < digits.length then .error (.refused (.tooManyDigits digits.length))
  else match Numeral.int? s with
    | some n => .ok n
    | none => .error (.refused (.notWhole s))

/-- A whole number, cutting fractions toward zero. -/
def toInt : Datum → Outcome Int
  | number n => Outcome.ofFault n.truncate
  | text s => wholeOfText s
  | _ => .error .wrongShape

/-- A whole number that counts, which has to be one already. -/
def toCount : Datum → Outcome Int
  | number n =>
      match n.plain with
      | .int count => .ok count
      | _ => .error .wrongShape
  | _ => .error .wrongShape

def toBinary64 : Datum → Outcome Binary64
  | number n => Outcome.ofFault n.toBinary64
  | text s =>
      match Numeral.binary64? s with
      | some x => .ok x
      | none => .error (.refused (.notDecimal s))
  | _ => .error .wrongShape

/-- A field that has to be there. -/
def field (name : String) : Datum → Outcome Datum
  | record fields =>
      match lookup name fields with
      | some value => .ok value
      | none => .error (.missing (.text name))
  | _ => .error .wrongShape

/-- A field that may be missing. -/
def field? (name : String) : Datum → Outcome (Option Datum)
  | record fields => .ok (lookup name fields)
  | _ => .error .notRecord

def fieldOr (d : Datum) (name : String) (fallback : Datum) : Outcome Datum := do
  return (← d.field? name).getD fallback

/-- A list, where an empty value of any kind counts as an empty list. -/
def toItems (d : Datum) : Outcome (List Datum) :=
  if d.isTruthy then
    match d with
    | list items => .ok items
    | _ => .error .wrongShape
  else .ok []

/-- The fields of a record, where an empty value of any kind counts as an empty record. -/
def toFields (d : Datum) : Outcome (List (String × Datum)) :=
  if d.isTruthy then
    match d with
    | record fields => .ok fields
    | _ => .error .notRecord
  else .ok []

end ExperienceCurves.Datum
