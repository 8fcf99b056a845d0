import ExperienceCurves.Number
import ExperienceCurves.Text.Quoted

/-!
Plain data, as stored configurations and messages hold it: nothing, numbers, texts, lists and
records. A record lists its fields in order and has each name once.
-/
namespace ExperienceCurves

inductive Datum
  | null
  | number (n : Number)
  | text (s : String)
  | list (items : List Datum)
  | record (fields : List (String × Datum))

namespace Datum

instance : Coe Number Datum := ⟨number⟩
instance : Coe String Datum := ⟨text⟩

def int (n : Int) : Datum := number (.int n)

def truth (b : Bool) : Datum := number (.truth b)

def real (x : Binary64) : Datum := number (.real x)

def ofOption (convert : α → Datum) : Option α → Datum
  | some a => convert a
  | none => null

/-- Nothing, zero, and what is empty count as false. -/
def isTruthy : Datum → Bool
  | null => false
  | number n => !n.isZero
  | text s => s ≠ ""
  | list items => !items.isEmpty
  | record fields => !fields.isEmpty

def lookup (name : String) (fields : List (String × Datum)) : Option Datum :=
  (fields.find? fun field => field.1 = name).map Prod.snd

/-- Set a field, in place if its name is there already. -/
def store (name : String) (value : Datum) : List (String × Datum) → List (String × Datum)
  | [] => [(name, value)]
  | field :: rest =>
      if field.1 = name then (name, value) :: rest else field :: store name value rest

mutual

/-- The data as messages show it, with texts in quotes. -/
def shown : Datum → String
  | null => "None"
  | number n => n.text
  | text s => Text.quoted s
  | list items => "[" ++ ", ".intercalate (shownItems items) ++ "]"
  | record fields => "\x7b" ++ ", ".intercalate (shownFields fields) ++ "\x7d"

def shownItems : List Datum → List String
  | [] => []
  | item :: rest => shown item :: shownItems rest

def shownFields : List (String × Datum) → List String
  | [] => []
  | (name, value) :: rest => (Text.quoted name ++ ": " ++ shown value) :: shownFields rest

end

mutual

/-- Whether all numbers are finite. -/
def isFinite : Datum → Bool
  | number (.real x) => x.isFinite
  | list items => areFinite items
  | record fields => fieldsAreFinite fields
  | _ => true

def areFinite : List Datum → Bool
  | [] => true
  | item :: rest => isFinite item && areFinite rest

def fieldsAreFinite : List (String × Datum) → Bool
  | [] => true
  | (_, value) :: rest => isFinite value && fieldsAreFinite rest

end

mutual

/-- Whether all whole numbers can be written. -/
def isWritable : Datum → Bool
  | number n => n.isWritable
  | list items => areWritable items
  | record fields => fieldsAreWritable fields
  | _ => true

def areWritable : List Datum → Bool
  | [] => true
  | item :: rest => isWritable item && areWritable rest

def fieldsAreWritable : List (String × Datum) → Bool
  | [] => true
  | (_, value) :: rest => isWritable value && fieldsAreWritable rest

end

/-- The data as a text of its own: texts stand for themselves. -/
def toText : Datum → String
  | text s => s
  | d => d.shown

end Datum

end ExperienceCurves
