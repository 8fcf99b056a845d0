import ExperienceCurves.Datum
import ExperienceCurves.Text.Word

/-!
Values: the data of a JSON text. They are plain data, except that their texts and names may be torn.
-/
namespace ExperienceCurves.Json

inductive Value
  | null
  | number (n : Number)
  | text (w : Word)
  | list (items : List Value)
  | record (fields : List (Word × Value))

namespace Value

instance : Coe Number Value := ⟨number⟩

/-- Set a field, in place if its name is there already. -/
def store (name : Word) (value : Value) : List (Word × Value) → List (Word × Value)
  | [] => [(name, value)]
  | field :: rest =>
      if field.1 = name then (name, value) :: rest else field :: store name value rest

mutual

def ofDatum : Datum → Value
  | .null => null
  | .number n => number n
  | .text s => text s
  | .list items => list (ofItems items)
  | .record fields => record (ofFields fields)

def ofItems : List Datum → List Value
  | [] => []
  | item :: rest => ofDatum item :: ofItems rest

def ofFields : List (String × Datum) → List (Word × Value)
  | [] => []
  | (name, value) :: rest => (.text name, ofDatum value) :: ofFields rest

end

mutual

/-- The plain data with torn words mended. -/
def mended : Value → Datum
  | null => .null
  | number n => .number n
  | text w => .text w.mended
  | list items => .list (mendedItems items)
  | record fields => .record (mendedFields [] fields)

def mendedItems : List Value → List Datum
  | [] => []
  | item :: rest => mended item :: mendedItems rest

def mendedFields (before : List (String × Datum)) : List (Word × Value) → List (String × Datum)
  | [] => before
  | (name, value) :: rest => mendedFields (Datum.store name.mended (mended value) before) rest

end

mutual

/-- Whether all numbers are finite. -/
def isFinite : Value → Bool
  | number (.real x) => x.isFinite
  | list items => areFinite items
  | record fields => fieldsAreFinite fields
  | _ => true

def areFinite : List Value → Bool
  | [] => true
  | item :: rest => isFinite item && areFinite rest

def fieldsAreFinite : List (Word × Value) → Bool
  | [] => true
  | (_, value) :: rest => isFinite value && fieldsAreFinite rest

end

mutual

/-- The torn words, in order. -/
def tornWords : Value → List Torn
  | text (.torn t) => [t]
  | list items => tornInItems items
  | record fields => tornInFields fields
  | _ => []

def tornInItems : List Value → List Torn
  | [] => []
  | item :: rest => tornWords item ++ tornInItems rest

def tornInFields : List (Word × Value) → List Torn
  | [] => []
  | (.torn t, value) :: rest => t :: (tornWords value ++ tornInFields rest)
  | (.text _, value) :: rest => tornWords value ++ tornInFields rest

end

end Value

end ExperienceCurves.Json
