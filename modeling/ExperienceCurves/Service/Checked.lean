import ExperienceCurves.Json.Value

/-!
Checked values: what a request gives is either a value or a list of complaints, each with the place
of the flaw. Values that belong together are checked together, so that one answer names every
flaw, in the order of the fields.
-/
namespace ExperienceCurves.Service

inductive Flaw
  | missing
  | malformed
  | notRecord
  | notList
  | notText
  | notUnicode
  | textTooShort
  | textTooLong
  | notWhole
  | unreadableWhole
  | wholeTooLarge
  | fractional
  | notFinite
  | notDecimal
  | unreadableDecimal
  | tooLow
  | tooHigh
  | notTruth
  | unreadableTruth
  | notChoice
  | refused (message : String)
  deriving DecidableEq

def Flaw.code : Flaw → String
  | missing => "missing"
  | malformed => "json_invalid"
  | notRecord => "model_attributes_type"
  | notList => "list_type"
  | notText => "string_type"
  | notUnicode => "string_unicode"
  | textTooShort => "string_too_short"
  | textTooLong => "string_too_long"
  | notWhole => "int_type"
  | unreadableWhole => "int_parsing"
  | wholeTooLarge => "int_parsing_size"
  | fractional => "int_from_float"
  | notFinite => "finite_number"
  | notDecimal => "float_type"
  | unreadableDecimal => "float_parsing"
  | tooLow => "greater_than_equal"
  | tooHigh => "less_than_equal"
  | notTruth => "bool_type"
  | unreadableTruth => "bool_parsing"
  | notChoice => "enum"
  | refused _ => "value_error"

/-- A step on the way to a place in a request. -/
inductive Step
  | name (s : String)
  | index (n : Nat)
  deriving DecidableEq

instance : Coe String Step := ⟨Step.name⟩

/-- A flaw, its place, and what was given there. -/
structure Complaint where
  flaw : Flaw
  place : List Step
  given : Json.Value

namespace Complaint

def toDatum (c : Complaint) : Datum :=
  let place := c.place.map fun
    | .name s => .text s
    | .index n => .int n
  .record ([("type", .text c.flaw.code), ("loc", .list place)] ++
    match c.flaw with
    | .refused message => [("msg", .text ("Value error, " ++ message))]
    | _ => [])

def under (step : Step) (c : Complaint) : Complaint := { c with place := step :: c.place }

end Complaint

inductive Checked (α : Type)
  | valid (a : α)
  | invalid (complaints : List Complaint)

namespace Checked

def refuse (flaw : Flaw) (given : Json.Value) : Checked α := invalid [⟨flaw, [], given⟩]

def map (f : α → β) : Checked α → Checked β
  | valid a => valid (f a)
  | invalid complaints => invalid complaints

/-- The complaints of both sides are kept. -/
def seq : Checked (α → β) → Checked α → Checked β
  | valid f, valid a => valid (f a)
  | valid _, invalid complaints => invalid complaints
  | invalid complaints, valid _ => invalid complaints
  | invalid complaints, invalid more => invalid (complaints ++ more)

instance : Applicative Checked where
  pure := valid
  map := map
  seq f a := seq f (a ())

/-- A further condition on a valid value that was read from what is given. -/
def filter (given : Json.Value) (condition : α → Bool) (flaw : α → Flaw) : Checked α → Checked α
  | valid a => if condition a then valid a else refuse (flaw a) given
  | invalid complaints => invalid complaints

/-- Complaints as seen from one step further outside. -/
def under (step : Step) : Checked α → Checked α
  | valid a => valid a
  | invalid complaints => invalid (complaints.map (Complaint.under step))

/-- All elements, or the complaints of all of them under their indices. -/
def allFrom (index : Nat) : List (Checked α) → Checked (List α)
  | [] => valid []
  | a :: rest => List.cons <$> a.under (.index index) <*> allFrom (index + 1) rest

def all (elements : List (Checked α)) : Checked (List α) := allFrom 0 elements

end Checked

end ExperienceCurves.Service
