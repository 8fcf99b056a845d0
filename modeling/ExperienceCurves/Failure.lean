import ExperienceCurves.Datum
import ExperienceCurves.Formula.Error
import ExperienceCurves.Numeral
import ExperienceCurves.Text.Word

/-!
Everything that can go wrong, by cause. An operation that fails has no effect: its caller still
holds the value it started from.
-/
namespace ExperienceCurves

/-- Why a level range is refused. -/
inductive RangeCause
  | reversed
  | outside (maxLevel : Datum)
  | wrongMode (id : String) (bezierMode : Bool)
  | tooManySegments (count : Nat)
  | noRoomForStart
  | noRoomForEnd (maxLevel : Datum)
  | noControlPoints

/-- A refused range with its bounds as they were given. -/
structure RangeError where
  cause : RangeCause
  startLevel : Datum
  endLevel : Datum

/-- Why a value of the right kind is refused. -/
inductive Refusal
  | notDecimal (text : String)
  | notWhole (text : String)
  | tooManyDigits (count : Nat)
  | tooLongInDigits
  | notEndpoint (value : Datum)
  | notGrowth (value : Datum)
  | maxLevelTooLow (maxLevel : Number)
  | levelOutside (level : Int) (maxLevel : Number)
  | negativeExp (exp : Number)
  | negativeGrant (amount : Number)
  | tooFewPoints
  | notPair (index length : Nat)
  /-- A torn word after so many characters of what is written. -/
  | notEncodable (offset : Nat) (t : Torn)

inductive Failure
  | arithmetic (fault : Fault)
  | wrongShape
  | notRecord
  | missing (name : Word)
  | refused (refusal : Refusal)
  | formula (error : Formula.Error)
  | range (error : RangeError)
  | uncovered (level : Number)
  | unknownSegment (id : Datum)

namespace RangeError

/-- What the message shows. -/
def shown (e : RangeError) : List Datum :=
  match e.cause with
  | .reversed => [e.startLevel, e.endLevel]
  | .outside maxLevel => [e.startLevel, e.endLevel, maxLevel]
  | .tooManySegments _ => [e.startLevel, e.endLevel]
  | .noRoomForStart => [e.endLevel]
  | .noRoomForEnd maxLevel => [e.startLevel, maxLevel]
  | .wrongMode .. | .noControlPoints => []

def message (e : RangeError) : String :=
  let start := e.startLevel.toText
  let finish := e.endLevel.toText
  match e.cause with
  | .reversed => "startLevel (" ++ start ++ ") must be lower than endLevel (" ++ finish ++ ")"
  | .outside maxLevel =>
      "Range [" ++ start ++ ", " ++ finish ++ "] outside [1, " ++ maxLevel.toText ++ "]"
  | .wrongMode id bezierMode =>
      "Segment " ++ Text.quoted id ++ " does not match the curve's " ++
        (if bezierMode then "Bezier" else "formula") ++ " mode"
  | .tooManySegments count =>
      "Cannot fit " ++ toString count ++ " segments into [" ++ start ++ ", " ++ finish ++ "]"
  | .noRoomForStart => "Segment ending at " ++ finish ++ " leaves no room for its start"
  | .noRoomForEnd maxLevel =>
      "Segment starting at " ++ start ++ " leaves no room below max level " ++ maxLevel.toText
  | .noControlPoints => "Formula segments have no control points"

end RangeError

/-- What the message of a refusal shows. -/
def Refusal.shown : Refusal → List Datum
  | notEndpoint value => [value]
  | notGrowth value => [value]
  | maxLevelTooLow maxLevel => [.number maxLevel]
  | levelOutside level maxLevel => [.number maxLevel, .int level]
  | negativeExp exp => [.number exp]
  | negativeGrant amount => [.number amount]
  | _ => []

def Refusal.message : Refusal → String
  | notDecimal text => "could not convert string to float: " ++ Text.quoted text
  | notWhole text => "invalid literal for int() with base 10: " ++ Text.quoted text
  | tooManyDigits count =>
      "Exceeds the limit (" ++ toString Numeral.longest ++
        " digits) for integer string conversion: value has " ++ toString count ++
        " digits; use sys.set_int_max_str_digits() to increase the limit"
  | tooLongInDigits =>
      "Exceeds the limit (" ++ toString Numeral.longest ++
        " digits) for integer string conversion; use sys.set_int_max_str_digits() to increase the limit"
  | notEndpoint value => value.shown ++ " is not a valid EndpointKind"
  | notGrowth value => "type must be 'linear' or 'exponential', got " ++ value.shown
  | maxLevelTooLow maxLevel => "max_level must be >= 1, got " ++ maxLevel.text
  | levelOutside level maxLevel =>
      "level must be in [1, " ++ maxLevel.text ++ "], got " ++ toString level
  | negativeExp exp => "exp must be >= 0, got " ++ exp.text
  | negativeGrant amount => "exp_gained must be >= 0, got " ++ amount.text
  | tooFewPoints => "num_points must be >= 2"
  | notPair index length =>
      "dictionary update sequence element #" ++ toString index ++ " has length " ++
        toString length ++ "; 2 is required"
  | notEncodable offset t => t.trouble offset fun _ => 1

namespace Failure

instance : Coe Fault Failure := ⟨arithmetic⟩

def message : Failure → String
  | arithmetic fault => fault.message
  | wrongShape => "value has the wrong shape"
  | notRecord => "value has no fields"
  | missing name => name.mended
  | refused refusal => refusal.message
  | formula error => error.message
  | range error => error.message
  | uncovered level => "No segment covers level " ++ level.text
  | unknownSegment id => "Segment '" ++ id.toText ++ "' not found"

/-- What the message shows. -/
def shown : Failure → List Datum
  | refused refusal => refusal.shown
  | range error => error.shown
  | uncovered level => [.number level]
  | unknownSegment id => [id]
  | _ => []

/-- What becomes of a failure when its message is written: a whole number with too many digits fails
in its place. -/
def written (failure : Failure) : Failure :=
  if failure.shown.all Datum.isWritable then failure else refused .tooLongInDigits

/-- The message of the failure shows a whole number that is too long to be written. -/
def IsLong (failure : Failure) : Prop := ∃ d ∈ failure.shown, d.isWritable = false

theorem written_of_isLong {failure : Failure} (h : failure.IsLong) :
    failure.written = refused .tooLongInDigits := by
  obtain ⟨d, hd, hlong⟩ := h
  refine if_neg fun hall => ?_
  cases hlong.symm.trans (List.all_eq_true.1 hall d hd)

theorem written_of_not_isLong {failure : Failure} (h : ¬failure.IsLong) :
    failure.written = failure :=
  if_pos (List.all_eq_true.2 fun d hd => Bool.of_not_eq_false fun hlong => h ⟨d, hd, hlong⟩)

/-- A message that shows whole numbers is written if all of them are. -/
theorem written_of_shown {failure : Failure} {numbers : List Int}
    (h : failure.shown = numbers.map Datum.int) :
    failure.written =
      if numbers.all Numeral.isWritable then failure else refused .tooLongInDigits := by
  rw [written, h, List.all_map]
  rfl

/-- A failure by its code, its message and what it is about. Only the failures of formulas and
curves have one; failures of plain data have just a message. -/
def report? (failure : Failure) : Option Datum :=
  let report (code : String) (details : Datum) : Option Datum :=
    some (.record [("error", .text code), ("message", .text failure.message), ("details", details)])
  match failure with
  | formula error =>
      let code := match error with
        | .malformed .. => "formula_syntax"
        | .undefined .. => "formula_domain"
      report code (.record [("formula", .text error.formula),
        ("position", Datum.ofOption (fun n : Nat => .int n) error.position?)])
  | range error =>
      report "invalid_segment_range" (.record [("start_level", error.startLevel),
        ("end_level", error.endLevel)])
  | uncovered _ => report "no_matching_segment" .null
  | unknownSegment _ => report "segment_not_found" .null
  | _ => none

/-- Whether a formula is to blame. -/
def isFormula : Failure → Bool
  | formula _ => true
  | _ => false

end Failure

abbrev Outcome := Except Failure

/-- Write a line with a word in it after its first characters. -/
def Word.printed (start : String) : Word → Outcome Unit
  | text _ => .ok ()
  | torn t => .error (.refused (.notEncodable start.length t))

/-- Carry a computation's fault into an outcome. -/
def Outcome.ofFault : Except Fault α → Outcome α
  | .ok a => .ok a
  | .error fault => .error fault

instance : MonadLift (Except Fault) Outcome := ⟨Outcome.ofFault⟩

namespace Outcome

@[simp] theorem liftM_ok (a : α) : (liftM (Except.ok a : Except Fault α) : Outcome α) = .ok a := rfl

theorem ofFault_eq_ok_iff {x : Except Fault α} {a : α} : ofFault x = .ok a ↔ x = .ok a := by
  cases x <;> simp [ofFault]

theorem ofFault_eq_error_iff {x : Except Fault α} {failure : Failure} :
    ofFault x = .error failure ↔ ∃ fault, x = .error fault ∧ failure = .arithmetic fault := by
  cases x <;> simp [ofFault, eq_comm]

theorem liftM_eq_ok_iff {x : Except Fault α} {a : α} : (liftM x : Outcome α) = .ok a ↔ x = .ok a :=
  ofFault_eq_ok_iff

theorem bind_eq_ok_iff {x : Except ε α} {f : α → Except ε β} {b : β} :
    x >>= f = .ok b ↔ ∃ a, x = .ok a ∧ f a = .ok b := by
  cases x with
  | error failure => simp [bind, Except.bind]
  | ok a => simp [bind, Except.bind]

theorem eq_ok_of_toOption {x : Except ε α} {a : α} (h : x.toOption = some a) : x = .ok a := by
  cases x with
  | error failure => cases h
  | ok b => exact congrArg Except.ok (Option.some.inj h)

theorem exists_of_isOk {x : Except ε α} (h : x.isOk = true) : ∃ a, x = .ok a := by
  cases x with
  | error failure => cases h
  | ok a => exact ⟨a, rfl⟩

theorem map_eq_ok_iff {x : Except ε α} {f : α → β} {b : β} :
    f <$> x = .ok b ↔ ∃ a, x = .ok a ∧ f a = b := by
  cases x with
  | error failure => simp [Functor.map, Except.map]
  | ok a => simp [Functor.map, Except.map]

theorem bind_eq_error_iff {x : Except ε α} {f : α → Except ε β} {failure : ε} :
    x >>= f = .error failure ↔ x = .error failure ∨ ∃ a, x = .ok a ∧ f a = .error failure := by
  cases x with
  | error failure => simp [bind, Except.bind]
  | ok a => simp [bind, Except.bind]

end Outcome

end ExperienceCurves
