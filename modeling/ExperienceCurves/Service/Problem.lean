import ExperienceCurves.Failure
import ExperienceCurves.Service.Checked

/-!
Problems: why a request is not answered as asked, and the responses that say so. A failure of
curves and formulas is reported with its code; a failure of plain data is nothing that a request
should have been able to cause, and counts as internal.
-/
namespace ExperienceCurves.Service

structure Response where
  status : Nat
  body : Datum

inductive Problem
  /-- Another path, without slashes at its end, is the one to ask. -/
  | redirected
  | unknownPath (path : String)
  | methodNotAllowed
  | invalid (complaints : List Complaint)
  | notFound (message : String)
  | rejected (status : Nat) (message : String)
  | failed (failure : Failure)
  | internal (message : String)

namespace Problem

/-- A mark that would end the path stands in it by its code. -/
def pathMark : Char → List Char
  | '?' => ['%', '3', 'F']
  | '#' => ['%', '2', '3']
  | c => [c]

/-- The path from its first slash, without line ends and tabs. -/
def shownPath (path : String) : String :=
  let kept := path.toList.filter fun c => c != '\n' && c != '\r' && c != '\t'
  String.ofList ((kept.dropWhile (· ≠ '/')).flatMap pathMark)

def detail (value : Datum) : Datum := .record [("detail", value)]

def report (code message : String) (details : Datum) : Datum :=
  .record [("error", .text code), ("message", .text message), ("details", details)]

def missing (message : String) : Response := ⟨404, report "not_found" message .null⟩

def unexpected (message : String) : Response :=
  ⟨500, report "internal_error" "An unexpected error occurred"
    (.record [("exception", .text message)])⟩

/-- What only finite numbers can be written in. -/
def notWritable : String := "Out of range float values are not JSON compliant"

/-- How much room a code point takes in a message. -/
def width (point : Nat) : Nat :=
  if point ∈ [8, 9, 10, 12, 13, 34, 92] then 2 else if point < 32 then 6 else 1

/-- What becomes of a message that has a torn word in it after its first characters. -/
def cut (start : String) (t : Torn) : Problem := internal (t.trouble start.length width)

/-- A refusal that quotes a word. -/
def about (status : Nat) (start : String) (w : Word) (rest : String) : Problem :=
  match w with
  | .text s => rejected status (start ++ s ++ rest)
  | .torn t => cut ("\x7b\"detail\":\"" ++ start) t

/-- Nothing is found, and the message quotes a word. -/
def absent (start : String) (w : Word) (rest : String) : Problem :=
  match w with
  | .text s => notFound (start ++ s ++ rest)
  | .torn t => cut ("\x7b\"error\":\"not_found\",\"message\":\"" ++ start) t

/-- A segment that is not there is not found; other failures with a report are the request's. -/
def ofFailure (failure : Failure) : Response :=
  match failure.report? with
  | some body =>
      if !body.isFinite then unexpected notWritable
      else match failure with
        | .unknownSegment _ => ⟨404, body⟩
        | _ => ⟨422, body⟩
  | none => unexpected failure.message

/-- A complaint shows what was given, so that has to be writable. Where the first torn word stands
is not known without the wording of the complaints, and it is counted from its own start. -/
def ofComplaints (complaints : List Complaint) : Response :=
  if complaints.all (·.given.isFinite) then
    match complaints.flatMap (·.given.tornWords) with
    | [] => ⟨422, detail (.list (complaints.map Complaint.toDatum))⟩
    | t :: _ => unexpected (t.trouble 0 width)
  else unexpected notWritable

def response : Problem → Response
  | redirected => ⟨307, .null⟩
  | unknownPath path => missing ("Endpoint " ++ shownPath path ++ " not found")
  | methodNotAllowed => ⟨405, detail (.text "Method Not Allowed")⟩
  | invalid complaints => ofComplaints complaints
  | notFound message => missing message
  | rejected status message => ⟨status, detail (.text message)⟩
  | failed failure => ofFailure failure
  | internal message => unexpected message

end Problem

/-- What a request is answered with. -/
abbrev Answer := Except Problem Datum

def Response.ofAnswer : Answer → Response
  | .ok body => ⟨200, body⟩
  | .error problem => problem.response

/-- An outcome whose failure becomes the answer. -/
def answered : Outcome α → Except Problem α
  | .ok a => .ok a
  | .error failure => .error (.failed failure)

end ExperienceCurves.Service
