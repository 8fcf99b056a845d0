import ExperienceCurves.Json

/-!
Requests: a method, a path, named parameters after a question mark and a body. The path comes
decoded, the parameters do not.
-/
namespace ExperienceCurves.Service

inductive Method
  | get
  | put
  | post
  | delete
  | patch
  | other
  deriving DecidableEq

def Method.ofText : String → Method
  | "GET" => get
  | "PUT" => put
  | "POST" => post
  | "DELETE" => delete
  | "PATCH" => patch
  | _ => other

inductive Body
  | empty
  | malformed
  /-- Past the limits of what is read at all. -/
  | unreadable
  | value (v : Json.Value)

namespace Body

/-- A body of plain data. -/
def data (d : Datum) : Body := value (.ofDatum d)

/-- The value of a written body, which a mark of the byte order may precede. -/
def ofText (text : String) : Body :=
  if text = "" then empty
  else
    let unmarked := match text.toList with
      | '\uFEFF' :: rest => String.ofList rest
      | _ => text
    match Json.read unmarked with
    | .ok v => value v
    | .error .malformed => malformed
    | .error _ => unreadable

end Body

structure Request where
  method : Method
  path : String
  query : String
  body : Body

/-- The texts between the separators. -/
def pieces (separator : Char) : List Char → List (List Char)
  | [] => [[]]
  | c :: rest =>
      if c = separator then [] :: pieces separator rest
      else match pieces separator rest with
        | piece :: others => (c :: piece) :: others
        | [] => [[c]]

theorem pieces_ne_nil (separator : Char) (text : List Char) : pieces separator text ≠ [] := by
  cases text with
  | nil => simp [pieces]
  | cons c rest =>
    unfold pieces
    split
    · simp
    · split <;> simp

/-- The bytes of a written parameter: a plus stands for a blank, and a percent sign with two
hexadecimal digits for any byte. -/
def bytes : List Char → List UInt8
  | [] => []
  | '+' :: rest => 32 :: bytes rest
  | '%' :: high :: low :: rest =>
      match Json.hexValue? high, Json.hexValue? low with
      | some h, some l => UInt8.ofNat (16 * h + l) :: bytes rest
      | _, _ => 37 :: bytes (high :: low :: rest)
  | c :: rest => c.toString.toUTF8.toList ++ bytes rest

/-- The text that bytes encode; bytes that encode none are replaced. -/
def textOfBytes (bs : List UInt8) : String :=
  match String.fromUTF8? ⟨bs.toArray⟩ with
  | some s => s
  | none => String.ofList (bs.map fun b => if b < 128 then Char.ofNat b.toNat else '\uFFFD')

def decoded (written : List Char) : String := textOfBytes (bytes written)

/-- The parameters by name, in order. -/
def parameters (query : String) : List (String × String) :=
  (pieces '&' query.toList).map fun piece =>
    (decoded (piece.takeWhile (· ≠ '=')), decoded ((piece.dropWhile (· ≠ '=')).drop 1))

/-- A parameter; of several with the same name the last one counts. -/
def Request.parameter? (r : Request) (name : String) : Option String :=
  ((parameters r.query).reverse.find? fun parameter => parameter.1 = name).map Prod.snd

end ExperienceCurves.Service
