import EventMetrics.Event
import EventMetrics.Instant
import EventMetrics.Json.Reader
import EventMetrics.Text.Classes
import EventMetrics.Text.Quoted

namespace EventMetrics.Event

inductive DecodeError
  | notAnObject
  | missingAtom
  | missingTimestamp
  | fieldsNotAnObject
  | unsupportedField (path : String)
  | invalidJson
  deriving DecidableEq, Repr

def DecodeError.message : DecodeError → String
  | notAnObject => "event is not a JSON object"
  | missingAtom => "event has no integer \"atom\""
  | missingTimestamp => "event has no integer \"ts\""
  | fieldsNotAnObject => "event \"fields\" is not an object"
  | unsupportedField path => s!"field {Text.quote path} has an unsupported value"
  | invalidJson => "invalid JSON"

def isSmall (n : Int) : Bool := -2147483648 ≤ n && n ≤ 2147483647

def smallInt? : Json → Option Int
  | .int n => if isSmall n then some n else none
  | _ => none

def instant? : Json → Option Int
  | .int n => if Instant.InRange n then some n else none
  | _ => none

def enum? : List (String × Json) → Option Json
  | [(name, v)] => if name = "enum" then some v else none
  | _ => none

/-- A whole number beyond the signed range counts as real. -/
def ofWhole (n : Int) : Value :=
  if Instant.InRange n then .int n else .real (Float.ofInt n)

mutual

def leaves (path : String) : Json → Except DecodeError (List (String × Value))
  | .null => .ok []
  | .bool b => .ok [(path, .int (if b then 1 else 0))]
  | .int n => .ok [(path, ofWhole n)]
  | .real x => .ok [(path, .real x)]
  | .string s => .ok [(path, .text s)]
  | .array items => itemLeaves path 0 items
  | .object members =>
    match enum? members with
    | some v =>
      match smallInt? v with
      | some n => .ok [(path, .ordinal n)]
      | none => .error (.unsupportedField path)
    | none => memberLeaves (path ++ ".") members

def itemLeaves (path : String) (index : Nat) : List Json → Except DecodeError (List (String × Value))
  | [] => .ok []
  | v :: rest => do
    let first ← leaves (path ++ "." ++ toString index) v
    let others ← itemLeaves path (index + 1) rest
    return first ++ others

def memberLeaves (stem : String) : List (String × Json) → Except DecodeError (List (String × Value))
  | [] => .ok []
  | (name, v) :: rest => do
    let first ← leaves (stem ++ name) v
    let others ← memberLeaves stem rest
    return first ++ others

end

def ofJson (j : Json) : Except DecodeError Event := do
  let .object members := j | throw .notAnObject
  let some atom := Json.member? "atom" members >>= smallInt? | throw .missingAtom
  let some time := Json.member? "ts" members >>= instant? | throw .missingTimestamp
  match Json.member? "fields" members with
  | none => return { atom, time }
  | some (.object fields) => return { atom, time, fields := Table.ofList (← memberLeaves "" fields) }
  | some _ => throw .fieldsNotAnObject

def nestingLimit : Nat := 127

def ofLine (line : String) : Except DecodeError Event :=
  match Json.read? nestingLimit line with
  | some j => ofJson j
  | none => .error .invalidJson

def linesOf (text : String) : List (Nat × String) :=
  let lines := (text.splitOn "\n").map Text.trim
  ((List.range lines.length).zip lines).filterMap fun (i, line) =>
    if line.isEmpty || line.startsWith "#" then none else some (i + 1, line)

def decodeLines (text : String) : List (Nat × Except DecodeError Event) :=
  (linesOf text).map fun (number, line) => (number, ofLine line)

end EventMetrics.Event
