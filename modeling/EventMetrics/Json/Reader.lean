import EventMetrics.Json.Number
import EventMetrics.Json.Token
import EventMetrics.Table

namespace EventMetrics.Json

inductive Frame
  | array (items : List Json)
  | object (members : Table String Json) (name : String)

inductive Expect
  | value
  | itemOrClose
  | name
  | nameOrClose
  | colon (name : String)
  | commaOrClose

structure Build where
  stack : List Frame
  expect : Expect

inductive Progress
  | building (b : Build)
  | done (v : Json)

def place (v : Json) : List Frame → Progress
  | [] => .done v
  | .array items :: rest =>
    .building ⟨.array (v :: items) :: rest, .commaOrClose⟩
  | .object members name :: rest =>
    .building ⟨.object (members.insert name v) name :: rest, .commaOrClose⟩

def word? (text : List Char) : Option Json :=
  if text = "null".toList then some .null
  else if text = "true".toList then some (.bool true)
  else if text = "false".toList then some (.bool false)
  else number? text

def startValue (limit : Nat) (b : Build) : Token → Option Progress
  | .string s => some (place (.string s) b.stack)
  | .plain text => (word? text).map (place · b.stack)
  | .mark '[' =>
    if b.stack.length < limit then
      some (.building ⟨.array [] :: b.stack, .itemOrClose⟩)
    else none
  | .mark '{' =>
    if b.stack.length < limit then
      some (.building ⟨.object .empty "" :: b.stack, .nameOrClose⟩)
    else none
  | .mark _ => none

def closeArray (b : Build) : Option Progress :=
  match b.stack with
  | .array items :: rest => some (place (.array items.reverse) rest)
  | _ => none

def closeObject (b : Build) : Option Progress :=
  match b.stack with
  | .object members _ :: rest => some (place (.object members.entries) rest)
  | _ => none

def takeName (b : Build) : Token → Option Progress
  | .string s => some (.building { b with expect := .colon s })
  | _ => none

def continueFrame (b : Build) (t : Token) : Option Progress :=
  match t, b.stack with
  | .mark ',', .array _ :: _ => some (.building { b with expect := .value })
  | .mark ',', .object .. :: _ => some (.building { b with expect := .name })
  | .mark ']', _ => closeArray b
  | .mark '}', _ => closeObject b
  | _, _ => none

def Build.step (limit : Nat) (b : Build) (t : Token) : Option Progress :=
  match b.expect with
  | .value => startValue limit b t
  | .itemOrClose => if t = .mark ']' then closeArray b else startValue limit b t
  | .name => takeName b t
  | .nameOrClose => if t = .mark '}' then closeObject b else takeName b t
  | .colon name =>
    match t, b.stack with
    | .mark ':', .object members _ :: rest =>
      some (.building ⟨.object members name :: rest, .value⟩)
    | _, _ => none
  | .commaOrClose => continueFrame b t

def build (limit : Nat) : Progress → List Token → Option Json
  | .done v, [] => some v
  | .building _, [] => none
  | .done _, _ :: _ => none
  | .building b, t :: rest =>
    match b.step limit t with
    | none => none
    | some p => build limit p rest

/-- The value of a text with at most `limit` nested arrays and objects. -/
def read? (limit : Nat) (text : String) : Option Json := do
  build limit (.building ⟨[], .value⟩) (← tokens? text)

end EventMetrics.Json
