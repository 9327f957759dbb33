import EventMetrics.Config
import EventMetrics.Json.Printer
import EventMetrics.Log.Filter

namespace EventMetrics

namespace Log

inductive Level
  | error
  | warn
  | info
  | debug
  | trace
  deriving DecidableEq, Repr

def Level.rank : Level → Nat
  | error => 1
  | warn => 2
  | info => 3
  | debug => 4
  | trace => 5

def Level.name : Level → String
  | error => "ERROR"
  | warn => "WARN"
  | info => "INFO"
  | debug => "DEBUG"
  | trace => "TRACE"

def filterText (l : Logging) : String :=
  l.modules.entries.foldl (fun s e => s ++ "," ++ e.1 ++ "=" ++ e.2) l.level

structure Entry where
  level : Level
  target : String
  domain : String
  message : String
  fields : List (String × Json) := []

def Entry.fieldNames (e : Entry) : List String := ["message", "domain"] ++ e.fields.map (·.1)

def Filter.lets (f : Filter) (e : Entry) : Bool := e.level.rank ≤ f.threshold e.target e.fieldNames

def renderField : String × Json → String
  | (name, .string s) => name ++ "=" ++ s
  | (name, v) => name ++ "=" ++ v.render

def Entry.plainLine (e : Entry) : String :=
  let level := String.ofList (List.replicate (5 - e.level.name.length) ' ') ++ e.level.name
  " ".intercalate ([level, "[" ++ e.domain ++ "]", e.message] ++ e.fields.map renderField)

def Entry.toJson (e : Entry) : Json :=
  .object [("level", .string e.level.name),
    ("fields",
      .object ([("message", .string e.message), ("domain", .string e.domain)] ++ e.fields))]

def Entry.line (e : Entry) : LogFormat → String
  | .plain => e.plainLine
  | .json => e.toJson.render

end Log

end EventMetrics
