import EventMetrics.Instant
import EventMetrics.Path
import EventMetrics.Text.Classes

namespace EventMetrics

inductive Command
  | check (config : Path)
  | replay (config events : Path) (time : Option Int)
  /-- Events come from a file, or from standard input where the name is a dash. -/
  | run (config : Path) (events : String) (time : Option Int)
  deriving DecidableEq, Repr

namespace Command

inductive Setting
  | config
  | events
  | finish
  | live
  deriving DecidableEq, Repr

namespace Setting

def long : Setting → String
  | config => "--config"
  | events => "--events"
  | finish => "--until"
  | live => "--live"

def short? : Setting → Option String
  | config => some "-c"
  | events => some "-e"
  | _ => none

end Setting

def after? (start text : String) : Option String :=
  if start.toList.isPrefixOf text.toList then some (String.ofList (text.toList.drop start.length))
  else none

def inlineValue? (s : Setting) (word : String) : Option String :=
  match after? (s.long ++ "=") word with
  | some v => some v
  | none => do
    let v ← after? (← s.short?) word
    if v.isEmpty then none else some ((after? "=" v).getD v)

def isName (s : Setting) (word : String) : Bool := word = s.long || s.short? = some word

def isValue (word : String) : Bool := word = "-" || !word.startsWith "-"

def settings? (known : List Setting) : List String → Option (List (Setting × String))
  | [] => some []
  | word :: rest =>
    if known.contains .live && word = Setting.live.long then
      (settings? known rest).map ((.live, "") :: ·)
    else
      match known.findSome? fun s => if s = .live then none else (inlineValue? s word).map (s, ·) with
      | some e => (settings? known rest).map (e :: ·)
      | none =>
        match known.find? (isName · word), rest with
        | some s, value :: rest =>
          if isValue value then (settings? known rest).map ((s, value) :: ·) else none
        | _, _ => none

def value? (s : Setting) (given : List (Setting × String)) : Option String :=
  (given.find? (·.1 = s)).map (·.2)

def instant? (text : String) : Option Int :=
  let (negative, digits) := match text.toList with
    | '-' :: rest => (true, rest)
    | '+' :: rest => (false, rest)
    | rest => (false, rest)
  if digits.isEmpty || !digits.all Char.isDigit then none
  else
    let n : Int := Text.decimalValue digits
    let n := if negative then -n else n
    if Instant.InRange n then some n else none

def end? (given : List (Setting × String)) : Option (Option Int) :=
  match value? .finish given with
  | none => some none
  | some text => (instant? text).map some

def ofArguments? : List String → Option Command
  | "check" :: rest => do
    let given ← settings? [.config] rest
    if !(given.map (·.1)).Nodup then none
    some (.check ⟨← value? .config given⟩)
  | "replay" :: rest => do
    let given ← settings? [.config, .events, .finish] rest
    if !(given.map (·.1)).Nodup then none
    some (.replay ⟨← value? .config given⟩ ⟨← value? .events given⟩ (← end? given))
  | "run" :: rest => do
    let given ← settings? [.config, .events, .live, .finish] rest
    if !(given.map (·.1)).Nodup then none
    some (.run ⟨← value? .config given⟩ ((value? .events given).getD "-") (← end? given))
  | _ => none

end Command

end EventMetrics
