import EventMetrics.CommandLine.Arguments
import EventMetrics.Config.Loader
import EventMetrics.Log
import EventMetrics.Replay
import EventMetrics.Service.Output

namespace EventMetrics

structure Surroundings where
  files : Files
  input : String := ""
  logFilter : Option String := none

structure Console where
  files : Files
  out : String := ""
  err : String := ""

/-- A command at work: it prints, may fail with a message, may never end, and may stop by a fault. -/
abbrev Session (α : Type) := ExceptT String (StateT Console Checked) α

namespace CommandLine

def say (line : String) : Session Unit := modify fun c => { c with out := c.out ++ line ++ "\n" }

def complain (line : String) : Session Unit := modify fun c => { c with err := c.err ++ line ++ "\n" }

def keep (fs : Files) : Session Unit := modify fun c => { c with files := fs }

def orFail {ε α : Type} (message : ε → String) : Except ε α → Session α
  | .ok a => pure a
  | .error e => throw (message e)

def loadConfig (file : Path) : Session (Config × Path) := do
  let whole ← orFail (fun e : FileError => "config path '" ++ file.text ++ "': " ++ e.message)
    ((← get).files.canonical file)
  let c ← orFail Config.Error.message (Config.load (← get).files whole)
  return (c, whole.parent?.getD ⟨"."⟩)

structure Logger where
  filter : Log.Filter
  format : LogFormat
  file : Option Location := none

def openLogFile (file : Path) : Session Location := do
  let some directory := file.parent? | throw "log file path has no parent directory"
  let made ← orFail
    (fun e : FileError =>
      "create log directory " ++ directory.text ++ "\n\nCaused by:\n    " ++ e.message)
    ((← get).files.createDirectories directory)
  let some name := file.fileName? | throw "log file path has no file name"
  let (opened, place) ← orFail FileError.message (made.openToAppend (directory.join ⟨name⟩))
  keep opened
  return place

/-- A filter from the surroundings goes before the configured one. -/
def openLogger (l : Logging) (directory : Path) (given : Option String) : Session Logger := do
  let text := given.getD (Log.filterText l)
  let filter ← orFail
    (fun e : Log.FilterError => "invalid log filter '" ++ text ++ "': " ++ e.message)
    (Log.Filter.ofText text)
  let file ← l.file.mapM fun p => openLogFile (directory.join p)
  return { filter, format := l.format, file }

def Logger.log (l : Logger) (e : Log.Entry) : Session Unit := do
  if l.filter.lets e then
    let line := e.line l.format
    complain line
    if let some place := l.file then
      modify fun c => { c with files := c.files.appendIfTaken place (line ++ "\n") }

inductive Part
  | replay
  | run
  deriving DecidableEq, Repr

def Part.target : Part → String
  | replay => "tally::cmd_replay"
  | run => "tally::cmd_run"

def undecodable (part : Part) (number : Nat) (e : Event.DecodeError) : Log.Entry where
  level := .warn
  target := part.target
  domain := "conf"
  message := "skipping undecodable event"
  fields := [("line", .int number), ("error", .string e.message)]

def compile (c : Config) : Except Failure Engine :=
  (Engine.compile c.definitions
    { start := c.hosting.start, dimensionLimit := c.hosting.dimensionLimit }).mapError
    Definition.Error.toFailure

def inventory (c : Config) (e : Engine) : String :=
  let d := c.definitions
  let ids := ", ".intercalate e.metricIds
  s!"ok: {d.matchers.length} matchers, {d.conditions.length} conditions, " ++
  s!"{d.metrics.length} metrics ({ids}), {d.alerts.length} alerts, " ++
  s!"{c.included.length} included files"

def check (config : Path) : Session Unit := do
  let (c, _) ← loadConfig config
  say (inventory c (← orFail Failure.render (compile c)))

def openEvents (name : String) (fs : Files) : Session (Except FileError String) :=
  match fs.read ⟨name⟩ with
  | .ok text => return .ok text
  | .error .isADirectory => return .error .isADirectory
  | .error e => throw s!"failed to open {name}: {e.message}"

def sinkFailure : Outlet.OpenError → Failure
  | .badUri _ => Outlet.uriFailure
  | .cannotOpen .. => { code := 1002, reason := "output sink rejected record" }

def writeRecords (outlets : List Outlet) (records : List Record) : Session Nat := do
  let console ← get
  let start : Printed := { files := console.files, out := console.out }
  let (printed, failed) := records.foldl
    (fun (p, failed) r =>
      let (after, taken) := Outlet.broadcast outlets p r.line
      (after, if taken then failed else failed + 1))
    (start, 0)
  set { console with files := printed.files, out := printed.out }
  return failed

def replaySummary (r : Replay) (writeErrors : Nat) : List String :=
  let total :=
    s!"Replay complete: {r.events} events, {r.accepted} accepted, {r.records.length} records, " ++
    s!"{r.dropped.total} dropped, {r.undecodable.length} undecodable, {writeErrors} sink errors"
  "---" :: total :: r.engine.health.totalDrops.toList.map fun e => s!"  {e.1.name}: {e.2}"

def replay (config events : Path) (time : Option Int) (filter : Option String) :
    Session Unit := do
  let (c, directory) ← loadConfig config
  let logger ← openLogger c.logging directory filter
  let opened ← openEvents events.text (← get).files
  let engine ← orFail Failure.render (compile c)
  let text ← orFail FileError.message opened
  let r ← Replay.run engine text time
  r.undecodable.forM fun (number, e) => logger.log (undecodable .replay number e)
  let (fs, opening) := Outlet.openAll directory (← get).files c.sinks
  keep fs
  let outlets ← orFail (Failure.render ∘ sinkFailure) opening
  let writeErrors ← writeRecords outlets r.records
  (replaySummary r writeErrors).forM complain

def feedLine (logger : Logger) (s : Service) : Nat × Except Event.DecodeError Event → Session Service
  | (number, .error e) => do
    logger.log (undecodable .run number e)
    return s
  | (_, .ok ev) => do
    match ← s.ingest ev with
    | (s, none) => return s
    | (_, some f) => throw f.render

def run (config : Path) (events : String) (time : Option Int) (input : String)
    (filter : Option String) : Session Unit := do
  let (c, directory) ← loadConfig config
  let logger ← openLogger c.logging directory filter
  let (fs, hosted) := Service.host c directory (← get).files
  keep fs
  let (service, outlets) ← orFail Failure.render hosted
  let opened ← if events = "-" then pure (.ok input) else openEvents events (← get).files
  let text ← orFail FileError.message opened
  let fed ← (Event.decodeLines text).foldlM (feedLine logger) service
  let console ← get
  let (ended, printed) := (← fed.shutdown time).writeOut c.hosting.retry outlets
    { files := console.files, out := console.out }
  set { console with files := printed.files, out := printed.out }
  complain ended.counters.summary

def perform (s : Surroundings) : Command → Session Unit
  | .check config => check config
  | .replay config events time => replay config events time s.logFilter
  | .run config events time => run config events time s.input s.logFilter

structure Outcome where
  code : Nat
  console : Console

/-- A command that fails says why and exits with 1; words that are no command give 2. -/
def execute (arguments : List String) (s : Surroundings) : Checked Outcome :=
  let console : Console := { files := s.files }
  match Command.ofArguments? arguments with
  | none => pure { code := 2, console := { console with err := "error: invalid arguments\n" } }
  | some command => do
    match ← (perform s command).run.run console with
    | (.ok (), after) => return { code := 0, console := after }
    | (.error message, after) =>
      return { code := 1, console := { after with err := after.err ++ "Error: " ++ message ++ "\n" } }

end CommandLine

end EventMetrics
