import EventMetrics.Config.Fault
import EventMetrics.Config.Reader
import EventMetrics.Files.Glob

namespace EventMetrics.Config

inductive Error
  /-- The document itself cannot be read as a configuration. -/
  | malformed
  | malformedInclude (file : Path)
  | badPattern (pattern : String)
  | nothingMatches (pattern : String) (directory : Path)
  | unreadable (file : Path) (e : FileError)
  | faulty (f : Fault)

open Text in
def Error.message : Error → String
  | malformed => "malformed configuration"
  | malformedInclude file => s!"{file.text}: malformed definitions"
  | badPattern p => s!"invalid include pattern {quote p}"
  | nothingMatches p directory => s!"include pattern {quote p} matched no files under {directory.text}"
  | unreadable file e => s!"failed to read {file.text}: {e.message}"
  | faulty f => f.message

def matchingFiles (fs : Files) (directory : Path) (pattern : String) : Except Error (List Path) :=
  match Glob.ofPath? (directory.join ⟨pattern⟩) with
  | none => .error (.badPattern pattern)
  | some g =>
    match fs.search g with
    | [] => .error (.nothingMatches pattern directory)
    | found => .ok found

def readDefinitions (fs : Files) (file : Path) : Except Error Definitions :=
  match fs.read file with
  | .error e => .error (.unreadable file e)
  | .ok text => (Definitions.read? text).elim (.error (.malformedInclude file)) .ok

def includeFile (fs : Files) (c : Config) (file : Path) : Except Error Config := do
  let more ← readDefinitions fs file
  return { c with definitions := c.definitions.merge more, included := c.included ++ [file] }

def includeMatching (fs : Files) (directory : Path) (c : Config) (pattern : String) :
    Except Error Config := do
  (← matchingFiles fs directory pattern).foldlM (includeFile fs) c

/-- The configuration of a document whose patterns are relative to a directory. -/
def ofDocument (fs : Files) (directory : Path) (entries : List (String × Toml)) :
    Except Error Config := do
  let some (c, patterns) := Config.ofEntries? entries | throw .malformed
  let whole ← patterns.foldlM (includeMatching fs directory) c
  match whole.faults with
  | [] => return whole
  | f :: _ => throw (.faulty f)

def load (fs : Files) (file : Path) : Except Error Config := do
  match fs.read file with
  | .error e => throw (.unreadable file e)
  | .ok text =>
    let some entries := Toml.read? text | throw .malformed
    ofDocument fs (file.parent?.getD ⟨"."⟩) entries

end EventMetrics.Config
