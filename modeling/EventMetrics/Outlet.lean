import EventMetrics.Destination
import EventMetrics.Failure
import EventMetrics.Files

namespace EventMetrics

inductive Outlet
  | standardOutput
  | file (place : Location)
  deriving DecidableEq, Repr

structure Printed where
  files : Files
  out : String := ""

namespace Outlet

inductive OpenError
  | badUri (e : Destination.ReadError)
  | cannotOpen (file : Path) (e : FileError)
  deriving DecidableEq, Repr

def uriFailure : Failure := { code := 300, reason := "configuration error << core config" }

/-- A file is relative to a directory; directories on its way are made. -/
def openOne (directory : Path) (fs : Files) (uri : String) : Except OpenError (Files × Outlet) :=
  match Destination.read uri with
  | .error e => .error (.badUri e)
  | .ok .standardOutput => .ok (fs, standardOutput)
  | .ok (.file path) =>
    match fs.openWithDirectories (directory.join path) with
    | .ok (opened, place) => .ok (opened, file place)
    | .error e => .error (.cannotOpen (directory.join path) e)

def openAll (directory : Path) (fs : Files) : List String → Files × Except OpenError (List Outlet)
  | [] => (fs, .ok [])
  | uri :: rest =>
    match openOne directory fs uri with
    | .error e => (fs, .error e)
    | .ok (opened, o) =>
      let (after, others) := openAll directory opened rest
      (after, others.map (o :: ·))

def takes (fs : Files) : Outlet → Bool
  | standardOutput => true
  | file place => fs.takesWrites place

/-- Writes a line; one that is not taken leaves everything as it was. -/
def write (line : String) (p : Printed) : Outlet → Printed
  | standardOutput => { p with out := p.out ++ line ++ "\n" }
  | file place => { p with files := p.files.appendIfTaken place (line ++ "\n") }

def broadcast (outlets : List Outlet) (p : Printed) (line : String) : Printed × Bool :=
  (outlets.foldl (fun p o => o.write line p) p, outlets.all (·.takes p.files))

end Outlet

end EventMetrics
