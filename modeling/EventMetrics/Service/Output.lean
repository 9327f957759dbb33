import EventMetrics.Delivery
import EventMetrics.Outlet
import EventMetrics.Service

namespace EventMetrics

namespace Outlet

def toSink (fs : Files) (o : Outlet) : Sink where
  takes _ _ := o.takes fs

end Outlet

namespace Service

def openFailure : Outlet.OpenError → Failure
  | .badUri _ => Outlet.uriFailure
  | .cannotOpen file e =>
    { code := 2001, reason := "bootstrap error"
      detail := some s!"open sink {file.text}: {e.message}" }

def host (c : Config) (directory : Path) (fs : Files) :
    Files × Except Failure (Service × List Outlet) :=
  match Service.start c.hosting c.definitions with
  | .error e => (fs, .error e.toFailure)
  | .ok s =>
    let (opened, outlets) := Outlet.openAll directory fs c.sinks
    (opened, (outlets.mapError openFailure).map (s, ·))

def countDelivery (c : Counters) (d : Delivery) : Counters :=
  let c := d.waits.foldl (fun c _ => c.countRetry) c
  if d.taken then c.countWrite else c.countWriteFailed

def writeRow (outlets : List Outlet) (p : Printed) (line : String) (row : List Delivery) : Printed :=
  (outlets.zip row).foldl (fun p (o, d) => if d.taken then o.write line p else p) p

def writeOut (s : Service) (r : Retry) (outlets : List Outlet) (p : Printed) : Service × Printed :=
  let lines := s.handed.map Record.line
  let rows := Delivery.dispatch r (outlets.map (·.toSink p.files)) lines
  ({ s with counters := rows.flatten.foldl countDelivery s.counters, handed := [] },
    (lines.zip rows).foldl (fun p (line, row) => writeRow outlets p line row) p)

end Service

end EventMetrics
