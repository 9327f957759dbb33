import EventMetrics.Path
import EventMetrics.Text.Quoted

namespace EventMetrics

inductive Destination
  | standardOutput
  | file (path : Path)
  deriving DecidableEq, Repr

namespace Destination

inductive ReadError
  | emptyPath (uri : String)
  | unsupported (uri : String)
  deriving DecidableEq, Repr

open Text in
def ReadError.message : ReadError → String
  | emptyPath uri => s!"file sink URI has an empty path: {quote uri}"
  | unsupported uri =>
    s!"unsupported sink URI {quote uri} (expected stdout:// or file://<path>)"

def fileScheme : List Char := "file://".toList

def read (uri : String) : Except ReadError Destination :=
  if uri = "stdout://" || uri = "-" then .ok .standardOutput
  else if fileScheme.isPrefixOf uri.toList then
    let path := uri.toList.drop fileScheme.length
    if path.isEmpty then .error (.emptyPath uri) else .ok (.file ⟨String.ofList path⟩)
  else .error (.unsupported uri)

end Destination

end EventMetrics
