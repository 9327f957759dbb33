namespace EventMetrics

inductive Toml
  | bool (b : Bool)
  | int (n : Int)
  | float (x : Float)
  /-- A number too large for every range; a document may hold one where nobody reads it. -/
  | excess
  | string (s : String)
  | array (items : List Toml)
  | table (entries : List (String × Toml))
  deriving Inhabited

namespace Toml

def entry? (key : String) (entries : List (String × Toml)) : Option Toml :=
  (entries.find? (·.1 = key)).map (·.2)

/-- Dates and times are tables with one entry of this name. -/
def dateKey : String := "$__toml_private_datetime"

def ofDate (text : String) : Toml := table [(dateKey, string text)]

end Toml

end EventMetrics
