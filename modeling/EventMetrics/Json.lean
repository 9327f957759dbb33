namespace EventMetrics

inductive Json
  | null
  | bool (b : Bool)
  /-- A whole number that fits in a signed or an unsigned 64-bit word. -/
  | int (n : Int)
  | real (x : Float)
  | string (s : String)
  | array (items : List Json)
  | object (members : List (String × Json))
  deriving Inhabited

namespace Json

def member? (name : String) (members : List (String × Json)) : Option Json :=
  (members.find? (·.1 = name)).map (·.2)

end Json

end EventMetrics
