import EventMetrics.Table
import EventMetrics.Value

namespace EventMetrics

structure Event where
  atom : Int
  time : Int
  fields : Table String Value := .empty

def Event.field? (e : Event) (path : String) : Option Value := e.fields.get? path

end EventMetrics
