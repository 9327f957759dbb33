import EventMetrics.Event

namespace EventMetrics

structure DimensionKey where
  values : List (String × Value)

namespace DimensionKey

def empty : DimensionKey := ⟨[]⟩

/-- Field and value parted by U+001E, the value led by the tag of its type. -/
def canonicalPart (field : String) (v : Value) : String :=
  field ++ "\x1e" ++ v.tag.toString ++ v.render

/-- Parts are joined by U+001F. -/
def canonical (k : DimensionKey) : String :=
  "\x1f".intercalate (k.values.map fun e => canonicalPart e.1 e.2)

instance : Keyed DimensionKey := ⟨canonical⟩

instance : BEq DimensionKey := ⟨fun a b => a.canonical == b.canonical⟩

/-- Each link takes the value of its first field and names it after its second; nothing when a
field is missing. -/
def linked? (e : Event) (links : List (String × String)) : Option DimensionKey :=
  (links.mapM fun link => (e.field? link.1).map (link.2, ·)).map DimensionKey.mk

def extract? (e : Event) (fields : List String) : Option DimensionKey :=
  linked? e (fields.map fun f => (f, f))

def isEmpty (k : DimensionKey) : Bool := k.values.isEmpty

def render (k : DimensionKey) : String :=
  if k.isEmpty then "*" else ",".intercalate (k.values.map fun e => e.1 ++ "=" ++ e.2.render)

def toJson (k : DimensionKey) : Json := .object (k.values.map fun e => (e.1, e.2.toJson))

end DimensionKey

end EventMetrics
