namespace EventMetrics

structure Path where
  text : String
  deriving DecidableEq, Repr

namespace Path

inductive Part
  | root
  | here
  | up
  | name (s : String)
  deriving DecidableEq, Repr

def isAbsolute (p : Path) : Bool := p.text.startsWith "/"

/-- What stands between the slashes; of an absolute path, after the first. -/
def segments (p : Path) : List String :=
  if p.isAbsolute then (p.text.splitOn "/").tail else p.text.splitOn "/"

def isFiller (segment : String) : Bool := segment = "" || segment = "."

def Part.ofSegment? (segment : String) : Option Part :=
  if isFiller segment then none else if segment = ".." then some .up else some (.name segment)

def parts (p : Path) : List Part :=
  let named := p.segments.filterMap Part.ofSegment?
  if p.isAbsolute then .root :: named
  else if p.segments.head? = some "." then .here :: named
  else named

def join (base p : Path) : Path :=
  if p.isAbsolute then p
  else if base.text.isEmpty || base.text.endsWith "/" then ⟨base.text ++ p.text⟩
  else ⟨base.text ++ "/" ++ p.text⟩

def ofSegments (absolute : Bool) (segments : List String) : Path :=
  ⟨(if absolute then "/" else "") ++ "/".intercalate segments⟩

def withoutTail (segments : List String) : List String :=
  (segments.reverse.dropWhile isFiller).reverse

def parent? (p : Path) : Option Path :=
  match (p.segments.reverse.dropWhile isFiller) with
  | [] => if p.parts = [.here] then some ⟨""⟩ else none
  | _ :: before =>
    match withoutTail before.reverse with
    | [] => some (ofSegments p.isAbsolute (if p.parts.head? = some .here then ["."] else []))
    | left => some (ofSegments p.isAbsolute left)

def fileName? (p : Path) : Option String :=
  match p.parts.getLast? with
  | some (.name s) => some s
  | _ => none

def dropParts : Nat → List String → List String
  | 0, segments => segments.dropWhile isFiller
  | _ + 1, [] => []
  | n + 1, s :: rest => if isFiller s then dropParts (n + 1) rest else dropParts n rest

def below? (p directory : Path) : Option Path :=
  if p.isAbsolute && directory.isAbsolute && directory.parts.isPrefixOf p.parts then
    some (ofSegments false (withoutTail (dropParts (directory.parts.length - 1) p.segments)))
  else none

def Part.rank : Part → Nat
  | root => 0
  | here => 1
  | up => 2
  | name _ => 3

def Part.label : Part → String
  | name s => s
  | _ => ""

def partsLe : List Part → List Part → Bool
  | [], _ => true
  | _ :: _, [] => false
  | a :: as, b :: bs =>
    if a = b then partsLe as bs
    else if a.rank = b.rank then a.label < b.label
    else a.rank < b.rank

def le (a b : Path) : Bool := partsLe a.parts b.parts

def sort (paths : List Path) : List Path := paths.mergeSort le

end Path

end EventMetrics
