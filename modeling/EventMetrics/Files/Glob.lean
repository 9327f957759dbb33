import EventMetrics.Files
import EventMetrics.Wildcard

namespace EventMetrics

namespace Glob

inductive Token
  | char (c : Char)
  | anyChar
  | anyText
  | oneOf (ranges : List (Char × Char))
  | noneOf (ranges : List (Char × Char))
  deriving DecidableEq, Repr

def inRanges (c : Char) (ranges : List (Char × Char)) : Bool :=
  ranges.any fun (low, high) => low ≤ c && c ≤ high

def Token.takes (c : Char) : Token → Bool
  | char d => c = d
  | anyChar => true
  | anyText => true
  | oneOf ranges => inRanges c ranges
  | noneOf ranges => !inRanges c ranges

def rangesOf : List Char → List (Char × Char)
  | low :: '-' :: high :: rest => (low, high) :: rangesOf rest
  | c :: rest => (c, c) :: rangesOf rest
  | [] => []

/-- What stands up to the closing bracket, and what follows it. The first character is never the
closing bracket. -/
def bracketed? : List Char → Option (List Char × List Char)
  | [] => none
  | c :: rest =>
    match rest.dropWhile (· ≠ ']') with
    | [] => none
    | _ :: after => some (c :: rest.takeWhile (· ≠ ']'), after)

def bracket? : List Char → Option (Token × List Char)
  | '!' :: rest => (bracketed? rest).map fun (inner, after) => (.noneOf (rangesOf inner), after)
  | rest => (bracketed? rest).map fun (inner, after) => (.oneOf (rangesOf inner), after)

/-- One token off the front. Two stars side by side are no token. -/
def token? : List Char → Option (Token × List Char)
  | [] => none
  | '?' :: rest => some (.anyChar, rest)
  | '*' :: '*' :: _ => none
  | '*' :: rest => some (.anyText, rest)
  | '[' :: rest => bracket? rest
  | c :: rest => some (.char c, rest)

def tokensWithin? : Nat → List Char → Option (List Token)
  | _, [] => some []
  | 0, _ :: _ => none
  | steps + 1, cs => do
    let (t, rest) ← token? cs
    let ts ← tokensWithin? steps rest
    some (t :: ts)

def tokens? (cs : List Char) : Option (List Token) := tokensWithin? cs.length cs

/-- Which ends of a name some tokens match, from the whole name down to the empty end. -/
def endsMatched (name : List Char) : List Token → List Bool
  | [] => name.map (fun _ => false) ++ [true]
  | .anyText :: ts => Wildcard.anyFrom (endsMatched name ts)
  | t :: ts =>
    List.zipWith (fun c rest => t.takes c && rest) name (endsMatched name ts).tail ++ [false]

def isMatch (ts : List Token) (name : List Char) : Bool := (endsMatched name ts).headD false

inductive Segment
  | literal (name : String)
  | tokens (ts : List Token)
  /-- Any number of directories. -/
  | descend
  deriving DecidableEq, Repr

def isSpecial (c : Char) : Bool := c = '?' || c = '*' || c = '['

def Segment.ofText? (s : String) : Option Segment :=
  if s = "**" then some .descend
  else if s.toList.any isSpecial then (tokens? s.toList).map .tokens
  else some (.literal s)

def Segment.isMatch (name : String) : Segment → Bool
  | literal s => s = name
  | tokens ts => Glob.isMatch ts name.toList
  | descend => false

end Glob

structure Glob where
  segments : List Glob.Segment
  /-- Ends in a slash: only directories match. -/
  directoriesOnly : Bool
  deriving DecidableEq, Repr

def Glob.ofPath? (p : Path) : Option Glob := do
  let texts := p.segments
  let endsInSlash := texts.getLast? = some ""
  let named := if endsInSlash && 1 < texts.length then texts.dropLast else texts
  let segments ← named.mapM Segment.ofText?
  some { segments, directoriesOnly := endsInSlash }

namespace Files

open Glob (Segment)

def descendants (fs : Files) (p : Path) : List (Path × String × Node) :=
  (fs.below p).map fun (names, n) =>
    (names.foldl (fun q name => q.join ⟨name⟩) p, names.getLastD "", n)

/-- Dots match only a pattern that spells out the first of them. -/
def dotsMatching : List Glob.Token → List String
  | .char '.' :: ts => ["..", "."].filter fun s => Glob.isMatch (.char '.' :: ts) s.toList
  | _ => []

def expand (fs : Files) (directoriesOnly : Bool) : List Segment → Path → List Path
  | [], p => if directoriesOnly && !fs.isDirectory p then [] else [p]
  | .literal s :: rest, p =>
    let next := p.join ⟨s⟩
    let isThere := if s = "." || s = ".." then fs.isDirectory p else fs.contains next
    if isThere then fs.expand directoriesOnly rest next else []
  | .tokens ts :: rest, p =>
    if fs.isDirectory p then
      let named := (fs.entryNames p).filter fun name => Glob.isMatch ts name.toList
      (dotsMatching ts ++ named).flatMap fun name =>
        fs.expand directoriesOnly rest (p.join ⟨name⟩)
    else []
  | [.descend], p =>
    (fs.descendants p).filterMap fun (q, _, n) => if n = .directory then some q else none
  | .descend :: .descend :: rest, p => fs.expand directoriesOnly (.descend :: rest) p
  | .descend :: s :: rest, p =>
    ((fs.descendants p).filter fun (_, name, _) => s.isMatch name).flatMap fun (q, _, _) =>
      fs.expand directoriesOnly rest q

def search (fs : Files) (g : Glob) : List Path :=
  Path.sort (fs.expand g.directoriesOnly g.segments ⟨"/"⟩)

end Files

end EventMetrics
