import EventMetrics.Text.Alphanumeric
import EventMetrics.Text.Classes

namespace EventMetrics.Log

open Text

inductive FilterError
  | directive
  | level
  deriving DecidableEq, Repr

def FilterError.message : FilterError → String
  | directive => "invalid filter directive"
  | level =>
    "error parsing level filter: expected one of \"off\", \"error\", \"warn\", \"info\", " ++
      "\"debug\", \"trace\", or a number 0-5"

/-- A number, which may have a plus sign and zeros in front. -/
def wholeNumber? (s : String) : Option Nat :=
  let digits := match s.toList with
    | '+' :: rest => rest
    | all => all
  if !digits.isEmpty ∧ digits.all Char.isDigit then some (decimalValue digits) else none

def threshold? (s : String) : Option Nat :=
  match wholeNumber? s with
  | some n => if n ≤ 5 then some n else none
  | none => ["off", "error", "warn", "info", "debug", "trace"].idxOf? s.toLower

def everything : Nat := 5

structure Directive where
  /-- How the names of the parts of the program start that are meant. -/
  target : String := ""
  /-- Whether a span is meant. Entries are made outside of all spans. -/
  spanned : Bool := false
  field : Option String := none
  threshold : Nat := everything
  deriving DecidableEq, Repr

/-- Only fields of spans are asked for their values. -/
def Directive.withField (d : Directive) (s : String) : Directive :=
  if s.contains '=' then { d with spanned := true } else { d with field := some s }

/-- A directive as written. Places are counted without the blanks around it, but what stands between
two places is cut out of the text with the blanks. -/
structure Writing where
  text : List Char
  deriving DecidableEq, Repr

namespace Writing

def inner (w : Writing) : List Char := trimList w.text

def cut (w : Writing) (start stop : Nat) : String :=
  String.ofList ((w.text.drop start).take (stop - start))

def seek? (w : Writing) (marks : List Char) (start : Nat) : Option (Nat × Char) :=
  match (w.inner.drop start).dropWhile (· ∉ marks) with
  | [] => none
  | c :: rest => some (w.inner.length - rest.length - 1, c)

def levelFrom (w : Writing) (start : Nat) : Except FilterError Nat :=
  match w.text.drop start with
  | [] => .ok everything
  | rest => (threshold? (String.ofList rest)).elim (.error .level) .ok

def finish (w : Writing) (d : Directive) (start : Nat) : Except FilterError Directive :=
  match w.inner.drop start with
  | [] => .ok d
  | '=' :: _ => (w.levelFrom (start + 1)).map ({ d with threshold := · })
  | _ => .error .directive

def span (w : Writing) (d : Directive) (start : Nat) : Except FilterError Directive :=
  match w.seek? [']', '{'] start with
  | some (place, ']') => w.finish { d with spanned := true } (place + 1)
  | some (place, _) =>
    let d := if start < place then { d with spanned := true } else d
    match w.seek? ['}'] (place + 1) with
    | some (close, _) =>
      if close = place + 1 ∨ (w.inner.drop (close + 1)).head? ≠ some ']' then .error .directive
      else w.finish (d.withField (w.cut (place + 1) close)) (close + 2)
    | none => .error .directive
  | none => .error .directive

/-- A name alone lets everything of it pass; a level alone is for the whole program. -/
def directive (w : Writing) : Except FilterError Directive :=
  match w.inner with
  | [] => .error .directive
  | '[' :: _ => w.span {} 1
  | c :: _ =>
    if c ∉ ['-', ':', '_'] ∧ !isAlphanumeric c then .error .directive
    else
      match w.seek? ['=', '['] 0 with
      | some (place, '=') =>
        (w.levelFrom (place + 1)).map ({ target := w.cut 0 place, threshold := · })
      | some (place, _) => w.span { target := w.cut 0 place } (place + 1)
      | none =>
        let word := String.ofList w.text
        .ok ((threshold? word).elim { target := word } ({ threshold := · }))

end Writing

def Directive.means (d : Directive) (target : String) (fields : List String) : Bool :=
  !d.spanned && target.startsWith d.target && d.field.all (· ∈ fields)

/-- A longer target is more specific, then a field is. -/
def Directive.isAsSpecific (d e : Directive) : Bool :=
  if d.target.length = e.target.length then
    match e.field, d.field with
    | none, _ => true
    | some _, none => false
    | some f, some g => f ≤ g
  else e.target.length < d.target.length

structure Filter where
  directives : List Directive
  deriving DecidableEq, Repr

namespace Filter

def ofText (s : String) : Except FilterError Filter := do
  let texts := (s.splitOn ",").filter (!·.isEmpty)
  return ⟨← texts.mapM fun text => (Writing.mk text.toList).directive⟩

/-- How many of the levels pass; of equally specific directives the last decides. -/
def threshold (f : Filter) (target : String) (fields : List String) : Nat :=
  let meant := f.directives.filter (·.means target fields)
  let best := meant.foldl
    (fun (best : Option Directive) d => if best.all d.isAsSpecific then some d else best) none
  best.elim 0 (·.threshold)

end Filter

end EventMetrics.Log
