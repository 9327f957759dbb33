import EventMetrics.Json
import EventMetrics.Text.Classes
import EventMetrics.Decimal.Nearest

namespace EventMetrics.Json

open Text

structure Literal where
  negative : Bool
  whole : List Char
  fraction : List Char
  /-- Whether the exponent is negative, and its digits. -/
  exponent : Option (Bool × List Char)
  deriving DecidableEq, Repr

def isWhole : List Char → Bool
  | [] => false
  | ['0'] => true
  | c :: _ => c ≠ '0'

def splitExponent (text : List Char) : Option (Option (Bool × List Char)) :=
  match text with
  | [] => some none
  | e :: rest =>
    if e ≠ 'e' ∧ e ≠ 'E' then none
    else
      let (negative, digits) := match rest with
        | '+' :: digits => (false, digits)
        | '-' :: digits => (true, digits)
        | digits => (false, digits)
      if digits.isEmpty ∨ !digits.all Char.isDigit then none else some (some (negative, digits))

def splitFraction (text : List Char) : Option (List Char × List Char) :=
  match text with
  | '.' :: rest =>
    let digits := rest.takeWhile Char.isDigit
    if digits.isEmpty then none else some (digits, rest.dropWhile Char.isDigit)
  | _ => some ([], text)

def Literal.ofText? (text : List Char) : Option Literal := do
  let (negative, unsigned) := match text with
    | '-' :: rest => (true, rest)
    | rest => (false, rest)
  let whole := unsigned.takeWhile Char.isDigit
  if !isWhole whole then none
  let (fraction, rest) ← splitFraction (unsigned.dropWhile Char.isDigit)
  let exponent ← splitExponent rest
  some { negative, whole, fraction, exponent }

/-- Appends digits to `n` as long as it fits in a word; also gives the digits left over. -/
def appendDigits (n : Nat) : List Char → Nat × List Char
  | [] => (n, [])
  | c :: rest =>
    let next := 10 * n + digitValue c
    if wordLimit ≤ next then (n, c :: rest) else appendDigits next rest

def powerOfTen (n : Nat) : Float := Decimal.toFloat 1 n

def scaleByTen (x : Float) (exponent : Int) : Option Float :=
  if 308 < exponent then
    if x == 0 then some x else none
  else if 0 ≤ exponent then
    let y := x * powerOfTen exponent.toNat
    if y.isInf then none else some y
  else if -308 ≤ exponent then some (x / powerOfTen (-exponent).toNat)
  else if x == 0 then some x
  else scaleByTen (x / powerOfTen 308) (exponent + 308)
termination_by (-exponent).toNat
decreasing_by omega

def exponentLimit : Nat := 2147483647

def Literal.real? (l : Literal) : Option Float := do
  let (lead, restWhole) := appendDigits 0 l.whole
  let (lead, restFraction) := appendDigits lead l.fraction
  let places : Int := (restWhole.length : Int) - (l.fraction.length - restFraction.length : Nat)
  let magnitude ← match l.exponent with
    | none => scaleByTen (Decimal.nearest lead 1) places
    | some (negative, digits) =>
      let n := decimalValue digits
      if exponentLimit < n then
        if lead ≠ 0 ∧ !negative then none else some 0
      else scaleByTen (Decimal.nearest lead 1) (if negative then places - n else places + n)
  some (if l.negative then -magnitude else magnitude)

/-- A negative zero is no whole number. -/
def Literal.toJson? (l : Literal) : Option Json :=
  let n := decimalValue l.whole
  if !l.fraction.isEmpty ∨ l.exponent.isSome then l.real?.map real
  else if !l.negative ∧ n < wordLimit then some (int n)
  else if l.negative ∧ n ≠ 0 ∧ n ≤ 9223372036854775808 then some (int (-n))
  else l.real?.map real

def number? (text : List Char) : Option Json := Literal.ofText? text >>= Literal.toJson?

end EventMetrics.Json
