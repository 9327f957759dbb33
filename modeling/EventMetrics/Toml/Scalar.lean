import EventMetrics.Toml.Date
import EventMetrics.Toml
import EventMetrics.Json.Number

namespace EventMetrics.Toml

open Text

/-- The digits of a run in which every underscore stands between two digits. -/
def digits? (isDigit : Char → Bool) : List Char → Option (List Char)
  | [] => none
  | [c] => if isDigit c then some [c] else none
  | c :: '_' :: rest => if isDigit c then (digits? isDigit rest).map (c :: ·) else none
  | c :: rest => if isDigit c then (digits? isDigit rest).map (c :: ·) else none

/-- Whole numbers fit in 128 bits; each field has limits of its own. -/
def wholeInRange (n : Int) : Bool :=
  -170141183460469231731687303715884105728 ≤ n && n < 340282366920938463463374607431768211456

def whole (n : Int) : Toml := if wholeInRange n then .int n else .excess

def radixValue (radix : Nat) (digits : List Char) : Nat :=
  digits.foldl (fun n c => radix * n + (hexValue? c).getD 0) 0

def isHex (c : Char) : Bool := (hexValue? c).isSome

def radix? (letter : Char) (rest : List Char) : Option Toml := do
  let (radix, isDigit) ← match letter with
    | 'x' => some (16, isHex)
    | 'o' => some (8, fun c => '0' ≤ c && c ≤ '7')
    | 'b' => some (2, fun c => c = '0' || c = '1')
    | _ => none
  some (whole (radixValue radix (← digits? isDigit rest)))

def splitSign : List Char → Bool × List Char
  | '-' :: rest => (true, rest)
  | '+' :: rest => (false, rest)
  | rest => (false, rest)

def isExponentMark (c : Char) : Bool := c = 'e' || c = 'E'

def decimalParts? (unsigned : List Char) :
    Option (List Char × Option (List Char) × Option (Bool × List Char)) := do
  let mantissa := unsigned.takeWhile (!isExponentMark ·)
  let exponent ← match unsigned.dropWhile (!isExponentMark ·) with
    | [] => some none
    | _ :: rest =>
      let (negative, ds) := splitSign rest
      (digits? Char.isDigit ds).map fun ds => some (negative, ds)
  let fraction ← match mantissa.dropWhile (· ≠ '.') with
    | [] => some none
    | _ :: rest => (digits? Char.isDigit rest).map some
  let digits ← digits? Char.isDigit (mantissa.takeWhile (· ≠ '.'))
  if Json.isWhole digits then some (digits, fraction, exponent) else none

def decimal? (text : List Char) : Option Toml := do
  let (negative, unsigned) := splitSign text
  let (digits, fraction, exponent) ← decimalParts? unsigned
  if fraction.isNone ∧ exponent.isNone then
    let n : Int := decimalValue digits
    some (whole (if negative then -n else n))
  else
    let fraction := fraction.getD []
    let shift : Int := match exponent with
      | none => 0
      | some (down, ds) => if down then -(decimalValue ds : Int) else decimalValue ds
    let x := Decimal.toFloat (decimalValue (digits ++ fraction)) (shift - fraction.length)
    some (if x.isInf then .excess else .float (if negative then -x else x))

def special? (text : List Char) : Option Toml :=
  let (negative, word) := splitSign text
  if word = "inf".toList then
    some (.float (if negative then -(1.0 / 0.0) else 1.0 / 0.0))
  else if word = "nan".toList then some (.float (0.0 / 0.0))
  else none

def scalar? (text : List Char) : Option Toml :=
  if text = "true".toList then some (.bool true)
  else if text = "false".toList then some (.bool false)
  else if let some date := datetime? text then some (ofDate (String.ofList date))
  else
    match text with
    | '0' :: letter :: rest =>
      if letter.isAlpha ∧ !isExponentMark letter then radix? letter rest else decimal? text
    | _ =>
      match special? text with
      | some v => some v
      | none => decimal? text

end EventMetrics.Toml
