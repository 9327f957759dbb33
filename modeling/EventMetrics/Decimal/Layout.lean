import EventMetrics.Decimal.Shortest

namespace EventMetrics.Decimal

structure Style where
  tie : Tie
  /-- Whether a value `d.ddd · 10 ^ e` is written without an exponent. -/
  plain : Int → Bool
  /-- The fraction of a whole number written without an exponent. -/
  wholeFraction : String
  notANumber : String
  infinity : String
  negativeInfinity : String

def zeros (n : Nat) : String := String.ofList (List.replicate n '0')

def Digits.positional (style : Style) (d : Digits) : String :=
  let text := toString d.digits
  if 0 ≤ d.exponent then text ++ zeros d.exponent.toNat ++ style.wholeFraction
  else
    let places := (-d.exponent).toNat
    if places < text.length then
      (text.take (text.length - places)).toString ++ "." ++ (text.drop (text.length - places)).toString
    else "0." ++ zeros (places - text.length) ++ text

def Digits.scientific (d : Digits) (leading : Int) : String :=
  let text := toString d.digits
  let mantissa := if text.length = 1 then text else (text.take 1).toString ++ "." ++ (text.drop 1).toString
  let sign := if leading < 0 then "-" else "+"
  mantissa ++ "e" ++ sign ++ toString leading.natAbs

def Digits.render (style : Style) (d : Digits) : String :=
  let leading := (toString d.digits).length - 1 + d.exponent
  if d.digits = 0 ∨ style.plain leading then d.positional style else d.scientific leading

def render (style : Style) (x : Float) : String :=
  let bits := x.toBits.toNat
  let magnitude := bits % Nat.pow 2 63
  let negative := Nat.pow 2 63 ≤ bits
  if 0x7FF0000000000000 < magnitude then style.notANumber
  else if magnitude = 0x7FF0000000000000 then
    if negative then style.negativeInfinity else style.infinity
  else
    let text := Digits.render style (if magnitude = 0 then ⟨0, 0⟩ else shortest style.tie magnitude)
    if negative then "-" ++ text else text

/-- Every digit written out, no point in whole numbers, and ties go up. -/
def plainStyle : Style where
  tie := .up
  plain _ := true
  wholeFraction := ""
  notANumber := "NaN"
  infinity := "inf"
  negativeInfinity := "-inf"

/-- Exponents from -5 to 15 are written out, a whole number keeps `.0`, ties go to the even digit,
and what is not finite has no number. -/
def jsonStyle : Style where
  tie := .toEven
  plain e := -5 ≤ e ∧ e ≤ 15
  wholeFraction := ".0"
  notANumber := "null"
  infinity := "null"
  negativeInfinity := "null"

end EventMetrics.Decimal
