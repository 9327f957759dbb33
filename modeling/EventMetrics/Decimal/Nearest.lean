namespace EventMetrics.Decimal

/-- The integer nearest to `num / den`; a half goes to the even one. -/
def roundHalfEven (num den : Nat) : Nat :=
  let q := num / den
  let twice := 2 * (num % den)
  if twice < den then q
  else if den < twice then q + 1
  else if q % 2 = 0 then q else q + 1

/-- The greatest `e` with `2 ^ e ≤ num / den`, for positive `num` and `den`. -/
def binaryExponent (num den : Nat) : Int :=
  let e : Int := (num.log2 : Int) - (den.log2 : Int)
  if num * Nat.pow 2 (-e).toNat < den * Nat.pow 2 e.toNat then e - 1 else e

def infinityBits : Nat := 0x7FF0000000000000

def nearest (num den : Nat) : Float :=
  if num = 0 then 0
  else
    let p := max (binaryExponent num den - 52) (-1074)
    let m := roundHalfEven (num * Nat.pow 2 (-p).toNat) (den * Nat.pow 2 p.toNat)
    Float.ofBits (min ((p + 1074).toNat * Nat.pow 2 52 + m) infinityBits).toUInt64

/-- The double nearest to `digits · 10 ^ exponent`. Beyond four hundred places the answer is known. -/
def toFloat (digits : Nat) (exponent : Int) : Float :=
  let places := (Nat.toDigits 10 digits).length + exponent
  if digits = 0 ∨ places < -400 then 0
  else if 400 < places then Float.ofBits infinityBits.toUInt64
  else nearest (digits * Nat.pow 10 exponent.toNat) (Nat.pow 10 (-exponent).toNat)

end EventMetrics.Decimal
