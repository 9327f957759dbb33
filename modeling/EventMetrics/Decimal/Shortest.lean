namespace EventMetrics.Decimal

/-- Which of two neighbours on a grid is taken when the value lies half-way. -/
inductive Tie
  | up
  | toEven
  deriving DecidableEq, Repr

def Tie.choose (t : Tie) (below : Nat) : Nat :=
  match t with
  | up => below + 1
  | toEven => if below % 2 = 0 then below else below + 1

structure Digits where
  digits : Nat
  exponent : Int
  deriving DecidableEq, Repr

structure Binary where
  significand : Nat
  exponent : Int

def Binary.ofBits (bits : Nat) : Binary :=
  let fraction : Nat := bits % Nat.pow 2 52
  let biased : Nat := bits / Nat.pow 2 52 % Nat.pow 2 11
  if biased = 0 then ⟨fraction, -1074⟩ else ⟨Nat.pow 2 52 + fraction, Int.ofNat biased - 1075⟩

def quarters (count : Nat) (exponent : Int) : Nat × Nat :=
  let e := exponent - 2
  (count * Nat.pow 2 e.toNat, Nat.pow 2 (-e).toNat)

/-- The decimals that read as one double, bounds as fractions with a common denominator. -/
structure Basin where
  low : Nat
  value : Nat
  high : Nat
  den : Nat
  closed : Bool

/-- Half-way to the neighbours on both sides; below a power of two the neighbour is nearer. -/
def Binary.basin (b : Binary) : Basin :=
  let below := if b.significand = Nat.pow 2 52 ∧ -1074 < b.exponent then 1 else 2
  let bound (n : Nat) := (quarters n b.exponent).1
  { low := bound (4 * b.significand - below)
    value := bound (4 * b.significand)
    high := bound (4 * b.significand + 2)
    den := (quarters 0 b.exponent).2
    closed := b.significand % 2 = 0 }

/-- The greatest `k` with `10 ^ k ≤ num / den`, for positive `num` and `den`. -/
def decimalExponent (num den : Nat) : Int :=
  if den ≤ num then ((Nat.toDigits 10 (num / den)).length : Int) - 1
  else -((Nat.toDigits 10 ((den + num - 1) / num - 1)).length : Int)

def Basin.holds (b : Basin) (n : Nat) (exponent : Int) : Bool :=
  let x := n * Nat.pow 10 exponent.toNat * b.den
  let scale := Nat.pow 10 (-exponent).toNat
  if b.closed then b.low * scale ≤ x && x ≤ b.high * scale
  else b.low * scale < x && x < b.high * scale

/-- The point of the grid of step `10 ^ exponent` in the basin that is nearest to the value. -/
def Basin.gridPoint? (b : Basin) (tie : Tie) (exponent : Int) : Option Nat :=
  let num := b.value * Nat.pow 10 (-exponent).toNat
  let den := b.den * Nat.pow 10 exponent.toNat
  let below := num / den
  let twice := 2 * (num % den)
  match b.holds below exponent, b.holds (below + 1) exponent with
  | false, false => none
  | true, false => some below
  | false, true => some (below + 1)
  | true, true =>
    if twice < den then some below
    else if den < twice then some (below + 1)
    else some (tie.choose below)

/-- The coarsest grid with a point in the basin wins. Seventeen digits always suffice. -/
def Basin.firstHit (b : Basin) (tie : Tie) (leading : Int) : List Nat → Option Digits
  | [] => none
  | n :: rest =>
    let exponent := leading - n
    match b.gridPoint? tie exponent with
    | some d => if 0 < d then some ⟨d, exponent⟩ else b.firstHit tie leading rest
    | none => b.firstHit tie leading rest

def Digits.trim (d : Digits) : Digits :=
  if d.digits ≠ 0 ∧ d.digits % 10 = 0 then (Digits.mk (d.digits / 10) (d.exponent + 1)).trim else d
termination_by d.digits
decreasing_by omega

def shortest (tie : Tie) (bits : Nat) : Digits :=
  let basin := (Binary.ofBits bits).basin
  let leading := decimalExponent basin.value basin.den
  ((basin.firstHit tie leading (List.range 17)).getD ⟨0, 0⟩).trim

end EventMetrics.Decimal
