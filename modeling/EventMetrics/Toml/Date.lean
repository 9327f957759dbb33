import EventMetrics.Text.Classes

namespace EventMetrics.Toml

open Text

def isTwoDigits (low high : Nat) (a b : Char) : Bool :=
  a.isDigit && b.isDigit && low ≤ decimalValue [a, b] && decimalValue [a, b] ≤ high

def daysInMonth (year month : Nat) : Nat :=
  if month = 2 then
    if year % 4 = 0 ∧ (year % 100 ≠ 0 ∨ year % 400 = 0) then 29 else 28
  else if month ∈ [4, 6, 9, 11] then 30 else 31

def isDate (text : List Char) : Bool :=
  match text with
  | [a, b, c, d, '-', e, f, '-', g, h] =>
    [a, b, c, d].all Char.isDigit && isTwoDigits 1 12 e f &&
      isTwoDigits 1 (daysInMonth (decimalValue [a, b, c, d]) (decimalValue [e, f])) g h
  | _ => false

def nanoseconds (digits : List Char) : List Char :=
  match ((digits.take 9).reverse.dropWhile (· = '0')).reverse with
  | [] => ['0']
  | kept => kept

def secondFraction? : List Char → Option (List Char)
  | [] => some []
  | '.' :: digits =>
    if !digits.isEmpty ∧ digits.all Char.isDigit then some ('.' :: nanoseconds digits) else none
  | _ => none

/-- `07:32`, `07:32:00` or `07:32:00.5`; a leap second may be written. -/
def clock? (text : List Char) : Option (List Char) :=
  match text with
  | [a, b, ':', c, d] => if isTwoDigits 0 23 a b ∧ isTwoDigits 0 59 c d then some text else none
  | a :: b :: ':' :: c :: d :: ':' :: e :: f :: rest =>
    if isTwoDigits 0 23 a b ∧ isTwoDigits 0 59 c d ∧ isTwoDigits 0 60 e f then
      (secondFraction? rest).map ([a, b, ':', c, d, ':', e, f] ++ ·)
    else none
  | _ => none

/-- `Z`, an offset such as `+01:30`, or nothing. No offset at all is a positive one. -/
def zone? (text : List Char) : Option (List Char) :=
  match text with
  | [] => some []
  | [z] => if z = 'Z' ∨ z = 'z' then some ['Z'] else none
  | [sign, a, b, ':', c, d] =>
    if (sign = '+' ∨ sign = '-') ∧ isTwoDigits 0 23 a b ∧ isTwoDigits 0 59 c d then
      some (if [a, b, c, d].all (· = '0') then '+' :: text.tail else text)
    else none
  | _ => none

def zonedClock? (text : List Char) : Option (List Char) := do
  let clock := text.takeWhile fun c => c.isDigit || c = ':' || c = '.'
  some ((← clock? clock) ++ (← zone? (text.drop clock.length)))

def datetime? (text : List Char) : Option (List Char) :=
  if isDate text then some text
  else if isDate (text.take 10) then
    match text.drop 10 with
    | separator :: rest =>
      if separator ∈ ['T', 't', ' '] then
        (zonedClock? rest).map (text.take 10 ++ 'T' :: ·)
      else none
    | [] => none
  else clock? text

end EventMetrics.Toml
