import EventMetrics.Text.Classes

namespace EventMetrics.Json

inductive Token
  | mark (c : Char)
  | string (s : String)
  | plain (text : List Char)
  deriving DecidableEq, Repr

/-- Where the scanner stands. Texts in hand are in reverse order. -/
inductive Scan
  | between
  | inPlain (text : List Char)
  | inString (text : List Char)
  | escape (text : List Char)
  /-- Hexadecimal digits of a UTF-16 unit; a leading surrogate may wait for its other half. -/
  | unit (text : List Char) (leading : Option Nat) (digitsLeft value : Nat)
  /-- After a leading surrogate only another unit may follow. -/
  | halfBackslash (text : List Char) (leading : Nat)
  | halfLetter (text : List Char) (leading : Nat)
  deriving DecidableEq, Repr

def isMark (c : Char) : Bool := c ∈ ['[', ']', '{', '}', ',', ':']

def isSpace (c : Char) : Bool := c ∈ [' ', '\n', '\t', '\r']

def isLeading (u : Nat) : Bool := 0xD800 ≤ u && u < 0xDC00

def isTrailing (u : Nat) : Bool := 0xDC00 ≤ u && u < 0xE000

def finishUnit (text : List Char) : Option Nat → Nat → Option Scan
  | none, u =>
    if isLeading u then some (.halfBackslash text u)
    else if isTrailing u then none
    else some (.inString (Char.ofNat u :: text))
  | some leading, u =>
    if isTrailing u then
      some (.inString (Char.ofNat (0x10000 + (leading - 0xD800) * 0x400 + (u - 0xDC00)) :: text))
    else none

def escaped? : Char → Option Char
  | '"' => some '"'
  | '\\' => some '\\'
  | '/' => some '/'
  | 'b' => some '\x08'
  | 'f' => some '\x0c'
  | 'n' => some '\n'
  | 'r' => some '\r'
  | 't' => some '\t'
  | _ => none

def begin (c : Char) : Scan × List Token :=
  if isSpace c then (.between, [])
  else if isMark c then (.between, [.mark c])
  else if c = '"' then (.inString [], [])
  else (.inPlain [c], [])

def Scan.step (s : Scan) (c : Char) : Option (Scan × List Token) :=
  match s with
  | between => some (begin c)
  | inPlain text =>
    if isSpace c ∨ isMark c ∨ c = '"' then
      let (next, tokens) := begin c
      some (next, .plain text.reverse :: tokens)
    else some (.inPlain (c :: text), [])
  | inString text =>
    if c = '"' then some (.between, [.string (String.ofList text.reverse)])
    else if c = '\\' then some (.escape text, [])
    else if c.toNat < 0x20 then none
    else some (.inString (c :: text), [])
  | escape text =>
    if c = 'u' then some (.unit text none 4 0, [])
    else (escaped? c).map fun d => (.inString (d :: text), [])
  | unit text leading digitsLeft value => do
    let digit ← Text.hexValue? c
    let value := 16 * value + digit
    if digitsLeft ≤ 1 then (finishUnit text leading value).map (·, [])
    else some (.unit text leading (digitsLeft - 1) value, [])
  | halfBackslash text leading => if c = '\\' then some (.halfLetter text leading, []) else none
  | halfLetter text leading => if c = 'u' then some (.unit text (some leading) 4 0, []) else none

def Scan.finish : Scan → Option (List Token)
  | between => some []
  | inPlain text => some [.plain text.reverse]
  | _ => none

/-- The tokens of the rest of a text, after those in `done`, which are in reverse order. -/
def scan (s : Scan) (done : List Token) : List Char → Option (List Token)
  | [] => s.finish.map (done.reverse ++ ·)
  | c :: rest =>
    match s.step c with
    | none => none
    | some (next, tokens) => scan next (tokens.reverse ++ done) rest

def tokens? (text : String) : Option (List Token) := scan .between [] text.toList

end EventMetrics.Json
