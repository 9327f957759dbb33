import EventMetrics.Text.Classes

namespace EventMetrics.Toml

inductive Token
  | mark (c : Char)
  | newline
  | blank (c : Char)
  | string (s : String) (multiline : Bool)
  | bare (text : List Char)
  deriving DecidableEq, Repr

inductive Quote
  | basic
  | literal
  deriving DecidableEq, Repr

def Quote.char : Quote → Char
  | basic => '"'
  | literal => '\''

/-- Where the scanner stands. Texts in hand are in reverse order. -/
inductive Scan
  | between
  | inBare (text : List Char)
  | comment
  /-- After a carriage return, which must end a line. -/
  | carriage
  | openedOnce (q : Quote)
  | openedTwice (q : Quote)
  | single (q : Quote) (text : List Char)
  /-- Right after three quotes, where a line end does not count. -/
  | multiStart (q : Quote)
  | multiStartCarriage (q : Quote)
  /-- Inside three quotes, after `run` quotes in a row. -/
  | multi (q : Quote) (text : List Char) (run : Nat)
  | multiCarriage (q : Quote) (text : List Char)
  | escape (multiline : Bool) (text : List Char)
  | hex (multiline : Bool) (text : List Char) (digitsLeft value : Nat)
  /-- After a backslash at the end of a line; `ended` once the line end was seen. -/
  | fold (text : List Char) (ended : Bool)
  | foldCarriage (text : List Char)
  deriving DecidableEq, Repr

def isMark (c : Char) : Bool := c ∈ ['[', ']', '{', '}', ',', '=', '.']

def isBlank (c : Char) : Bool := c = ' ' ∨ c = '\t'

def isControl (c : Char) : Bool := (c.toNat < 0x20 ∧ c ≠ '\t') ∨ c.toNat = 0x7F

def begin (c : Char) : Option (Scan × List Token) :=
  if isBlank c then some (.between, [.blank c])
  else if c = '\n' then some (.between, [.newline])
  else if c = '\r' then some (.carriage, [])
  else if c = '#' then some (.comment, [])
  else if isMark c then some (.between, [.mark c])
  else if c = '"' then some (.openedOnce .basic, [])
  else if c = '\'' then some (.openedOnce .literal, [])
  else if isControl c then none
  else some (.inBare [c], [])

def beginAfter (t : Token) (c : Char) : Option (Scan × List Token) :=
  (begin c).map fun (s, tokens) => (s, t :: tokens)

def simpleEscape? : Char → Option Char
  | 'b' => some '\x08'
  | 't' => some '\t'
  | 'n' => some '\n'
  | 'f' => some '\x0c'
  | 'r' => some '\r'
  | 'e' => some '\x1b'
  | '"' => some '"'
  | '\\' => some '\\'
  | _ => none

def hexEscape? : Char → Option Nat
  | 'x' => some 2
  | 'u' => some 4
  | 'U' => some 8
  | _ => none

def resume (multiline : Bool) (text : List Char) : Scan :=
  if multiline then .multi .basic text 0 else .single .basic text

def isScalar (n : Nat) : Bool := n < 0xD800 || (0xE000 ≤ n && n < 0x110000)

def stepSingle (q : Quote) (text : List Char) (c : Char) : Option (Scan × List Token) :=
  if c = q.char then some (.between, [.string (String.ofList text.reverse) false])
  else if c = '\\' ∧ q = .basic then some (.escape false text, [])
  else if isControl c then none
  else some (.single q (c :: text), [])

def stepMulti (q : Quote) (text : List Char) (c : Char) : Option (Scan × List Token) :=
  if c = q.char then some (.multi q text 1, [])
  else if c = '\\' ∧ q = .basic then some (.escape true text, [])
  else if c = '\r' then some (.multiCarriage q text, [])
  else if c = '\n' then some (.multi q ('\n' :: text) 0, [])
  else if isControl c then none
  else some (.multi q (c :: text) 0, [])

def closeMulti (q : Quote) (text : List Char) (run : Nat) : Token :=
  .string (String.ofList (List.replicate (run - 3) q.char ++ text).reverse) true

def Scan.step (s : Scan) (c : Char) : Option (Scan × List Token) :=
  match s with
  | between => begin c
  | inBare text =>
    if isBlank c ∨ c = '\n' ∨ c = '\r' ∨ c = '#' ∨ isMark c ∨ c = '"' ∨ c = '\'' then
      beginAfter (.bare text.reverse) c
    else if isControl c then none
    else some (.inBare (c :: text), [])
  | comment =>
    if c = '\n' then some (.between, [.newline])
    else if c = '\r' then some (.carriage, [])
    else if isControl c then none
    else some (.comment, [])
  | carriage => if c = '\n' then some (.between, [.newline]) else none
  | openedOnce q => if c = q.char then some (.openedTwice q, []) else stepSingle q [] c
  | openedTwice q => if c = q.char then some (.multiStart q, []) else beginAfter (.string "" false) c
  | single q text => stepSingle q text c
  | multiStart q =>
    if c = '\n' then some (.multi q [] 0, [])
    else if c = '\r' then some (.multiStartCarriage q, [])
    else stepMulti q [] c
  | multiStartCarriage q => if c = '\n' then some (.multi q [] 0, []) else none
  | multi q text run =>
    if c = q.char then
      if run = 4 then some (.between, [closeMulti q text 5]) else some (.multi q text (run + 1), [])
    else if 3 ≤ run then beginAfter (closeMulti q text run) c
    else stepMulti q (List.replicate run q.char ++ text) c
  | multiCarriage q text => if c = '\n' then some (.multi q ('\n' :: '\r' :: text) 0, []) else none
  | escape multiline text =>
    match simpleEscape? c, hexEscape? c with
    | some d, _ => some (resume multiline (d :: text), [])
    | none, some digits => some (.hex multiline text digits 0, [])
    | none, none =>
      if !multiline then none
      else if isBlank c then some (.fold text false, [])
      else if c = '\n' then some (.fold text true, [])
      else if c = '\r' then some (.foldCarriage text, [])
      else none
  | hex multiline text digitsLeft value => do
    let digit ← Text.hexValue? c
    let value := 16 * value + digit
    if 1 < digitsLeft then some (.hex multiline text (digitsLeft - 1) value, [])
    else if isScalar value then some (resume multiline (Char.ofNat value :: text), [])
    else none
  | fold text ended =>
    if isBlank c then some (.fold text ended, [])
    else if c = '\n' then some (.fold text true, [])
    else if c = '\r' then some (.foldCarriage text, [])
    else if ended then stepMulti .basic text c
    else none
  | foldCarriage text => if c = '\n' then some (.fold text true, []) else none

def Scan.finish : Scan → Option (List Token)
  | between | comment => some []
  | inBare text => some [.bare text.reverse]
  | openedTwice _ => some [.string "" false]
  | multi q text run => if 3 ≤ run then some [closeMulti q text run] else none
  | _ => none

/-- The tokens of the rest of a text, after those in `done`, which are in reverse order. -/
def scan (s : Scan) (done : List Token) : List Char → Option (List Token)
  | [] => s.finish.map (done.reverse ++ ·)
  | c :: rest =>
    match s.step c with
    | none => none
    | some (next, tokens) => scan next (tokens.reverse ++ done) rest

def tokens? (text : String) : Option (List Token) :=
  let chars := text.toList
  scan .between [] (if chars.head? = some '\uFEFF' then chars.tail else chars)

end EventMetrics.Toml
