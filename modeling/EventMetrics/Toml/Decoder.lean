import EventMetrics.Definition
import EventMetrics.Toml.Reader

namespace EventMetrics.Toml

def text? : Toml → Option String
  | string s => some s
  | _ => none

def flag? : Toml → Option Bool
  | bool b => some b
  | _ => none

def intIn? (low high : Int) : Toml → Option Int
  | int n => if low ≤ n ∧ n ≤ high then some n else none
  | _ => none

def instant? : Toml → Option Int := intIn? Instant.first Instant.last

def word? (bits : Nat) (v : Toml) : Option Nat :=
  (intIn? 0 ((Nat.pow 2 bits : Nat) - 1) v).map Int.toNat

def number? : Toml → Option Float
  | float x => some x
  | int n => if Instant.first ≤ n ∧ n < Text.wordLimit then some (Float.ofInt n) else none
  | _ => none

def span? (v : Toml) : Option Span := do (Span.read (← text? v)).toOption

def listOf? {α : Type} (item? : Toml → Option α) : Toml → Option (List α)
  | array items => items.mapM item?
  | _ => none

/-- How a choice may be written: by its name alone, or also as the only entry of a table. -/
inductive Spelling
  | name
  | nameOrTable
  | nameOrEmpty
  deriving DecidableEq, Repr

def Spelling.admits : Spelling → Toml → Bool
  | nameOrTable, table [] | nameOrEmpty, table [] | nameOrEmpty, array [] => true
  | _, _ => false

def Spelling.label? (s : Spelling) : Toml → Option String
  | string text => some text
  | table [(key, v)] => if s.admits v then some key else none
  | _ => none

def choice? {α : Type} (s : Spelling) (name : α → String) (all : List α) (v : Toml) : Option α := do
  let label ← s.label? v
  all.find? (fun a => name a = label)

mutual

def allWhole (passes : Int → Bool) : Toml → Bool
  | int n => passes n
  | excess => false
  | array items => allWholeItems passes items
  | table entries => allWholeEntries passes entries
  | _ => true

def allWholeItems (passes : Int → Bool) : List Toml → Bool
  | [] => true
  | v :: rest => allWhole passes v && allWholeItems passes rest

def allWholeEntries (passes : Int → Bool) : List (String × Toml) → Bool
  | [] => true
  | (_, v) :: rest => allWhole passes v && allWholeEntries passes rest

end

def readable (entries : List (String × Toml)) : Bool := allWholeEntries (fun _ => true) entries

def fitWords (entries : List (String × Toml)) : Bool :=
  allWholeEntries (fun n => Instant.first ≤ n && n < Text.wordLimit) entries

/-- The named fields of a record, beside which a table may hold entries that can be read. An array
may go on after the last field unless it must be `exact`. -/
def record? (exact : Bool) (fields : List String) : Toml → Option (List (String × Toml))
  | table entries => if readable (entries.filter (·.1 ∉ fields)) then some entries else none
  | array items =>
    if exact ∧ fields.length < items.length then none else some (fields.zip items)
  | _ => none

def required {α : Type} (key : String) (value? : Toml → Option α) (entries : List (String × Toml)) :
    Option α :=
  entry? key entries >>= value?

def orDefault {α : Type} (key : String) (default : α) (value? : Toml → Option α)
    (entries : List (String × Toml)) : Option α :=
  match entry? key entries with
  | none => some default
  | some v => value? v

def optional {α : Type} (key : String) (value? : Toml → Option α) (entries : List (String × Toml)) :
    Option (Option α) :=
  orDefault key none (fun v => (value? v).map some) entries

end EventMetrics.Toml
