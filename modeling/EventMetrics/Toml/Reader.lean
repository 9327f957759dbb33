import EventMetrics.Table
import EventMetrics.Toml.Scalar
import EventMetrics.Toml.Token

namespace EventMetrics.Toml

/-- How a table came about: by its own header, as the parent of one, or by a dotted key. -/
inductive Origin
  | header
  | parent
  | dotted
  deriving DecidableEq, Repr

inductive Node
  | value (v : Toml)
  | table (origin : Origin) (members : List (String × Node))
  /-- An array of tables; the last one is open, the others are in reverse order. -/
  | tables (done : List (List (String × Node))) (current : List (String × Node))

abbrev Members := List (String × Node)

def alter (key : String) (f : Option Node → Option Node) : Members → Option Members
  | [] => (f none).map fun n => [(key, n)]
  | (k, n) :: rest =>
    if k = key then (f (some n)).map fun n => (k, n) :: rest
    else (alter key f rest).map ((k, n) :: ·)

/-- Changes the members of the table at `path`, which is created where it is missing. The last table
of an array stands for the array. -/
def within (f : Members → Option Members) : List String → Members → Option Members
  | [], ms => f ms
  | key :: path, ms =>
    alter key (fun
      | none => (within f path []).map (.table .parent ·)
      | some (.table origin ms) => (within f path ms).map (.table origin ·)
      | some (.tables done current) => (within f path current).map (.tables done ·)
      | some (.value _) => none) ms

/-- A new entry under a dotted key. The table that takes it must have come about by dotted keys, and
none on the way there may have a header. -/
def define (v : Toml) : List String → Members → Option Members
  | [], _ => none
  | [key], ms =>
    alter key (fun
      | none => some (.value v)
      | some _ => none) ms
  | key :: path, ms =>
    alter key (fun
      | none => (define v path []).map (.table .dotted ·)
      | some (.table .dotted ms) => (define v path ms).map (.table .dotted ·)
      | some (.table .parent ms) =>
        if path.length = 1 then none else (define v path ms).map (.table .parent ·)
      | some (.tables done current) =>
        if path.length = 1 then none else (define v path current).map (.tables done ·)
      | some _ => none) ms

def openTable (path : List String) (ms : Members) : Option Members :=
  within
    (alter (path.getLastD "") fun
      | none => some (.table .header [])
      | some (.table .parent members) => some (.table .header members)
      | some _ => none)
    path.dropLast ms

def openElement (path : List String) (ms : Members) : Option Members :=
  within
    (alter (path.getLastD "") fun
      | none => some (.tables [] [])
      | some (.tables done current) => some (.tables (current :: done) [])
      | some _ => none)
    path.dropLast ms

mutual

def Node.close : Node → Toml
  | .value v => v
  | .table _ members => .table (Table.ofList (closeMembers members)).entries
  | .tables done current =>
    .array ((closeAll done).reverse ++ [.table (Table.ofList (closeMembers current)).entries])

def closeMembers : List (String × Node) → List (String × Toml)
  | [] => []
  | (key, n) :: rest => (key, n.close) :: closeMembers rest

def closeAll : List (List (String × Node)) → List Toml
  | [] => []
  | members :: rest => .table (Table.ofList (closeMembers members)).entries :: closeAll rest

end

def closeTable (ms : Members) : Toml := .table (Table.ofList (closeMembers ms)).entries

inductive Frame
  | array (items : List Toml)
  | inline (members : Members) (key : List String)

inductive KeyRole
  | header (element : Bool)
  | entry
  deriving DecidableEq, Repr

inductive Expect
  | statement
  /-- After a bracket at the start of a line. -/
  | bracket
  | keyPart (role : KeyRole) (parts : List String)
  | keyEnd (role : KeyRole) (parts : List String)
  /-- After a line end behind a key in an inline table. -/
  | equals (parts : List String)
  /-- The second bracket that closes the header of an array's table. -/
  | secondBracket
  | lineEnd
  | value
  | scalar (text : List Char)
  /-- A space after a date may be followed by a time. -/
  | dateSpace (text : List Char)
  | itemOrClose
  | itemEnd
  | memberOrClose
  | memberEnd

structure Build where
  root : Members := []
  current : List String := []
  stack : List Frame := []
  key : List String := []
  expect : Expect := .statement

def nestingLimit : Nat := 80

def keyLimit : Nat := 80

def Build.inInline (b : Build) : Bool :=
  match b.stack with
  | .inline _ _ :: _ => true
  | _ => false

def Build.place (b : Build) (v : Toml) : Option Build :=
  match b.stack with
  | [] => do
    let root ← within (define v b.key) b.current b.root
    some { b with root, expect := .lineEnd }
  | .array items :: rest => some { b with stack := .array (v :: items) :: rest, expect := .itemEnd }
  | .inline members key :: rest => do
    let members ← define v key members
    some { b with stack := .inline members [] :: rest, expect := .memberEnd }

def Build.push (b : Build) (f : Frame) (next : Expect) : Option Build :=
  if b.stack.length < nestingLimit then some { b with stack := f :: b.stack, expect := next }
  else none

def Build.closeArray (b : Build) : Option Build :=
  match b.stack with
  | .array items :: rest => { b with stack := rest }.place (.array items.reverse)
  | _ => none

def Build.closeInline (b : Build) : Option Build :=
  match b.stack with
  | .inline members _ :: rest => { b with stack := rest }.place (closeTable members)
  | _ => none

def isBareKey (text : List Char) : Bool :=
  text.all fun c => c.isAlphanum || c = '_' || c = '-'

def keyPart? : Token → Option String
  | .bare text => if isBareKey text then some (String.ofList text) else none
  | .string s multiline => if multiline then none else some s
  | _ => none

def Build.takeKeyPart (b : Build) (role : KeyRole) (parts : List String) (t : Token) :
    Option Build :=
  if parts.length < keyLimit then
    (keyPart? t).map fun part => { b with expect := .keyEnd role (parts ++ [part]) }
  else none

def Build.openHeader (b : Build) (element : Bool) (path : List String) : Option Build := do
  let root ← if element then openElement path b.root else openTable path b.root
  some { b with root, current := path, expect := if element then .secondBracket else .lineEnd }

def Build.openEntry (b : Build) (key : List String) : Build :=
  match b.stack with
  | .inline members _ :: rest => { b with stack := .inline members key :: rest, expect := .value }
  | _ => { b with key, expect := .value }

def Build.startValue (b : Build) : Token → Option Build
  | .blank _ => some b
  | .string s _ => b.place (.string s)
  | .bare text => some { b with expect := .scalar text }
  | .mark '[' => b.push (.array []) .itemOrClose
  | .mark '{' => b.push (.inline [] []) .memberOrClose
  | _ => none

/-- What may follow a complete value or header; `scalar?` has already been asked. -/
def Build.stepSettled (b : Build) (t : Token) : Option Build :=
  match b.expect, t with
  | .lineEnd, .blank _ => some b
  | .lineEnd, .newline => some { b with expect := .statement }
  | .itemEnd, .blank _ | .itemEnd, .newline => some b
  | .itemEnd, .mark ',' => some { b with expect := .itemOrClose }
  | .itemEnd, .mark ']' => b.closeArray
  | .memberEnd, .blank _ | .memberEnd, .newline => some b
  | .memberEnd, .mark ',' => some { b with expect := .memberOrClose }
  | .memberEnd, .mark '}' => b.closeInline
  | _, _ => none

def Build.endScalar (b : Build) (text : List Char) (t : Token) : Option Build := do
  (← b.place (← scalar? text)).stepSettled t

def Build.step (b : Build) (t : Token) : Option Build :=
  match b.expect with
  | .statement =>
    match t with
    | .blank _ | .newline => some b
    | .mark '[' => some { b with expect := .bracket }
    | _ => b.takeKeyPart .entry [] t
  | .bracket =>
    match t with
    | .mark '[' => some { b with expect := .keyPart (.header true) [] }
    | .blank _ => some { b with expect := .keyPart (.header false) [] }
    | _ => b.takeKeyPart (.header false) [] t
  | .keyPart role parts =>
    match t with
    | .blank _ => some b
    | _ => b.takeKeyPart role parts t
  | .keyEnd role parts =>
    match t, role with
    | .blank _, _ => some b
    | .mark '.', _ => some { b with expect := .keyPart role parts }
    | .mark '=', .entry => some (b.openEntry parts)
    | .mark ']', .header element => b.openHeader element parts
    | .newline, .entry => if b.inInline then some { b with expect := .equals parts } else none
    | _, _ => none
  | .equals parts =>
    match t with
    | .blank _ | .newline => some b
    | .mark '=' => some (b.openEntry parts)
    | _ => none
  | .secondBracket => if t = .mark ']' then some { b with expect := .lineEnd } else none
  | .value => if t = .newline ∧ b.inInline then some b else b.startValue t
  | .scalar text =>
    match t with
    | .bare more => some { b with expect := .scalar (text ++ more) }
    | .mark '.' => some { b with expect := .scalar (text ++ ['.']) }
    | .blank ' ' =>
      if isDate text then some { b with expect := .dateSpace text } else b.endScalar text t
    | _ => b.endScalar text t
  | .dateSpace text =>
    match t with
    | .bare (c :: more) =>
      if c.isDigit then some { b with expect := .scalar (text ++ ' ' :: c :: more) }
      else b.endScalar text t
    | _ => b.endScalar text t
  | .itemOrClose =>
    match t with
    | .newline => some b
    | .mark ']' => b.closeArray
    | _ => b.startValue t
  | .memberOrClose =>
    match t with
    | .blank _ | .newline => some b
    | .mark '}' => b.closeInline
    | _ => b.takeKeyPart .entry [] t
  | _ => b.stepSettled t

def build (b : Build) : List Token → Option Build
  | [] => some b
  | t :: rest =>
    match b.step t with
    | none => none
    | some b => build b rest

def read? (text : String) : Option (List (String × Toml)) := do
  let b ← build {} ((← tokens? text) ++ [.newline])
  match b.expect, b.stack with
  | .statement, [] => some (Table.ofList (closeMembers b.root)).entries
  | _, _ => none

end EventMetrics.Toml
