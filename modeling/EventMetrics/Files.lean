import EventMetrics.Path
import EventMetrics.Table

namespace EventMetrics

/-- A place in the tree: the names that lead there from the root. -/
structure Location where
  names : List String := []
  deriving DecidableEq, Repr

namespace Location

def child (l : Location) (name : String) : Location := ⟨l.names ++ [name]⟩

def parent (l : Location) : Location := ⟨l.names.dropLast⟩

end Location

/-- No name holds the separator, so the order goes name by name. -/
instance : Keyed Location := ⟨fun l => String.join (l.names.map ("\x00" ++ ·))⟩

inductive Node
  | directory
  | file (text : String)
  /-- Reads as empty; takes every line, or none. -/
  | device (isFull : Bool)
  deriving DecidableEq, Repr

inductive FileError
  | notFound
  | notADirectory
  | isADirectory
  | alreadyExists
  | nameTooLong
  | noSpace
  | zeroInName
  deriving DecidableEq, Repr

def FileError.message : FileError → String
  | notFound => "No such file or directory (os error 2)"
  | alreadyExists => "File exists (os error 17)"
  | notADirectory => "Not a directory (os error 20)"
  | isADirectory => "Is a directory (os error 21)"
  | noSpace => "No space left on device (os error 28)"
  | nameTooLong => "File name too long (os error 36)"
  | zeroInName => "file name contained an unexpected NUL byte"

structure Files where
  nodes : Table Location Node := .empty
  home : Location := {}

namespace Files

def node? (fs : Files) (l : Location) : Option Node :=
  if l.names.isEmpty then some .directory else fs.nodes.get? l

def put (fs : Files) (l : Location) (n : Node) : Files := { fs with nodes := fs.nodes.insert l n }

def walk (fs : Files) : Location → List String → Except FileError Location
  | l, [] => .ok l
  | l, s :: rest =>
    match fs.node? l with
    | none => .error .notFound
    | some .directory =>
      if Path.isFiller s then fs.walk l rest
      else if s = ".." then fs.walk l.parent rest
      else if 255 < s.utf8ByteSize then .error .nameTooLong
      else fs.walk (l.child s) rest
    | some _ => .error .notADirectory

/-- What the text of a path forbids before any name is looked up. A zero byte would end the text, and
with that byte after it the text fits in 4096 bytes. -/
def checkText (p : Path) : Except FileError Unit :=
  if p.text.contains '\x00' then .error .zeroInName
  else if 4096 ≤ p.text.utf8ByteSize then .error .nameTooLong
  else .ok ()

def follow (fs : Files) (p : Path) : Except FileError Location :=
  if p.text.contains '\x00' then .error .zeroInName
  else if p.text.isEmpty then .error .notFound
  else fs.walk (if p.isAbsolute then {} else fs.home) p.segments

def locate (fs : Files) (p : Path) : Except FileError Location := do
  checkText p
  fs.follow p

def find? (fs : Files) (p : Path) : Option Node := do
  let l ← (fs.locate p).toOption
  fs.node? l

def contains (fs : Files) (p : Path) : Bool := (fs.find? p).isSome

def isDirectory (fs : Files) (p : Path) : Bool := fs.find? p = some .directory

/-- The absolute path without fillers and steps up. It is found name by name, so the text of `p` may
be of any length. -/
def canonical (fs : Files) (p : Path) : Except FileError Path := do
  let l ← fs.follow p
  if (fs.node? l).isNone then throw .notFound
  return .ofSegments true l.names

def read (fs : Files) (p : Path) : Except FileError String := do
  let l ← fs.locate p
  match fs.node? l with
  | none => throw .notFound
  | some .directory => throw .isADirectory
  | some (.file text) => return text
  | some (.device _) => return ""

def createDirectory (fs : Files) (l : Location) (isLast : Bool) : Except FileError Files :=
  match fs.node? l with
  | none => .ok (fs.put l .directory)
  | some .directory => .ok fs
  | some _ => .error (if isLast then .alreadyExists else .notADirectory)

def createAlong (fs : Files) (l : Location) : List String → Except FileError Files
  | [] => .ok fs
  | s :: rest =>
    if Path.isFiller s then fs.createAlong l rest
    else if s = ".." then fs.createAlong l.parent rest
    else if 255 < s.utf8ByteSize then .error .nameTooLong
    else do
      let made ← fs.createDirectory (l.child s) rest.isEmpty
      made.createAlong (l.child s) rest

def createDirectories (fs : Files) (p : Path) : Except FileError Files := do
  checkText p
  fs.createAlong (if p.isAbsolute then {} else fs.home) (Path.withoutTail p.segments)

def openToAppend (fs : Files) (p : Path) : Except FileError (Files × Location) := do
  checkText p
  if p.text.endsWith "/" then throw .isADirectory
  let l ← fs.locate p
  match fs.node? l with
  | none => return (fs.put l (.file ""), l)
  | some .directory => throw .isADirectory
  | some _ => return (fs, l)

def openWithDirectories (fs : Files) (p : Path) : Except FileError (Files × Location) := do
  match p.parent? with
  | none => fs.openToAppend p
  | some directory =>
    let made ← if directory.text.isEmpty then .ok fs else fs.createDirectories directory
    made.openToAppend p

def append (fs : Files) (l : Location) (text : String) : Except FileError Files :=
  match fs.node? l with
  | some (.file before) => .ok (fs.put l (.file (before ++ text)))
  | some (.device false) => .ok fs
  | some (.device true) => .error .noSpace
  | some .directory => .error .isADirectory
  | none => .error .notFound

def appendIfTaken (fs : Files) (l : Location) (text : String) : Files :=
  match fs.append l text with
  | .ok after => after
  | .error _ => fs

def takesWrites (fs : Files) (l : Location) : Bool := (fs.append l "").toOption.isSome

def below (fs : Files) (p : Path) : List (List String × Node) :=
  match fs.locate p with
  | .error _ => []
  | .ok l =>
    fs.nodes.entries.filterMap fun (place, n) =>
      if l.names.isPrefixOf place.names && l.names.length < place.names.length then
        some (place.names.drop l.names.length, n)
      else none

def entryNames (fs : Files) (p : Path) : List String :=
  (fs.below p).filterMap fun
    | ([name], _) => some name
    | _ => none

def withDevices : Files :=
  let full : Files := { nodes := Table.ofList [(⟨["dev"]⟩, .directory)] }
  (full.put ⟨["dev", "full"]⟩ (.device true)).put ⟨["dev", "null"]⟩ (.device false)

/-- A file with its directories; left out where a directory of that name is in the way. -/
def write (fs : Files) (p : Path) (text : String) : Files :=
  match fs.openWithDirectories p with
  | .ok (opened, l) => opened.put l (.file text)
  | .error _ => fs

end Files

end EventMetrics
