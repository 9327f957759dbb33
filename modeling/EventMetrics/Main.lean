import EventMetrics.CommandLine

namespace EventMetrics.Program

def placeOf (text : String) : Location := ⟨(text.splitOn "/").filter (!·.isEmpty)⟩

def withDirectories (fs : Files) (l : Location) : Files :=
  (List.range l.names.length).foldl (fun fs n => fs.put ⟨l.names.take (n + 1)⟩ .directory) fs

def readFile (fs : Files) (text : String) : IO Files := do
  try
    let content ← IO.FS.readFile text
    return (withDirectories fs (placeOf text).parent).put (placeOf text) (.file content)
  catch _ => return fs

def readTree : Nat → Files → String → IO Files
  | 0, fs, _ => return fs
  | depth + 1, fs, text => do
    let directory := System.mkFilePath [text]
    if !(← directory.isDir) then return fs
    let mut fs := withDirectories fs (placeOf text)
    for entry in ← directory.readDir do
      let name := entry.path.toString
      if ← entry.path.isDir then fs ← readTree depth fs name
      else fs ← readFile fs name
    return fs

def depthLimit : Nat := 32

def readFor (fs : Files) (home : Path) (config : Path) (events : Option String) : IO Files := do
  let directory := ((home.join config).parent?.getD home).text
  let fs ← readTree depthLimit fs directory
  match events with
  | some name => readFile fs (home.join ⟨name⟩).text
  | none => return fs

def takeIn (home : Path) : Command → IO Files
  | .check config => readFor start home config none
  | .replay config events _ => readFor start home config (some events.text)
  | .run config events _ => readFor start home config (some events)
where
  start : Files := withDirectories { Files.withDevices with home := placeOf home.text } (placeOf home.text)

def putBack (before : Files) (place : Location) (n : Node) : IO Unit := do
  let text := (Path.ofSegments true place.names).text
  match n, before.node? place with
  | .directory, none => IO.FS.createDirAll text
  | .file after, old =>
    let known := match old with
      | some (.file t) => t.length
      | _ => 0
    if old.isNone || known < after.length then
      IO.FS.withFile text .append fun h => h.putStr (String.ofList (after.toList.drop known))
  | _, _ => return

def putAllBack (before after : Files) : IO Unit :=
  after.nodes.entries.forM fun (place, n) => putBack before place n

def inputFor : Command → IO String
  | .run _ "-" _ => IO.FS.readFile "/dev/stdin"
  | _ => return ""

end EventMetrics.Program

open EventMetrics Program in
def main (arguments : List String) : IO UInt32 := do
  let home : Path := ⟨(← IO.currentDir).toString⟩
  let command := Command.ofArguments? arguments
  let files ← command.elim (return {}) (takeIn home)
  let input ← command.elim (return "") inputFor
  match (CommandLine.execute arguments { files, input, logFilter := ← IO.getEnv "LOG_FILTER" }).run with
  | some (.ok outcome) =>
    putAllBack files outcome.console.files
    IO.print outcome.console.out
    IO.eprint outcome.console.err
    return outcome.code.toUInt32
  | some (.error .overflow) =>
    IO.eprintln "attempt to compute with overflow"
    return 101
  | none => return 1
