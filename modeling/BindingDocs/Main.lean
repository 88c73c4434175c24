import BindingDocs.Run
import Std.Time.Format

/-!
# The program

Reads the current directory, does what the command line asks for, writes the files that changed, and
tells on the error stream what was done.
-/

namespace BindingDocs

/-- The workspace with what is below a directory added at a location. -/
partial def addBelow (dir : IO.FS.DirEntry) (l : Location) (w : Workspace) : IO Workspace := do
  if ← dir.path.isDir then
    let mut w := w.addDir l
    for e in ← dir.path.readDir do
      w ← addBelow e (l ++ [e.fileName.toList]) w
    return w
  else
    try
      return w.addFile l (← IO.FS.readBinFile dir.path).toList
    catch _ => return w

/-- The workspace in the current directory. -/
def currentWorkspace : IO Workspace := do
  let here ← IO.currentDir
  let l := (Path.components here.toString.toList).drop 1 |>.map Path.Component.text
  let mut w := Workspace.ofFiles l [] []
  for e in ← here.readDir do
    w ← addBelow e (l ++ [e.fileName.toList]) w
  return w

/-- The time that generated files mention. -/
def currentTime : IO String := do
  return (← Std.Time.PlainDateTime.now).format "uuuu-MM-dd HH:mm:ss.SSSSSS"

/-- Writes the files of a workspace that differ from an earlier state. -/
def store (before after : Workspace) : IO Unit := do
  for (path, bytes) in after.changes before do
    let dir := String.ofList (['/'].intercalate ((Text.splitOn '/' path).dropLast))
    if dir ≠ "" then IO.FS.createDirAll dir
    IO.FS.writeBinFile (String.ofList path) ⟨bytes.toArray⟩

end BindingDocs

/-- Does what the command line asks for. -/
def main (arguments : List String) : IO UInt32 := do
  let before ← BindingDocs.currentWorkspace
  let report := BindingDocs.run (← BindingDocs.currentTime) arguments before
  match report with
  | .usage e => IO.eprintln ("error: " ++ e.message ++ "\n\nFor more information, try '--help'.")
  | .help => IO.print BindingDocs.helpText
  | .finished log failure after =>
    for n in log do IO.eprintln n.line
    BindingDocs.store before after
    if let some f := failure then IO.eprintln ("Error: " ++ f.text)
  return report.code.toUInt32
