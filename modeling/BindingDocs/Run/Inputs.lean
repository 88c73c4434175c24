import BindingDocs.Dialect
import BindingDocs.Glob.Find
import BindingDocs.Run.Job

/-!
# Inputs

An input is a file, a directory whose files are meant, or a pattern.  The files of all inputs are
put in the order of their paths, each once.

## Main definitions

* `Inputs.found` — the files of one input.
* `Inputs.expand` — the files of all inputs.
-/

namespace BindingDocs.Inputs

/-- The files directly in a directory that can be scanned. -/
def scannable (w : Workspace) (dir : List Char) : List (List Char) :=
  ((w.names dir).map (Path.join dir)).filter fun p => w.isFile p && (Dialect.ofPath? p).isSome

/-- The files of one input. -/
def found (input : List Char) (w : Workspace) : Except Failure (List (List Char)) :=
  if w.isFile input then .ok [input]
  else if w.isDir input then .ok (scannable w input)
  else
    match Glob.PathPattern.parse input with
    | .error e => .error (.badPattern input e)
    | .ok p => .ok ((p.find w).filter w.isFile)

/-- Adds the files of inputs to files already found. -/
def add (files : List (List Char)) : (inputs : List (List Char)) → Job (List (List Char))
  | [] => pure files
  | input :: rest => do
    let own ← Job.require (found input)
    if own.isEmpty then Job.tell [.warn ("no files matched: " ++ String.ofList input)]
    Job.tell [.debug (String.ofList input ++ ": " ++ toString own.length ++ " file(s)")]
    add (own.foldl (fun files p => Path.insertSorted p files) files) rest

/-- The files of all inputs, in the order of their paths. -/
def expand (inputs : List (List Char)) : Job (List (List Char)) := add [] inputs

end BindingDocs.Inputs
