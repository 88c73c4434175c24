import BindingDocs.Run.Job

/-!
# The renderer

The renderer is a command that is given the path of its settings and runs in the documentation
directory.  It is started, may not take longer than a number of seconds, and must end with the
status zero.

## Main definitions

* `Ending`, `Command` — how a command ends, and what it does.
* `Command.find?` — the commands that can be run.
* `render` — runs the renderer.
-/

namespace BindingDocs

/-- How a command ends. -/
structure Ending where
  /-- The full seconds that it takes. -/
  seconds : Nat := 0
  status : Nat
  workspace : Workspace

/-- What a command does with its argument in a directory. -/
def Command := (directory : Location) → (argument : List Char) → Workspace → Ending

namespace Command

/-- Reads the file it is given. -/
def cat : Command := fun directory argument w =>
  match w.findFrom directory argument with
  | .ok (.file _) => { status := 0, workspace := w }
  | _ => { status := 1, workspace := w }

/-- Makes the file it is given, unless there is one. -/
def touch : Command := fun directory argument w =>
  match w.findFrom directory argument with
  | .ok _ => { status := 0, workspace := w }
  | .error _ =>
    match w.writeFrom directory argument [] with
    | .ok w => { status := 0, workspace := w }
    | .error _ => { status := 1, workspace := w }

/-- The full seconds of a number of seconds. -/
def seconds? (s : List Char) : Option Nat :=
  match s.span (· != '.') with
  | (whole, rest) =>
    if whole ≠ [] ∧ whole.all Char.isDigit ∧ (rest.drop 1).all Char.isDigit then
      some (whole.foldl (fun n d => n * 10 + (d.toNat - '0'.toNat)) 0)
    else none

/-- Waits for the seconds it is given. -/
def sleep : Command := fun _ argument w =>
  match seconds? argument with
  | some n => { seconds := n, status := 0, workspace := w }
  | none => { status := 1, workspace := w }

/-- Does nothing and ends with a status. -/
def stop (status : Nat) : Command := fun _ _ w => { status, workspace := w }

/-- The command with a name. -/
def find? : String → Option Command
  | "true" => some (stop 0)
  | "false" => some (stop 1)
  | "cat" => some cat
  | "touch" => some touch
  | "sleep" => some sleep
  | _ => none

end Command

/-- Runs the renderer in a directory and waits until it has ended, for less than `timeout`
seconds. -/
def render (command : String) (settings directory : List Char) (timeout : Nat) : Job Unit := do
  Job.tell [.info ("running " ++ command ++ " " ++ String.ofList settings)]
  match Command.find? command with
  | none => Job.fail (.render (.notStarted command .notFound))
  | some run =>
    let base ← Job.look fun w => (w.resolve directory).toOption.getD w.current
    let ending ← Job.look fun w => run base settings w
    if timeout ≤ ending.seconds then Job.fail (.render (.timeout command timeout))
    else
      Job.attempt (fun _ => .ok ending.workspace) (.unwritable directory)
      Job.tell [.debug (command ++ " finished after " ++ toString ending.seconds ++ "s")]
      if ending.status ≠ 0 then Job.fail (.render (.failed command ending.status))

end BindingDocs
