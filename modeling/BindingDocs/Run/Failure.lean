import BindingDocs.Glob.Pattern
import BindingDocs.Page.Revise
import BindingDocs.Scan.Run
import BindingDocs.Workspace

/-!
# Why a run fails

Every way in which a run can come to an end before its work is done, and how it is told: the
outermost message first, then what caused it.

## Main definitions

* `Unreadable` — why the text of a file cannot be had.
* `RenderError` — why the renderer did not do its work.
* `Failure` — why a run fails.
* `Failure.chain`, `Failure.text` — the messages of a failure, and how they are written.
-/

namespace BindingDocs

/-- Why the text of a file cannot be had. -/
inductive Unreadable where
  | fault (f : Fault)
  /-- The bytes of the file are no text. -/
  | notText
deriving DecidableEq, Repr

/-- The text of the reason. -/
def Unreadable.message : Unreadable → String
  | .fault f => f.message
  | .notText => "stream did not contain valid UTF-8"

/-- Why the renderer did not do its work. -/
inductive RenderError where
  /-- The command cannot be run. -/
  | notStarted (command : String) (fault : Fault)
  /-- The command took longer than it may. -/
  | timeout (command : String) (seconds : Nat)
  /-- The command ended with a status other than zero. -/
  | failed (command : String) (status : Nat)
deriving DecidableEq, Repr

/-- The messages of the error. -/
def RenderError.chain : RenderError → List String
  | .notStarted command fault =>
    ["failed to start `" ++ command ++ "`: " ++ fault.message, fault.message]
  | .timeout command seconds =>
    ["`" ++ command ++ "` did not finish within " ++ toString seconds ++ "s"]
  | .failed command status => ["`" ++ command ++ "` exited with exit status: " ++ toString status]

/-- Why a run fails. -/
inductive Failure where
  | settingsUnreadable (path : List Char) (why : Unreadable)
  | settingsInvalid (path : List Char)
  | docDirMissing (dir : List Char)
  | outputDirRefused (dir : List Char) (fault : Fault)
  | badPattern (pattern : List Char) (error : Glob.PatternError)
  | inputUnreadable (path : List Char) (fault : Fault)
  | scan (path : List Char) (error : Scan.ScanError)
  | unwritable (path : List Char) (fault : Fault)
  | render (error : RenderError)
  | htmlDirMissing (dir : List Char)
  | pageUnreadable (path : List Char) (why : Unreadable)
  | page (path : List Char) (error : PageError)
deriving DecidableEq, Repr

namespace Failure

/-- The messages of the failure, each caused by the next. -/
def chain : Failure → List String
  | settingsUnreadable path why => ["failed to read config: " ++ String.ofList path, why.message]
  | settingsInvalid path =>
    ["in " ++ String.ofList path, "invalid configuration", "not a table of known settings"]
  | docDirMissing dir => ["documentation directory not found: " ++ String.ofList dir]
  | outputDirRefused dir fault =>
    ["failed to create output directory: " ++ String.ofList dir, fault.message]
  | badPattern pattern error => ["invalid glob pattern: " ++ String.ofList pattern, error.message]
  | inputUnreadable path fault => ["failed to read " ++ String.ofList path, fault.message]
  | scan path error => ["in " ++ String.ofList path, error.message]
  | unwritable path fault => ["failed to write " ++ String.ofList path, fault.message]
  | render error => error.chain
  | htmlDirMissing dir => ["HTML directory not found: " ++ String.ofList dir]
  | pageUnreadable path why => ["failed to read " ++ String.ofList path, why.message]
  | page path (.revision e) => ["while rewriting " ++ String.ofList path, e.message]
  | page _ e => [e.message]

/-- A message with its further lines set in. -/
def indent (margin : String) (message : String) : String :=
  String.ofList (Text.replace ['\n'] ('\n' :: margin.toList) message.toList)

/-- Causes with their numbers, from `n` on. -/
def numbered : (n : Nat) → List String → List String
  | _, [] => []
  | n, cause :: rest =>
    ("\n    " ++ toString n ++ ": " ++ indent "       " cause) :: numbered (n + 1) rest

/-- The failure as it is written: the first message, and below it the causes, which have numbers if
there are several. -/
def text (f : Failure) : String :=
  match f.chain with
  | [] => ""
  | [message] => message
  | [message, cause] => message ++ "\n\nCaused by:\n    " ++ indent "    " cause
  | message :: causes => message ++ "\n\nCaused by:" ++ String.join (numbered 0 causes)

end Failure

end BindingDocs
