import BindingDocs.CommandLine
import BindingDocs.Run.ClassPages
import BindingDocs.Run.Generate
import BindingDocs.Run.Inputs
import BindingDocs.Run.Renderer

/-!
# Runs

A run scans the inputs and writes headers, has them rendered, and revises the class pages of the
result.  Each of the three parts can be left out.

## Main definitions

* `loadConfig` — the settings of a run.
* `perform` — the work that options ask for.
* `Report`, `run` — what a command line leads to.
-/

namespace BindingDocs

/-- The settings in a file. -/
def configOf (path : List Char) : Job Config := do
  let text ← Job.require fun w => (readText path w).mapError (.settingsUnreadable path)
  match Config.ofText? text with
  | some c => return c
  | none => Job.fail (.settingsInvalid path)

/-- The settings of a run: those of the named file, or of the default file if there is one, or the
defaults. -/
def loadConfig : Option (List Char) → Job Config
  | some path => configOf path
  | none => do
    if ← Job.look (·.isFile Config.defaultFile) then configOf Config.defaultFile else return {}

/-- The documentation directory must exist; the directory of the headers is made. -/
def checkSetup (c : Config) : Job Unit := do
  if !(← Job.look (·.isDir c.docDir)) then Job.fail (.docDirMissing c.docDir)
  Job.attempt (·.makeDirs c.outputDir) (.outputDirRefused c.outputDir)

/-- Scans the inputs and writes the headers. -/
def scanInputs (generated : String) (o : Options) (c : Config) : Job Unit := do
  checkSetup c
  let paths ← Inputs.expand (if o.files.isEmpty then c.inputs else o.files)
  generate generated c.outputDir paths

/-- The work that options ask for; `generated` is the time that headers mention. -/
def perform (generated : String) (o : Options) : Job Unit := do
  let c := o.apply (← loadConfig o.config)
  if !o.has .postprocessOnly then
    scanInputs generated o c
    if !o.has .skipRender then
      render c.renderer.command c.renderer.config c.docDir c.renderer.timeout
  if !o.has .skipPostprocess then
    let pages ← reviseDir c.htmlDir
    Job.tell [.info ("post-processed " ++ toString pages ++ " page(s)")]

/-- Whether a message is shown. -/
def Options.shows (o : Options) (n : Notice) : Bool :=
  o.has .verbose || (!o.has .quiet && n.level != .debug)

/-- What a command line leads to. -/
inductive Report where
  /-- The command line is refused. -/
  | usage (error : UsageError)
  | help
  /-- A run took place. -/
  | finished (log : List Notice) (failure : Option Failure) (workspace : Workspace)

/-- The status that the program ends with. -/
def Report.code : Report → Nat
  | usage _ => 2
  | help => 0
  | finished _ failure _ => if failure.isSome then 1 else 0

/-- Does what a command line asks for. -/
def run (generated : String) (arguments : List String) (w : Workspace) : Report :=
  match Options.parse arguments with
  | .error e => .usage e
  | .ok .help => .help
  | .ok (.run o) =>
    let outcome := perform generated o w
    let failure := match outcome.result with
      | .ok _ => none
      | .error f => some f
    .finished (outcome.notices.filter o.shows) failure outcome.workspace

end BindingDocs
