import BindingDocs.Fragments
import BindingDocs.Log
import BindingDocs.Scan.Tag

/-!
# The scanner, line by line

The scanner is a machine that reads lines.  Its mode and the line decide the next mode and a list of
effects; nothing that was written before is looked at.

## Main definitions

* `Region` — what a comment has been found to be so far.
* `Mode` — what the scanner is inside of.
* `Effect` — a contribution to the fragments, the streams or the log.
* `Mode.step` — reads one line.
* `Mode.finish` — closes what is open at the end of a file.
-/

namespace BindingDocs.Scan

open Text

/-- What is known of a documentation comment. -/
structure Region where
  /-- Free text goes to the main page. -/
  mainPage : Bool := false
  /-- Some command was recognised, so that free text is worth keeping. -/
  hasCommand : Bool := false
  /-- The enum whose group is open. -/
  pending : Option EnumSpec := none
deriving DecidableEq, Repr

/-- What the scanner is inside of. -/
inductive Mode where
  /-- Source text. -/
  | code
  /-- A method table, with the names listed so far and the enum that was waiting for its table. -/
  | methods (kind : MethodKind) (names : List String) (resume : Option EnumSpec)
  /-- A documentation comment. -/
  | comment (region : Region)
  /-- Source text after the comment of an enum, before its table. -/
  | awaiting (spec : EnumSpec)
  /-- The table of an enum. -/
  | rows (spec : EnumSpec)
deriving DecidableEq, Repr

/-- A contribution of a line. -/
inductive Effect where
  /-- A fragment of the comment stream. -/
  | comment (fragment : String)
  /-- A fragment of the main page. -/
  | mainPage (fragment : String)
  /-- A fragment of the enum stream. -/
  | enums (fragment : String)
  /-- A registration, which sets the opening of the class. -/
  | register (r : Registration)
  /-- A class without registration, which gets an opening unless it has one. -/
  | openClass (name : String)
  /-- Methods of the objects of a class. -/
  | methods (owner : String) (names : List String)
  /-- Methods of the class itself. -/
  | statics (owner : String) (names : List String)
  /-- The marker method of a class. -/
  | marker (owner : String)
  /-- A documented function and the line that documents it. -/
  | declare (sig : Signature) (source : List Char)
  /-- A message. -/
  | notice (n : Notice)
deriving DecidableEq, Repr

/-- The mode in which an enum, if there is one, waits for its table. -/
def Mode.resume : Option EnumSpec → Mode
  | some spec => .awaiting spec
  | none => .code

/-- The line as a fragment of its own. -/
def asFragment (line : List Char) : String := String.ofList line ++ "\n"

/-- The opening of a comment block. -/
def blockOpen : String := "/*!\n"

/-- The closing of a comment block. -/
def blockClose : String := "*/\n"

/-- Whether a line opens a comment that it does not close. -/
def opensComment (d : Dialect) (line : List Char) : Bool :=
  match splitFirst? d.opener.toList line with
  | some (_, rest) => !contains d.closer.toList rest
  | none => false

/-- Scripts have classes only in their documentation. -/
def normalise (d : Dialect) (line : List Char) : List Char :=
  if d = .bracketed then replace "@luaclass".toList "@luavclass".toList line else line

namespace Mode

/-- A line of source text. -/
def codeLine (d : Dialect) (line : List Char) : Mode × List Effect :=
  match MethodKind.start? line with
  | some kind => (methods kind [] none, [])
  | none =>
    if opensComment d line then (comment {}, [.comment blockOpen]) else (code, [])

/-- A line of a method table. -/
def methodsLine (kind : MethodKind) (names : List String) (pending : Option EnumSpec)
    (line : List Char) : Mode × List Effect :=
  match kind.owner? line with
  | some owner =>
    (resume pending,
      match kind with
      | .ofObjects => [.methods owner names]
      | .ofClass => [.statics owner names])
  | none => (methods kind (names ++ (kind.row? line).toList) pending, [])

/-- The effects of a documented function. -/
def funcEffects (sig : Signature) (line : List Char) : List Effect :=
  .comment sig.target :: (if sig.isConstructor then [.comment sig.sample] else []) ++
    [.declare sig line]

/-- The effects of free text: it belongs to the main page, else to the open enum group, else to the
comments if a command came before it, else nowhere. -/
def freeText (r : Region) (line : List Char) : List Effect :=
  if r.mainPage then [.mainPage (asFragment line)]
  else if r.pending.isSome then [.enums (asFragment line)]
  else if r.hasCommand then [.comment (asFragment line)]
  else []

/-- The effects of a new enum: the group of an earlier one without a table is closed. -/
def enumEffects (r : Region) (spec : EnumSpec) : List Effect :=
  (if r.pending.isSome then [.enums EnumSpec.groupAbandon] else []) ++
    [.notice (.debug ("enum " ++ spec.name ++ " (value column " ++ toString spec.value ++ ")")),
      .enums spec.groupOpen]

/-- A line of a comment, unless it closes the comment.  The only failure is a function command
without a method name. -/
def tagLine (d : Dialect) (r : Region) (line : List Char) : Option (Region × List Effect) :=
  let found : Region := { r with hasCommand := true }
  match Tag.ofLine? line with
  | some .page => some ({ found with mainPage := true }, [.mainPage (asFragment line)])
  | some .par => some (found, [])
  | some (.enum spec) => some ({ found with pending := some spec }, enumEffects r spec)
  | some (.geom body) => some (r, [.comment (Declaration.geometry body)])
  | some (.listing name) => some (found, [.marker name, .comment (Declaration.markerTarget name)])
  | some .func => (Signature.parse? d line).map fun sig => (found, funcEffects sig line)
  | some (.ofClass name) => some (found, [.comment (Declaration.classTarget name)])
  | some (.ofVirtualClass name) =>
    some (found, [.comment (Declaration.classTarget name), .openClass name])
  | some (.descr text) => some (found, [.comment (Declaration.description text)])
  | none => some (r, freeText r line)

/-- A line of a comment. -/
def commentLine (d : Dialect) (r : Region) (line : List Char) : Option (Mode × List Effect) :=
  if contains d.closer.toList line then some (resume r.pending, [.comment blockClose])
  else (tagLine d r line).map fun (r, effects) => (comment r, effects)

/-- A line between the comment of an enum and its table. -/
def awaitingLine (d : Dialect) (spec : EnumSpec) (line : List Char) : Mode × List Effect :=
  match MethodKind.start? line with
  | some kind => (methods kind [] (some spec), [])
  | none =>
    if opensComment d line then (comment { pending := some spec }, [.comment blockOpen])
    else if isDefine line then (rows spec, spec.tableStart.map .enums)
    else (awaiting spec, [])

/-- A line of the table of an enum. -/
def rowsLine (spec : EnumSpec) (line : List Char) : Mode × List Effect :=
  let (bullets, more) := spec.readRow line
  if more then (rows spec, bullets.map .enums)
  else (code, (bullets ++ EnumSpec.tableEnd).map .enums)

/-- Reads a line by the rules of the mode. -/
def dispatch (d : Dialect) (line : List Char) : Mode → Option (Mode × List Effect)
  | code => some (codeLine d line)
  | methods kind names pending => some (methodsLine kind names pending line)
  | comment r => commentLine d r line
  | awaiting spec => some (awaitingLine d spec line)
  | rows spec => some (rowsLine spec line)

/-- Whether registrations are recognised: everywhere but in the table of an enum. -/
def seesRegistration : Mode → Bool
  | rows _ => false
  | _ => true

/-- Reads one line.  A registration takes the line whatever else stands on it. -/
def step (d : Dialect) (m : Mode) (raw : List Char) : Option (Mode × List Effect) :=
  let line := normalise d raw
  match if m.seesRegistration then Registration.ofLine? line else none with
  | some r => some (m, [.register r])
  | none => dispatch d line m

/-- A message that something is wrong with the input. -/
def warning (text : String) : Effect := .notice (.warn text)

/-- Closes what is open at the end of a file. -/
def finish : Mode → List Effect
  | code => []
  | methods _ names pending =>
    warning ("method table never generated; dropping " ++ toString names.length ++ " names") ::
      match pending with
      | some spec =>
        [warning ("no table found for enum " ++ spec.name), .enums EnumSpec.groupAbandon]
      | none => []
  | comment r =>
    [warning "comment still open at end of file", .comment blockClose] ++
      if r.pending.isSome then [.enums EnumSpec.groupAbandon] else []
  | awaiting spec =>
    [warning ("no table found for enum " ++ spec.name), .enums EnumSpec.groupAbandon]
  | rows spec =>
    warning ("enum table " ++ spec.name ++ " still open at end of file") ::
      EnumSpec.tableEnd.map .enums

end Mode

end BindingDocs.Scan
