import BindingDocs.Scan.Mode

/-!
# Scanning a file

The effects of the lines of a file, in order, are interpreted on the fragments of the file and the
streams of the run.

## Main definitions

* `Effect.onFile`, `Effect.onStreams` — what an effect does.
* `runLines` — the effects of a list of lines and where it ended.
* `scan` — reads one file.
-/

namespace BindingDocs.Scan

open Text

/-- Adds a documented function.  A function that is not a constructor replaces the stub that a
method table gave for it. -/
def declareIn (sig : Signature) (source : List Char) (f : FileFragments) : FileFragments :=
  match sig.owner with
  | none => { f with globals := f.globals ++ [sig.declaration source] }
  | some owner =>
    f.updateClass owner fun c =>
      let c := if sig.isConstructor then c else c.remove (Declaration.methodStub sig.method)
      c.add [sig.declaration source]

/-- What an effect does to the fragments of the file. -/
def Effect.onFile (f : FileFragments) : Effect → FileFragments
  | .comment fragment => { f with comments := f.comments ++ [fragment] }
  | .register r =>
    f.updateClass r.name fun c => { c with header := Declaration.classOpening r.name r.parent }
  | .openClass name =>
    f.updateClass name fun c => c.openIfUnset (Declaration.classOpening name none)
  | .methods owner names => f.updateClass owner fun c => c.add (names.map Declaration.methodStub)
  | .statics owner names =>
    f.updateClass owner fun c =>
      let c := c.openIfUnset (Declaration.classOpening owner none)
      { c with body := addStatics c.body names }
  | .marker owner => f.updateClass owner fun c => c.add [Declaration.markerStub]
  | .declare sig source => declareIn sig source f
  | .mainPage _ | .enums _ | .notice _ => f

/-- What an effect does to the streams of the run. -/
def Effect.onStreams (s : Streams) : Effect → Streams
  | .mainPage fragment => { s with mainPage := s.mainPage ++ [fragment] }
  | .enums fragment => { s with enums := s.enums ++ [fragment] }
  | _ => s

/-- The message of an effect. -/
def Effect.notice? : Effect → Option Notice
  | .notice n => some n
  | _ => none

/-- Why a file cannot be scanned: a function annotation on this line names no method. -/
structure ScanError where
  /-- The number of the line, counted from one. -/
  line : Nat
  /-- The line without blanks at its ends. -/
  text : String
deriving DecidableEq, Repr

/-- The text of the error. -/
def ScanError.message (e : ScanError) : String :=
  "line " ++ toString e.line ++ ": couldn't get method name from `" ++ e.text ++ "`"

/-- Reads lines in turn, the first of which has the number `n`.  Returns the effects of the lines
that were accepted, and the last mode or the error that stopped the reading. -/
def runLines (d : Dialect) : (n : Nat) → Mode → List (List Char) →
    List Effect × Except ScanError Mode
  | _, m, [] => ([], .ok m)
  | n, m, line :: rest =>
    match m.step d line with
    | none => ([], .error ⟨n, String.ofList (trim (normalise d line))⟩)
    | some (m, effects) =>
      let (later, result) := runLines d (n + 1) m rest
      (effects ++ later, result)

/-- The effects of a whole text and the error that stopped it, if any. -/
def effects (d : Dialect) (text : List Char) : List Effect × Option ScanError :=
  match runLines d 1 .code (lines text) with
  | (es, .ok m) => (es ++ m.finish, none)
  | (es, .error e) => (es, some e)

/-- What scanning a file leads to. -/
structure Outcome where
  /-- The fragments, or why there are none. -/
  result : Except ScanError FileFragments
  /-- The streams with what the file added before its end or its error. -/
  streams : Streams
  /-- The messages, in order. -/
  notices : List Notice

/-- Scans one file, given the streams of the files before it. -/
def scan (d : Dialect) (streams : Streams) (text : List Char) : Outcome :=
  let (es, error) := effects d text
  { result :=
      match error with
      | none => .ok (es.foldl Effect.onFile {})
      | some e => .error e
    streams := es.foldl Effect.onStreams streams
    notices := es.filterMap Effect.notice? }

end BindingDocs.Scan
