import BindingDocs.Header
import BindingDocs.Run.Job
import BindingDocs.Text.Utf8

/-!
# Generating headers

The inputs are scanned in order.  Every input that has something to say gets a header of its own;
what the inputs say about the main page and about enums is collected and written at the end.

## Main definitions

* `generateFile` — scans one input and writes its header.
* `generate` — all inputs, then the main page.
-/

namespace BindingDocs

/-- Writes a text into a file and tells so. -/
def writeText (path : List Char) (text : String) : Job Unit := do
  Job.attempt (·.write path (Text.bytesOf text)) (.unwritable path)
  Job.tell [.info ("wrote " ++ String.ofList path)]

/-- Where the header of an input is written. -/
def headerPath (outputDir path : List Char) : List Char :=
  Path.join outputDir (Header.outputName path).toList

/-- Where the main page is written. -/
def mainPagePath (outputDir : List Char) : List Char :=
  Path.join outputDir Header.mainPageFile.toList

/-- Scans one input and writes its header.  Returns the streams with what the input adds to them. -/
def generateFile (generated : String) (outputDir path : List Char) (streams : Streams) :
    Job Streams := do
  match Dialect.ofPath? path with
  | none =>
    Job.tell [.warn ("skipping " ++ String.ofList path ++ ": unsupported file type")]
    return streams
  | some dialect =>
    Job.tell [.info ("processing " ++ String.ofList path)]
    let bytes ← Job.require fun w => (w.read path).mapError (.inputUnreadable path)
    let scanned := Scan.scan dialect streams (Text.decodeLossy bytes)
    Job.tell scanned.notices
    match scanned.result with
    | .error e => Job.fail (.scan path e)
    | .ok fragments =>
      if fragments.isEmpty then Job.tell [.info ("nothing to do for " ++ String.ofList path)]
      else writeText (headerPath outputDir path) (Header.render fragments generated)
      return scanned.streams

/-- Scans inputs in order. -/
def generateFiles (generated : String) (outputDir : List Char) :
    (paths : List (List Char)) → Streams → Job Streams
  | [], streams => pure streams
  | path :: rest, streams => do
    generateFiles generated outputDir rest (← generateFile generated outputDir path streams)

/-- Scans all inputs in order, then writes the main page. -/
def generate (generated : String) (outputDir : List Char) (paths : List (List Char)) :
    Job Unit := do
  let streams ← generateFiles generated outputDir paths {}
  writeText (mainPagePath outputDir) (Header.renderMainPage streams generated)

end BindingDocs
