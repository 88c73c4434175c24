import BindingDocs.Glob.Find
import BindingDocs.Run.Job

/-!
# Class pages

The pages of classes in the renderer's output are revised in place, one after the other.  The first
page that cannot be processed stops the work.

## Main definitions

* `classPages` — the pages of classes in a directory.
* `reviseFile` — revises one page.
* `reviseDir` — revises all pages of a directory.
-/

namespace BindingDocs

/-- The pattern of the names of class pages. -/
def classPagePattern : List Char := "class_*.html".toList

/-- The pages of classes directly in a directory, in the order of their paths. -/
def classPages (dir : List Char) (w : Workspace) : List (List Char) :=
  match Glob.PathPattern.parse (Glob.escape dir ++ '/' :: classPagePattern) with
  | .error _ => []
  | .ok p => ((p.find w).filter w.isFile).foldl (fun ps p => Path.insertSorted p ps) []

/-- The text of a file. -/
def readText (path : List Char) (w : Workspace) : Except Unreadable (List Char) :=
  match w.read path with
  | .error f => .error (.fault f)
  | .ok bytes =>
    match Text.decode? bytes with
    | some text => .ok text
    | none => .error .notText

/-- Revises one page. -/
def reviseFile (path : List Char) : Job Unit := do
  Job.tell [.debug ("rewriting " ++ String.ofList path)]
  let text ← Job.require fun w => (readText path w).mapError (.pageUnreadable path)
  let (result, notices) := processPage (String.ofList path) text
  Job.tell notices
  match result with
  | .error e => Job.fail (.page path e)
  | .ok html =>
    Job.attempt (·.write path (Text.bytesOf html)) (.unwritable path)
    Job.tell [.info ("fixed " ++ String.ofList path)]

/-- Revises pages in order. -/
def reviseFiles : List (List Char) → Job Unit
  | [] => pure ()
  | path :: rest => do
    reviseFile path
    reviseFiles rest

/-- Revises the class pages of a directory.  Returns how many there are. -/
def reviseDir (dir : List Char) : Job Nat := do
  if !(← Job.look (·.isDir dir)) then Job.fail (.htmlDirMissing dir)
  let pages ← Job.look (classPages dir)
  if pages.isEmpty then Job.tell [.info ("no class pages in " ++ String.ofList dir)]
  else
    Job.tell [.info ("fixing doxygen output in " ++ String.ofList dir)]
    reviseFiles pages
  return pages.length

end BindingDocs
