import BindingDocs.Path

/-!
# Files and directories

A workspace is everything a run can see and change: files with their bytes, and directories, each at
a location that is given by the names from the root on.  Paths are resolved from the current
directory, step by step; every step but the last must lead to a directory.

## Main definitions

* `Fault` — why a path cannot be used.
* `Workspace` — files and directories, and the current directory.
* `Workspace.locate`, `Workspace.resolve` — the location of a path.
* `Workspace.read`, `Workspace.write`, `Workspace.makeDirs`, `Workspace.names` — what can be done
  with paths.
* `Workspace.changes` — the files that differ from an earlier state.

## Main results

* `Workspace.get?_put` — a change at one location leaves all others as they are.
-/

namespace BindingDocs

open Text

/-- Why a path cannot be used. -/
inductive Fault where
  | notFound
  | alreadyExists
  | notADirectory
  | isADirectory
deriving DecidableEq, Repr

/-- The text of the fault. -/
def Fault.message : Fault → String
  | notFound => "No such file or directory (os error 2)"
  | alreadyExists => "File exists (os error 17)"
  | notADirectory => "Not a directory (os error 20)"
  | isADirectory => "Is a directory (os error 21)"

/-- What stands at a location. -/
inductive Entry where
  | file (bytes : List UInt8)
  | dir
deriving DecidableEq, Repr

/-- The names from the root of the file system on. -/
abbrev Location := List (List Char)

/-- Files and directories, and the directory that paths begin in. -/
structure Workspace where
  current : Location := []
  /-- What stands where.  The root is always a directory. -/
  entries : List (Location × Entry) := []
deriving DecidableEq, Repr, Inhabited

namespace Workspace

/-! ### Locations -/

/-- What stands at a location. -/
def get? (w : Workspace) : Location → Option Entry
  | [] => some .dir
  | l => w.entries.lookup l

/-- A list of entries with the entry at one location set. -/
def setEntry (l : Location) (e : Entry) : List (Location × Entry) → List (Location × Entry)
  | [] => [(l, e)]
  | (m, f) :: rest => if m = l then (l, e) :: rest else (m, f) :: setEntry l e rest

/-- The workspace with the entry at one location set. -/
def put (l : Location) (e : Entry) (w : Workspace) : Workspace :=
  { w with entries := setEntry l e w.entries }

/-- Looking up a location in a list where one entry was set. -/
theorem lookup_setEntry (l m : Location) (e : Entry) (es : List (Location × Entry)) :
    (setEntry l e es).lookup m = if m = l then some e else es.lookup m := by
  induction es with
  | nil =>
    by_cases h : m = l
    · simp [setEntry, h]
    · simp [setEntry, h, List.lookup_cons, beq_eq_false_iff_ne.2 h]
  | cons p es ih =>
    obtain ⟨k, f⟩ := p
    unfold setEntry
    split
    · next h =>
      subst h
      by_cases hm : m = k
      · simp [hm]
      · simp [List.lookup_cons, beq_eq_false_iff_ne.2 hm, hm]
    · next h =>
      by_cases hm : m = k
      · have : m ≠ l := fun e => h (hm ▸ e)
        simp [hm, h]
      · simp [List.lookup_cons, beq_eq_false_iff_ne.2 hm, ih]

/-- A change at one location other than the root leaves all others as they are. -/
theorem get?_put (w : Workspace) (l m : Location) (e : Entry) (h : l ≠ []) :
    (w.put l e).get? m = if m = l then some e else w.get? m := by
  cases m with
  | nil => simp [get?, Ne.symm h]
  | cons a m => simp [get?, put, lookup_setEntry]

/-- The location that the parts of a path lead to from a location.  Every part needs a directory to
start from; the last location itself need not exist. -/
def locate (w : Workspace) : Location → List (List Char) → Except Fault Location
  | l, [] => .ok l
  | l, part :: rest =>
    match w.get? l with
    | none => .error .notFound
    | some (.file _) => .error .notADirectory
    | some .dir =>
      if part = [] ∨ part = ['.'] then w.locate l rest
      else if part = ['.', '.'] then w.locate l.dropLast rest
      else w.locate (l ++ [part]) rest

/-- Where a path begins, for a reader in the directory `base`. -/
def start (base : Location) (path : List Char) : Location :=
  if path.head? = some '/' then [] else base

/-- The location of a path for a reader in the directory `base`.  The empty path has none. -/
def resolveFrom (w : Workspace) (base : Location) (path : List Char) : Except Fault Location :=
  if path = [] then .error .notFound else w.locate (start base path) (splitOn '/' path)

/-- The location of a path. -/
def resolve (w : Workspace) (path : List Char) : Except Fault Location :=
  w.resolveFrom w.current path

/-- What a path leads to, for a reader in the directory `base`. -/
def findFrom (w : Workspace) (base : Location) (path : List Char) : Except Fault Entry :=
  match w.resolveFrom base path with
  | .error f => .error f
  | .ok l =>
    match w.get? l with
    | some e => .ok e
    | none => .error .notFound

/-- What a path leads to. -/
def find (w : Workspace) (path : List Char) : Except Fault Entry := w.findFrom w.current path

/-! ### Looking -/

/-- Whether a path leads to something. -/
def contains (w : Workspace) (path : List Char) : Bool :=
  match w.find path with
  | .ok _ => true
  | .error _ => false

/-- Whether a path leads to a directory. -/
def isDir (w : Workspace) (path : List Char) : Bool :=
  match w.find path with
  | .ok .dir => true
  | _ => false

/-- Whether a path leads to a file. -/
def isFile (w : Workspace) (path : List Char) : Bool :=
  match w.find path with
  | .ok (.file _) => true
  | _ => false

/-- The bytes of a file. -/
def read (w : Workspace) (path : List Char) : Except Fault (List UInt8) :=
  match w.find path with
  | .error f => .error f
  | .ok .dir => .error .isADirectory
  | .ok (.file bytes) => .ok bytes

/-- The names in the directory at a location, in the order of texts. -/
def namesAt (w : Workspace) (l : Location) : List (List Char) :=
  let own := w.entries.filterMap fun (m, _) => if m.dropLast = l then m.getLast? else none
  own.mergeSort fun a b => !Path.textBefore b a

/-- The names in the directory that a path leads to. -/
def names (w : Workspace) (path : List Char) : List (List Char) :=
  match w.resolve path with
  | .ok l => w.namesAt l
  | .error _ => []

/-- No path to a file has more names than this. -/
def depth (w : Workspace) : Nat := w.entries.foldl (fun n (l, _) => max n l.length) 0

/-! ### Changing -/

/-- Puts bytes into the file that a path leads to.  The file need not exist, but its directory
must. -/
def writeFrom (w : Workspace) (base : Location) (path : List Char) (bytes : List UInt8) :
    Except Fault Workspace :=
  match w.resolveFrom base path with
  | .error f => .error f
  | .ok l =>
    match w.get? l with
    | some .dir => .error .isADirectory
    | _ => .ok (w.put l (.file bytes))

/-- Puts bytes into the file that a path leads to. -/
def write (w : Workspace) (path : List Char) (bytes : List UInt8) : Except Fault Workspace :=
  w.writeFrom w.current path bytes

/-- Makes the directory that the parts of a path lead to. -/
def makeDir (base : Location) (parts : List (List Char)) (w : Workspace) :
    Except Fault Workspace :=
  match w.locate base parts with
  | .error f => .error f
  | .ok l => if (w.get? l).isSome then .error .alreadyExists else .ok (w.put l .dir)

/-- Makes the directory that the parts of a path lead to, unless there is one. -/
def ensureDir (base : Location) (parts : List (List Char)) (w : Workspace) :
    Except Fault Workspace :=
  match w.makeDir base parts with
  | .ok w => .ok w
  | .error f =>
    match w.locate base parts with
    | .ok l => if w.get? l = some .dir then .ok w else .error f
    | .error _ => .error f

/-- Makes the directories on the way along `parts`, after the way `done`. -/
def ensureDirs (base : Location) (done : List (List Char)) :
    List (List Char) → Workspace → Except Fault Workspace
  | [], w => .ok w
  | part :: rest, w =>
    match w.ensureDir base (done ++ [part]) with
    | .ok w => w.ensureDirs base (done ++ [part]) rest
    | .error f => .error f

/-- Makes the directory that a path leads to, with the directories above it, unless it exists.  The
directory itself is tried first; if something on the way is missing, the way is made and the
directory is tried again. -/
def makeDirs (path : List Char) (w : Workspace) : Except Fault Workspace :=
  let base := start w.current path
  let parts := ((splitOn '/' path).reverse.dropWhile (· = [])).reverse
  match Path.components path with
  | [] => .ok w
  | components =>
    match w.makeDir base parts with
    | .error .notFound =>
      match w.ensureDirs base [] (components.dropLast.map Path.Component.text) with
      | .ok w => w.ensureDir base parts
      | .error f => .error f
    | _ => w.ensureDir base parts

/-! ### States -/

/-- The workspace with directories at a location and above it. -/
def addDir (l : Location) (w : Workspace) : Workspace :=
  (List.range l.length).foldl (fun w n => w.put (l.take (n + 1)) .dir) w

/-- The workspace with a file at a location and directories above it. -/
def addFile (l : Location) (bytes : List UInt8) (w : Workspace) : Workspace :=
  (w.addDir l.dropLast).put l (.file bytes)

/-- The workspace with the given directories and files in the current directory. -/
def ofFiles (current : Location) (dirs : List (List Char))
    (files : List (List Char × List UInt8)) : Workspace :=
  let below (path : List Char) : Location :=
    current ++ ((Path.components path).map Path.Component.text)
  let w : Workspace := addDir current { current }
  let w := dirs.foldl (fun w d => w.addDir (below d)) w
  files.foldl (fun w (p, bytes) => w.addFile (below p) bytes) w

/-- The path of a location below the current directory. -/
def pathOf (w : Workspace) (l : Location) : List Char :=
  ['/'].intercalate (l.drop w.current.length)

/-- The files below the current directory that are new or differ from an earlier state, with their
paths. -/
def changes (w : Workspace) (before : Workspace) : List (List Char × List UInt8) :=
  w.entries.filterMap fun (l, e) =>
    match e with
    | .dir => none
    | .file bytes =>
      if w.current.isPrefixOf l && before.get? l != some e then some (w.pathOf l, bytes) else none

end Workspace

end BindingDocs
