import BindingDocs.Text.Search

/-!
# Paths

A path is a text; what it names is the list of its components.  Repeated separators, a separator at
the end and a lone dot anywhere but at the beginning name nothing.

## Main definitions

* `components` — what a path names, step by step.
* `fileName?`, `stem?`, `extension?` — the last name of a path and its two parts.
* `join` — a path below another.
* `Component.le`, `precedes` — the order of paths, component by component.
-/

namespace BindingDocs.Path

open Text

/-- One step of a path. -/
inductive Component where
  /-- The root of the file system. -/
  | root
  /-- The directory itself, only at the beginning. -/
  | here
  /-- The directory above. -/
  | up
  /-- An entry of the directory. -/
  | name (text : List Char)
deriving DecidableEq, Repr

/-- The text of a component between separators.  The root is what comes before the first of them. -/
def Component.text : Component → List Char
  | .root => []
  | .here => ['.']
  | .up => ['.', '.']
  | .name text => text

/-- The component a part between separators stands for. -/
def component? (part : List Char) : Option Component :=
  if part = [] ∨ part = ['.'] then none
  else if part = ['.', '.'] then some .up
  else some (.name part)

/-- The components of a path. -/
def components (path : List Char) : List Component :=
  match splitOn '/' path with
  | [] => []
  | first :: rest =>
    let later := rest.filterMap component?
    if path.head? = some '/' then .root :: later
    else if first = ['.'] then .here :: later
    else (component? first).toList ++ later

/-- The name of the entry that a path ends in. -/
def fileName? (path : List Char) : Option (List Char) :=
  match (components path).getLast? with
  | some (.name n) => some n
  | _ => none

/-- A name cut at its last dot: the stem, and the extension if there is one.  A dot at the beginning
belongs to the stem. -/
def splitName (name : List Char) : List Char × Option (List Char) :=
  match splitLastBy? (· == '.') name with
  | none => (name, none)
  | some ([], _) => (name, none)
  | some (stem, ext) => (stem, some ext)

/-- The last name of a path without its extension. -/
def stem? (path : List Char) : Option (List Char) := (fileName? path).map fun n => (splitName n).1

/-- The extension of the last name of a path. -/
def extension? (path : List Char) : Option (List Char) :=
  (fileName? path).bind fun n => (splitName n).2

/-- The path of `entry` below the directory `dir`. -/
def join (dir entry : List Char) : List Char :=
  if entry.head? = some '/' then entry
  else if dir = [] ∨ dir.getLast? = some '/' then dir ++ entry
  else dir ++ '/' :: entry

/-- The order of texts by code points. -/
def textBefore : List Char → List Char → Bool
  | _, [] => false
  | [], _ :: _ => true
  | a :: s, b :: t => a.toNat < b.toNat || (a == b && textBefore s t)

/-- The order of components: the root, the directory itself, the one above, then names. -/
def Component.before : Component → Component → Bool
  | .name a, .name b => textBefore a b
  | a, b => rank a < rank b
where
  /-- The place of a component among the kinds of components. -/
  rank : Component → Nat
    | .root => 0
    | .here => 1
    | .up => 2
    | .name _ => 3

/-- The order of lists of components, the shorter of two that agree first. -/
def componentsBefore : List Component → List Component → Bool
  | _, [] => false
  | [], _ :: _ => true
  | a :: p, b :: q => a.before b || (a == b && componentsBefore p q)

/-- Whether the path `p` comes before the path `q`. -/
def precedes (p q : List Char) : Bool := componentsBefore (components p) (components q)

/-- Adds a path to an increasing list of paths, unless it names what one of them names. -/
def insertSorted (p : List Char) : List (List Char) → List (List Char)
  | [] => [p]
  | q :: rest =>
    if components p = components q then q :: rest
    else if precedes p q then p :: q :: rest
    else q :: insertSorted p rest

end BindingDocs.Path
