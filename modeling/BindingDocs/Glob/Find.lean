import BindingDocs.Glob.Pattern
import BindingDocs.Workspace

/-!
# Finding files

A pattern for paths has one pattern for each name of the path.  A name without special characters is
looked for directly; any other is compared with the names in the directory reached so far.

## Main definitions

* `PathPattern`, `PathPattern.parse` — a pattern for paths.
* `PathPattern.find` — the paths it stands for in a workspace.
-/

namespace BindingDocs.Glob

open Text

/-- A pattern for paths. -/
structure PathPattern where
  /-- Whether the path begins at the root. -/
  absolute : Bool
  /-- The patterns of the names. -/
  names : List (List Piece)
  /-- Whether only directories are meant. -/
  dirsOnly : Bool
deriving DecidableEq, Repr

/-- Patterns of names with repeated directory wildcards left out. -/
def collapse : List (List Piece) → List (List Piece)
  | [] => []
  | p :: ps => if p = [.directories] ∧ ps.head? = some p then collapse ps else p :: collapse ps

/-- The parts between separators; a separator at the end does not begin another part. -/
def parts (s : List Char) : List (List Char) :=
  let all := splitOn '/' s
  if all.getLast? = some [] then all.dropLast else all

/-- The pattern of a text.  The whole text is checked first, then each name. -/
def PathPattern.parse (pattern : List Char) : Except PatternError PathPattern := do
  let _ ← pieces pattern
  let absolute := pattern.head? = some '/'
  let rest := if absolute then pattern.tail else pattern
  let names ← (parts rest).mapM pieces
  let names := if rest = [] then [[]] else names
  return ⟨absolute, collapse names, pattern.getLast? = some '/'⟩

/-- Whether a path is written as the current directory. -/
def isHere (path : List Char) : Bool := Path.components path = [.here]

/-- The path of an entry of a directory.  Nothing is written for the current directory. -/
def child (path name : List Char) : List Char :=
  if isHere path then name else Path.join path name

/-- The entries below a directory with their names, each directory before what it contains; at most
`fuel` levels. -/
def below (w : Workspace) : (fuel : Nat) → List Char → List (List Char × List Char)
  | 0, _ => []
  | fuel + 1, path =>
    if w.isDir path then
      (w.names path).flatMap fun n => (child path n, n) :: below w fuel (child path n)
    else []

/-- The paths from a directory on that patterns of names stand for. -/
def expand (w : Workspace) : List (List Piece) → List Char → List (List Char)
  | [], path => [path]
  | p :: ps, path =>
    match literal? p with
    | some name =>
      let next := child path name
      let found := if name = ['.'] ∨ name = ['.', '.'] then w.isDir path else w.contains next
      if found then expand w ps next else []
    | none =>
      if !w.isDir path then []
      else if p = [.directories] then
        match ps with
        | [] => ((below w (w.depth + 1) path).map Prod.fst).filter w.isDir
        | q :: qs =>
          (below w (w.depth + 1) path).flatMap fun (next, name) =>
            if matchesName q name then expand w qs next else []
      else
        let special := if p.head? = some (.char '.') then [['.', '.'], ['.']] else []
        ((special.filter (matchesName p)).flatMap fun name => expand w ps (Path.join path name)) ++
          ((w.names path).filter (matchesName p)).flatMap fun name => expand w ps (child path name)

/-- The paths that a pattern stands for. -/
def PathPattern.find (w : Workspace) (p : PathPattern) : List (List Char) :=
  let found := expand w p.names (if p.absolute then ['/'] else ['.'])
  if p.dirsOnly then found.filter w.isDir else found

end BindingDocs.Glob
