import BindingDocs.Text.Search

/-!
# Patterns for file names

A pattern stands for the names it matches.  A question mark stands for any character, a star for any
run of characters, brackets for one character of a class, and two stars between separators for any
number of directories.

## Main definitions

* `Piece` — one part of a pattern.
* `PatternError` — why a text is no pattern.
* `pieces` — the parts of a pattern.
* `matchesName` — whether a name is one the pattern stands for.
* `escape` — the pattern that stands for a text only.
-/

namespace BindingDocs.Glob

/-- One part of a pattern. -/
inductive Piece where
  | char (c : Char)
  /-- Any character. -/
  | any
  /-- Any run of characters. -/
  | run
  /-- Any number of directories. -/
  | directories
  /-- A character in one of these ranges. -/
  | oneOf (ranges : List (Char × Char))
  /-- A character in none of these ranges. -/
  | noneOf (ranges : List (Char × Char))
deriving DecidableEq, Repr

/-- What can be wrong with a pattern. -/
inductive PatternFault where
  /-- More than two stars in a row. -/
  | stars
  /-- Two stars that are not alone between separators. -/
  | directories
  /-- A bracket without its partner. -/
  | range
deriving DecidableEq, Repr

/-- Why a text is no pattern. -/
structure PatternError where
  /-- Where in the text, in characters. -/
  position : Nat
  fault : PatternFault
deriving DecidableEq, Repr

/-- The text of the fault. -/
def PatternFault.message : PatternFault → String
  | .stars => "wildcards are either regular `*` or recursive `**`"
  | .directories => "recursive wildcards must form a single path component"
  | .range => "invalid range pattern"

/-- The text of the error. -/
def PatternError.message (e : PatternError) : String :=
  "Pattern syntax error near position " ++ toString e.position ++ ": " ++ e.fault.message

/-- The ranges between brackets. -/
def ranges : List Char → List (Char × Char)
  | [] => []
  | a :: '-' :: b :: s => (a, b) :: ranges s
  | a :: s => (a, a) :: ranges s

/-- The class after an opening bracket, and its length with the closing bracket.  The first
character of a class may be a closing bracket. -/
def class? : List Char → Option (Piece × Nat)
  | [] => none
  | [_] => none
  | '!' :: first :: rest =>
    (rest.findIdx? (· == ']')).map fun n => (.noneOf (ranges (first :: rest.take n)), n + 3)
  | first :: rest =>
    (rest.findIdx? (· == ']')).map fun n => (.oneOf (ranges (first :: rest.take n)), n + 2)

/-- The parts of a pattern from the position `pos` on, after the character `before`; `skip`
characters belong to a part already read. -/
def piecesFrom : (pos : Nat) → (before : Option Char) → (skip : Nat) → List Char →
    Except PatternError (List Piece)
  | _, _, _, [] => .ok []
  | pos, _, skip + 1, c :: s => piecesFrom (pos + 1) (some c) skip s
  | pos, before, 0, c :: s =>
    let add (p : Piece) (skip : Nat) := (piecesFrom (pos + 1) (some c) skip s).map (p :: ·)
    if c = '?' then add .any 0
    else if c = '*' then
      match (s.takeWhile (· == '*')).length with
      | 0 => add .run 0
      | 1 =>
        if before = none ∨ before = some '/' then
          match s.drop 1 with
          | [] => add .directories 1
          | d :: _ => if d = '/' then add .directories 2 else .error ⟨pos + 2, .directories⟩
        else .error ⟨pos - 1, .directories⟩
      | _ => .error ⟨pos + 2, .stars⟩
    else if c = '[' then
      match class? s with
      | some (p, n) => add p n
      | none => .error ⟨pos, .range⟩
    else add (.char c) 0

/-- The parts of a pattern. -/
def pieces (pattern : List Char) : Except PatternError (List Piece) := piecesFrom 0 none 0 pattern

/-- Whether a part stands for a character. -/
def Piece.accepts (c : Char) : Piece → Bool
  | .char d => c == d
  | .any => true
  | .oneOf ranges => ranges.any fun (a, b) => a ≤ c && c ≤ b
  | .noneOf ranges => !ranges.any fun (a, b) => a ≤ c && c ≤ b
  | .run | .directories => false

/-- Whether some end of a text satisfies a condition. -/
def anyEnd (p : List Char → Bool) : List Char → Bool
  | [] => p []
  | c :: s => p (c :: s) || anyEnd p s

/-- Whether a name is one that a pattern stands for. -/
def matchesName : List Piece → List Char → Bool
  | [], s => s.isEmpty
  | .run :: ps, s => anyEnd (matchesName ps) s
  | _ :: _, [] => false
  | p :: ps, c :: s => p.accepts c && matchesName ps s

/-- The text of a pattern that stands for one text only. -/
def literal? (ps : List Piece) : Option (List Char) :=
  ps.mapM fun
    | .char c => some c
    | _ => none

/-- The pattern that stands for a text only. -/
def escape (s : List Char) : List Char :=
  s.flatMap fun c => if c ∈ ['?', '*', '[', ']'] then ['[', c, ']'] else [c]

end BindingDocs.Glob
