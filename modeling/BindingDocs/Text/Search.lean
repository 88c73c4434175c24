import BindingDocs.Text.Blank

/-!
# Finding, cutting and replacing

Texts are lists of characters.  Everything here is about one text occurring in another: whether it
begins it, where it occurs first or last, and what is left when occurrences are replaced.

## Main definitions

* `after?` — what follows a given beginning.
* `splitFirst?`, `splitLast?` — the text around the first or the last occurrence.
* `substitute` — every leftmost, non-overlapping match replaced.
* `pieces`, `lines` — a text cut after its line ends, and without them.
-/

namespace BindingDocs.Text

/-- The rest of `s` after the beginning `w`, if `s` begins with `w`. -/
def after? : (w s : List Char) → Option (List Char)
  | [], s => some s
  | _ :: _, [] => none
  | a :: w, c :: s => if a = c then after? w s else none

/-- A text begins with `w` exactly when it is `w` followed by what `after?` returns. -/
theorem after?_eq_some_iff {w s r : List Char} : after? w s = some r ↔ s = w ++ r := by
  induction w generalizing s with
  | nil => simp [after?, eq_comm]
  | cons a w ih =>
    cases s with
    | nil => simp [after?]
    | cons c s =>
      by_cases h : a = c
      · simp [after?, h, ih]
      · simp [after?, h, Ne.symm h]

/-- The text before and after the first occurrence of `w`. -/
def splitFirst? (w : List Char) : List Char → Option (List Char × List Char)
  | [] => (after? w []).map fun r => ([], r)
  | c :: s =>
    match after? w (c :: s) with
    | some r => some ([], r)
    | none => (splitFirst? w s).map fun (b, r) => (c :: b, r)

/-- The text before and after the last occurrence of `w`. -/
def splitLast? (w s : List Char) : Option (List Char × List Char) :=
  (splitFirst? w.reverse s.reverse).map fun (b, r) => (r.reverse, b.reverse)

/-- The text before and after the last character of the class `p`. -/
def splitLastBy? (p : Char → Bool) (s : List Char) : Option (List Char × List Char) :=
  match s.reverse.span (!p ·) with
  | (_, []) => none
  | (tail, _ :: before) => some (before.reverse, tail.reverse)

/-- Whether `w` occurs in `s`. -/
def contains (w s : List Char) : Bool := (splitFirst? w s).isSome

/-- Whether `s` begins with `w`. -/
def beginsWith (w s : List Char) : Bool := (after? w s).isSome

/-- `s` with every leftmost, non-overlapping match replaced by `v`.  The matcher `m` gives the
length of a match at the beginning of a text, which is never zero; `skip` characters of `s` belong
to a match already replaced. -/
def substituteFrom (m : List Char → Option Nat) (v : List Char) : Nat → List Char → List Char
  | _, [] => []
  | skip + 1, _ :: s => substituteFrom m v skip s
  | 0, c :: s =>
    match m (c :: s) with
    | some n => v ++ substituteFrom m v (n - 1) s
    | none => c :: substituteFrom m v 0 s

/-- `s` with every leftmost, non-overlapping match of `m` replaced by `v`. -/
def substitute (m : List Char → Option Nat) (v s : List Char) : List Char :=
  substituteFrom m v 0 s

/-- `s` with every leftmost, non-overlapping occurrence of `w` replaced by `v`.  The empty text
occurs before every character and at the end. -/
def replace (w v s : List Char) : List Char :=
  if w.isEmpty then v ++ s.flatMap (· :: v)
  else substitute (fun t => if beginsWith w t then some w.length else none) v s

/-- The text cut after each newline. -/
def pieces : List Char → List (List Char)
  | [] => []
  | c :: s =>
    if c = '\n' then [c] :: pieces s
    else
      match pieces s with
      | [] => [[c]]
      | p :: ps => (c :: p) :: ps

/-- A piece without its newline, and without the carriage return before that newline. -/
def stripEnd (p : List Char) : List Char :=
  match p.reverse with
  | '\n' :: '\r' :: r => r.reverse
  | '\n' :: r => r.reverse
  | _ => p

/-- The lines of a text, without their line ends. -/
def lines (s : List Char) : List (List Char) := (pieces s).map stripEnd

/-- Nothing is lost by cutting a text into pieces. -/
theorem flatten_pieces (s : List Char) : (pieces s).flatten = s := by
  induction s with
  | nil => rfl
  | cons c s ih =>
    unfold pieces
    split
    · simp [ih]
    · split
      · next h => simp [h] at ih; simp [ih]
      · next h => simp [h] at ih; simp [ih]

/-- Parts of the text between the characters `c`. -/
def splitOn (c : Char) : List Char → List (List Char)
  | [] => [[]]
  | d :: s =>
    if d = c then [] :: splitOn c s
    else
      match splitOn c s with
      | [] => [[d]]
      | p :: ps => (d :: p) :: ps

end BindingDocs.Text
