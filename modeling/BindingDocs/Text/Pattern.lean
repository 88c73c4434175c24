import BindingDocs.Text.Search

/-!
# Recognising parts of a line

A reader takes a text and may find something at its beginning.  Readers are put together from parts,
each of which is given the reader of what follows it.  Where a part can be matched in several ways
the ways are tried in a fixed order, and the first one for which the rest is accepted wins: a run
takes as many characters as it can and gives them back one by one, a short run takes as few as it
can, and `anywhere` starts at the leftmost position that leads to success.

## Main definitions

* `lit` — a fixed text.
* `run`, `run1` — the longest run of a class of characters, giving back.
* `short1` — the shortest nonempty run of a class of characters, growing.
* `either` — the first of two readers that succeeds.
* `anywhere` — the leftmost start.
-/

namespace BindingDocs.Text

/-- Finds something at the beginning of a text. -/
abbrev Reader (α : Type) := List Char → Option α

variable {α β : Type}

/-- Accepts whatever follows. -/
def done : Reader Unit := fun _ => some ()

/-- Accepts the end of the text only. -/
def atEnd : Reader Unit
  | [] => some ()
  | _ :: _ => none

/-- What `k` finds, under another form. -/
def as (f : α → β) (k : Reader α) : Reader β := fun s => (k s).map f

/-- What `a` finds, or else what `b` finds. -/
def either (a b : Reader α) : Reader α := fun s => a s <|> b s

/-- The fixed text `w`, then `k`. -/
def lit (w : String) (k : Reader α) : Reader α := fun s => (after? w.toList s).bind k

/-- A run of characters of the class `p`, then `k`; the longest run comes first. -/
def run (p : Char → Bool) (k : Reader α) : Reader (List Char × α)
  | [] => (k []).map ([], ·)
  | c :: s =>
    if p c then (run p k s).map (fun (r, a) => (c :: r, a)) <|> (k (c :: s)).map ([], ·)
    else (k (c :: s)).map ([], ·)

/-- A nonempty run of characters of the class `p`, then `k`; the longest run comes first. -/
def run1 (p : Char → Bool) (k : Reader α) : Reader (List Char × α)
  | [] => none
  | c :: s => if p c then (run p k s).map fun (r, a) => (c :: r, a) else none

/-- A nonempty run of characters of the class `p`, then `k`; the shortest run comes first. -/
def short1 (p : Char → Bool) (k : Reader α) : Reader (List Char × α)
  | [] => none
  | c :: s =>
    if p c then (k s).map ([c], ·) <|> (short1 p k s).map (fun (r, a) => (c :: r, a)) else none

/-- The reader `k` at the leftmost position where it succeeds. -/
def anywhere (k : Reader α) : Reader α
  | [] => k []
  | c :: s => k (c :: s) <|> anywhere k s

/-- Only spaces, not other blanks. -/
def isSpace (c : Char) : Bool := c == ' '

/-- Any character that a line can hold. -/
def inLine (c : Char) : Bool := c != '\n'

/-- A run of spaces that is not kept. -/
def spaces (k : Reader α) : Reader α := as Prod.snd (run isSpace k)

/-- A nonempty run of spaces that is not kept. -/
def spaces1 (k : Reader α) : Reader α := as Prod.snd (run1 isSpace k)

/-- A run of blanks that is not kept. -/
def blanks (k : Reader α) : Reader α := as Prod.snd (run isBlank k)

/-- A nonempty run of blanks that is not kept. -/
def blanks1 (k : Reader α) : Reader α := as Prod.snd (run1 isBlank k)

/-- Whether a reader finds something somewhere in a text. -/
def occurs (k : Reader Unit) (s : List Char) : Bool := (anywhere k s).isSome

/-- The length of `start`, a shortest stretch within the line, and `stop`, at the beginning of a
text. -/
def enclosed? (start stop : String) : Reader Nat :=
  lit start fun rest =>
    match splitFirst? stop.toList rest with
    | some (body, _) =>
      if body.all inLine then some (start.length + body.length + stop.length) else none
    | none => none

end BindingDocs.Text
