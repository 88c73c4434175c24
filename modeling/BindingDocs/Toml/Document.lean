import BindingDocs.Toml.Scalar

/-!
# Settings files

A settings file is a sequence of lines: headers that name a table, and keys with values that belong
to the table named last.

## Main definitions

* `key?` — a key, which may be dotted.
* `value?` — a value of any kind.
* `Entries.ofText?` — the table of a whole file.
-/

namespace BindingDocs.Toml

/-- How deep values may be nested, and how many parts a key may have. -/
def maxDepth : Nat := 79

/-! ### Keys -/

/-- Characters of keys without quotes. -/
def isBare (c : Char) : Bool := c.isAlphanum || c == '_' || c == '-'

/-- One part of a key. -/
def keyPart? (s : List Char) : Option (String × List Char) :=
  match s.takeWhile isBare with
  | [] => (shortString? s).map fun (t, rest) => (String.ofList t, rest)
  | name => some (String.ofList name, s.dropWhile isBare)

/-- The parts of a key, with dots between them and blanks around them; at most `fuel` of them. -/
def key? : (fuel : Nat) → List Char → Option (List String × List Char)
  | 0, _ => none
  | fuel + 1, s =>
    match keyPart? (skipBlank s) with
    | none => none
    | some (part, s) =>
      match skipBlank s with
      | '.' :: s => (key? fuel s).map fun (parts, s) => (part :: parts, s)
      | s => some ([part], s)

/-- A key, the equals sign after it, and the value that `elem` reads. -/
def pair? (elem : List Char → Option (Value × List Char)) (s : List Char) :
    Option ((List String × Value) × List Char) :=
  match key? maxDepth s with
  | some (path, '=' :: s) => (elem (skipBlank s)).map fun (v, s) => ((path, v), s)
  | _ => none

/-! ### Values -/

/-- The items of an array after its opening bracket or a comma; at most `fuel` of them. -/
def items? (elem : List Char → Option (Value × List Char)) :
    (fuel : Nat) → List Char → Option (List Value × List Char)
  | 0, _ => none
  | fuel + 1, s =>
    match skipGap? false s with
    | none => none
    | some (']' :: s) => some ([], s)
    | some s =>
      match elem s with
      | none => none
      | some (v, s) =>
        match skipGap? false s with
        | some (',' :: s) => (items? elem fuel s).map fun (vs, s) => (v :: vs, s)
        | some (']' :: s) => some ([v], s)
        | _ => none

/-- The pairs of a table between braces, at least one and at most `fuel`; they stand on one line. -/
def pairs? (elem : List Char → Option (Value × List Char)) :
    (fuel : Nat) → Entries → List Char → Option (Entries × List Char)
  | 0, _, _ => none
  | fuel + 1, t, s =>
    match pair? elem s with
    | none => none
    | some ((path, v), s) =>
      match t.addPair path v, skipBlank s with
      | some t, ',' :: s => pairs? elem fuel t s
      | some t, '\x7d' :: s => some (t, s)
      | _, _ => none

/-- A value with at most `depth` arrays and tables around another. -/
def value? : (depth : Nat) → List Char → Option (Value × List Char)
  | 0, s => scalar? s
  | _ + 1, [] => none
  | depth + 1, c :: s =>
    if c = '[' then (items? (value? depth) (s.length + 1) s).map fun (vs, s) => (.array vs, s)
    else if c = '\x7b' then
      match skipBlank s with
      | '\x7d' :: s => some (.table .inline [], s)
      | s => (pairs? (value? depth) (s.length + 1) [] s).map fun (t, s) => (.table .inline t, s)
    else scalar? (c :: s)

/-! ### Lines -/

/-- A file that is being read: its table so far, and the table that keys belong to. -/
structure Draft where
  entries : Entries := []
  path : List String := []

/-- Reads a header up to the end of its line. -/
def header? (s : List Char) (d : Draft) : Option (Draft × List Char) :=
  match s with
  | '[' :: '[' :: s =>
    match key? maxDepth s with
    | some (path, ']' :: ']' :: s) => do
      let t ← d.entries.addElement path
      return (⟨t, path⟩, ← lineEnd? s)
    | _ => none
  | '[' :: s =>
    match key? maxDepth s with
    | some (path, ']' :: s) => do
      let t ← d.entries.addHeader path
      return (⟨t, path⟩, ← lineEnd? s)
    | _ => none
  | _ => none

/-- Reads one line that is not empty. -/
def line? (s : List Char) (d : Draft) : Option (Draft × List Char) :=
  match s with
  | '#' :: _ => (lineEnd? s).map (d, ·)
  | '[' :: _ => header? s d
  | _ => do
    let ((path, v), s) ← pair? (value? maxDepth) s
    let t ← d.entries.within (fun t => t.addPair path v) d.path
    return ({ d with entries := t }, ← lineEnd? s)

/-- Reads lines to the end of the text; at most `fuel` of them. -/
def lines? : (fuel : Nat) → List Char → Draft → Option Entries
  | 0, _, _ => none
  | fuel + 1, s, d =>
    match skipBlank s with
    | [] => some d.entries
    | s =>
      match newline? s with
      | some s => lines? fuel s d
      | none => (line? s d).bind fun (d, s) => lines? fuel s d

/-- The table of a file.  A byte order mark at the beginning is left out. -/
def Entries.ofText? (text : List Char) : Option Entries :=
  let s := match text with
    | c :: s => if c.toNat = 0xFEFF then s else c :: s
    | [] => []
  lines? (s.length + 1) s {}

end BindingDocs.Toml
