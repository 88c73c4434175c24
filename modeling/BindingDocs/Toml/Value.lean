/-!
# Tables of settings

A settings file holds a table: keys with values, some of which are tables again.  Tables can be
written in several ways, and how a table came to be decides what may still be added to it, so every
table remembers its origin.

## Main definitions

* `Value` — strings, numbers, arrays, tables.
* `Entries` — the keys of a table with their values, in order.
* `Entries.within` — a change to the table that a path of keys leads to.
* `Entries.addPair`, `Entries.addHeader`, `Entries.addElement` — what a line of the file adds.
-/

namespace BindingDocs.Toml

/-- How a table came to be. -/
inductive Origin where
  /-- Written between braces, and complete. -/
  | inline
  /-- Needed by a dotted key. -/
  | dotted
  /-- Needed by the header of a table below it. -/
  | implied
  /-- Named by a header of its own. -/
  | headed
deriving DecidableEq, Repr, Inhabited

/-- A value of a settings file. -/
inductive Value where
  | string (text : List Char)
  | integer (n : Int)
  /-- A number with a fraction or an exponent, as it is written. -/
  | float (text : List Char)
  | boolean (b : Bool)
  /-- A date, a time or both, as it is written. -/
  | moment (text : List Char)
  | array (items : List Value)
  | table (origin : Origin) (entries : List (String × Value))
  /-- Tables that share one header, in order. -/
  | tables (items : List (List (String × Value)))
deriving Repr, Inhabited

/-- The keys of a table with their values, in the order they were added. -/
abbrev Entries := List (String × Value)

namespace Entries

/-- The entries with the value of a key replaced. -/
def replace (key : String) (v : Value) : Entries → Entries
  | [] => []
  | (k, w) :: rest => if k = key then (k, v) :: rest else (k, w) :: replace key v rest

/-- A change to the table that the path of a header leads to.  Tables that are missing on the way
are made; of tables that share a header the last one is meant.  Nothing leads into a table between
braces or into a value that is no table. -/
def within (change : Entries → Option Entries) : (path : List String) → Entries → Option Entries
  | [], t => change t
  | key :: path, t =>
    match t.lookup key with
    | none => (within change path []).map fun s => t ++ [(key, .table .implied s)]
    | some (.table made s) =>
      if made = .inline then none
      else (within change path s).map fun s => t.replace key (.table made s)
    | some (.tables items) =>
      match items.getLast? with
      | some s =>
        (within change path s).map fun s => t.replace key (.tables (items.dropLast ++ [s]))
      | none => none
    | some _ => none

/-- The entries with a new key; a key is given once only. -/
def addNew (key : String) (v : Value) (t : Entries) : Option Entries :=
  if (t.lookup key).isSome then none else some (t ++ [(key, v)])

/-- The entries with the value of a dotted key.  The parts before the last lead through tables
without a header, and the last of these tables is one that dotted keys have made. -/
def addPair : (path : List String) → Value → Entries → Option Entries
  | [], _, _ => none
  | [key], v, t => t.addNew key v
  | key :: path, v, t =>
    match t.lookup key with
    | none => (addPair path v []).map fun s => t ++ [(key, .table .dotted s)]
    | some (.table made s) =>
      if made = .dotted ∨ (made = .implied ∧ path.length ≠ 1) then
        (addPair path v s).map fun s => t.replace key (.table made s)
      else none
    | some _ => none

/-- The entries with a table that has a header. -/
def addHeader (path : List String) (t : Entries) : Option Entries :=
  match path.getLast? with
  | none => none
  | some key =>
    t.within (fun t =>
      match t.lookup key with
      | none => some (t ++ [(key, .table .headed [])])
      | some (.table .implied s) => some (t.replace key (.table .headed s))
      | some _ => none) path.dropLast

/-- The entries with one more of the tables that share a header. -/
def addElement (path : List String) (t : Entries) : Option Entries :=
  match path.getLast? with
  | none => none
  | some key =>
    t.within (fun t =>
      match t.lookup key with
      | none => some (t ++ [(key, .tables [[]])])
      | some (.tables items) => some (t.replace key (.tables (items ++ [[]])))
      | some _ => none) path.dropLast

end Entries

end BindingDocs.Toml
