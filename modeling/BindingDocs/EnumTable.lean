import BindingDocs.Text.Pattern
import BindingDocs.Text.Word

/-!
# Enum groups

A tag `@luaenum Name(value[, description[, shown]])` announces the macro table that defines an
enum.  The numbers are positions in the argument list of each row.

## Main definitions

* `EnumSpec` — a tag: the name of the enum and the columns of its table.
* `EnumSpec.parse?` — reads the leftmost tag of a line.
* `splitColumns` — the arguments of a row.
* `EnumSpec.readRow` — the bullet of a row, and whether the table goes on.
-/

namespace BindingDocs

open Text

/-- The columns of an enum table, counted from zero. -/
structure EnumSpec where
  /-- The name of the enum. -/
  name : String
  /-- The column of the value. -/
  value : Nat
  /-- The column of the description, if there is one. -/
  descr : Option Nat
  /-- The column that says whether the row is shown, if there is one. -/
  shown : Option Nat
deriving DecidableEq, Repr, Inhabited

/-! ### Tags -/

/-- The number a run of decimal digits stands for, if it is written with ASCII digits and is below
2 ^ 64. -/
def numeral? (digits : List Char) : Option Nat :=
  if digits ≠ [] ∧ digits.all Char.isDigit then
    let n := digits.foldl (fun n c => 10 * n + (c.toNat - '0'.toNat)) 0
    if n < UInt64.size then some n else none
  else none

namespace EnumSpec

/-- A tag as written: name and numerals. -/
structure Tag where
  name : List Char
  value : List Char
  descr : Option (List Char)
  shown : Option (List Char)

/-- A comma, a numeral and blanks. -/
def column {α : Type} (k : Reader α) : Reader (List Char × α) :=
  lit "," (blanks (run1 isDecimal (blanks k)))

/-- The closing parenthesis of a tag without further columns. -/
def closing {α : Type} : Reader (Option α) := as (fun _ => none) (lit ")" done)

/-- The columns after the first one. -/
def columns : Reader (Option (List Char × Option (List Char))) :=
  either
    (as some (column (either (as (fun (n, _) => some n) (column (lit ")" done))) closing)))
    closing

/-- A tag at the beginning of a text. -/
def tag? : Reader Tag :=
  as (fun (name, value, rest) => ⟨name, value, rest.map (·.1), rest.bind (·.2)⟩)
    (lit "@luaenum" (blanks1 (run1 isWord (blanks (lit "(" (run1 isDecimal (blanks columns)))))))

/-- The columns of the leftmost tag of a line.  A tag whose value column is not a number that fits
is none; another column that does not fit counts as absent. -/
def parse? (line : List Char) : Option EnumSpec :=
  (anywhere tag? line).bind fun t =>
    (numeral? t.value).map fun value =>
      { name := String.ofList t.name
        value
        descr := t.descr.bind numeral?
        shown := t.shown.bind numeral? }

end EnumSpec

/-! ### Rows -/

/-- What follows the first opening parenthesis outside quotes. -/
def afterParen? : (quoted : Bool) → List Char → Option (List Char)
  | _, [] => none
  | quoted, c :: s =>
    if c = '"' then afterParen? (!quoted) s
    else if c = '(' ∧ quoted = false then some s
    else afterParen? quoted s

/-- Puts a character in front of the first column. -/
def consColumn (c : Char) : List (List Char) → List (List Char)
  | [] => [[c]]
  | col :: cols => (c :: col) :: cols

/-- The columns of an argument list, given the depth of brackets and whether a quote is open.
Commas divide columns outside quotes and brackets; a closing bracket without an opening one ends
the list. -/
def columnsFrom : (quoted : Bool) → (depth : Nat) → List Char → List (List Char)
  | _, _, [] => [[]]
  | true, depth, c :: s => consColumn c (columnsFrom (c != '"') depth s)
  | false, depth, c :: s =>
    if c = '"' then consColumn c (columnsFrom true depth s)
    else if c = '(' ∨ c = '\x7b' ∨ c = '[' then consColumn c (columnsFrom false (depth + 1) s)
    else if c = ')' ∨ c = '\x7d' ∨ c = ']' then
      match depth with
      | 0 => [[]]
      | depth + 1 => consColumn c (columnsFrom false depth s)
    else if c = ',' ∧ depth = 0 then [] :: columnsFrom false depth s
    else consColumn c (columnsFrom false depth s)

/-- The arguments of a row: what stands after the first parenthesis, or the whole line if there is
none. -/
def splitColumns (line : List Char) : List (List Char) :=
  columnsFrom false 0 ((afterParen? false line).getD line)

/-- Blanks, quotes and backslashes at the ends of a cell mean nothing. -/
def isJunk (c : Char) : Bool := isBlank c || c == '"' || c == '\\'

/-- A value holds no blanks, quotes, closing parentheses or backslashes. -/
def stripValue (cell : List Char) : List Char :=
  cell.filter fun c => !(isBlank c || c == '"' || c == ')' || c == '\\')

/-- The line without the comments that open and close on it. -/
def stripComments (line : List Char) : List Char := substitute (enclosed? "/*" "*/") [] line

/-- Whether the line ends in a backslash, blanks aside. -/
def isContinued (line : List Char) : Bool :=
  match line.reverse.dropWhile isBlank with
  | c :: _ => c == '\\'
  | [] => false

/-- Whether the line is a continuation of nothing: no word character stands on it. -/
def isBareContinuation (line : List Char) : Bool := isContinued line && line.all (!isWord ·)

/-- Whether nothing but blanks stands on the line, or a comment begins it. -/
def isBlankOrComment (line : List Char) : Bool :=
  match line.dropWhile isBlank with
  | [] => true
  | '/' :: '/' :: _ => true
  | '/' :: '*' :: _ => true
  | _ => false

namespace EnumSpec

/-- The opening of an enum group. -/
def groupOpen (spec : EnumSpec) : String :=
  "/**\n  * @defgroup " ++ spec.name ++ "Enum " ++ spec.name ++ "\n"

/-- The beginning of the list of values. -/
def tableStart (spec : EnumSpec) : List String := ["@\x7b\n", "# " ++ spec.name ++ "\n"]

/-- The bullet of one value. -/
def bullet (spec : EnumSpec) (value descr : String) : String :=
  " * * %" ++ spec.name ++ ".%" ++ value ++ " <br>\n" ++
    (if descr = "" then "" else " `" ++ descr ++ "` <br>\n")

/-- The end of the list of values and of the group. -/
def tableEnd : List String := ["@\x7d\n", "*/\n\n"]

/-- The end of a group without a list of values. -/
def groupAbandon : String := "*/\n\n"

/-- The cell of a column; an absent cell is empty. -/
def cell (columns : List (List Char)) (i : Nat) : List Char := columns.getD i []

/-- Whether the row is not to be shown. -/
def hides (spec : EnumSpec) (columns : List (List Char)) : Bool :=
  match spec.shown with
  | some i => trimBy isJunk (cell columns i) == "false".toList
  | none => false

/-- The bullet of a row given by its columns. -/
def rowBullet (spec : EnumSpec) (columns : List (List Char)) : String :=
  spec.bullet (String.ofList (stripValue (cell columns spec.value)))
    (match spec.descr with
      | some i => String.ofList (trimBy isJunk (cell columns i))
      | none => "")

/-- The bullets a line of the table adds, and whether the table goes on after it. -/
def readRow (spec : EnumSpec) (line : List Char) : List String × Bool :=
  let line := stripComments line
  if isBareContinuation line then ([], true)
  else
    let columns := splitColumns line
    let bullets :=
      if isBlankOrComment line || spec.hides columns then [] else [spec.rowBullet columns]
    (bullets, isContinued line)

end EnumSpec

end BindingDocs
