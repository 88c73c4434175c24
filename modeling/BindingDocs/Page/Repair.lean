import BindingDocs.Text.Pattern

/-!
# Repairing lines

The renderer writes pages that strict markup does not accept, or that would look wrong.  They are
mended line by line before they are read.

## Main definitions

* `repairLine` — one line mended.
* `repair` — a page mended.
-/

namespace BindingDocs.Page

open Text

/-- The beginning of a cell that holds a parameter type. -/
def typeCell : String := "<td class=\"paramtype\">"

/-- A cell at the beginning of a text, nonempty stretch of line and all, without the no-break space
before the last end of a cell that has one. -/
def shortenCell? : Reader (List Char) := fun s =>
  (lit typeCell (run1 inLine (lit "&#160;</td>" some)) s).map fun (body, rest) =>
    typeCell.toList ++ body ++ "</td>".toList ++ rest

/-- The text with the leftmost parameter-type cell shortened. -/
def shortenFirst : List Char → List Char
  | [] => []
  | c :: s =>
    match shortenCell? (c :: s) with
    | some shortened => shortened
    | none => c :: shortenFirst s

/-- One line mended: named spaces and dashes are written as strict markup knows them, the space that
ends a parameter type is dropped, and so are licence comments. -/
def repairLine (line : List Char) : List Char :=
  let line := replace "&nbsp;".toList "&#160;".toList line
  let line := replace "&ndash;".toList [Char.ofNat 0x2013] line
  substitute (enclosed? "/* @license" "*/") [] (shortenFirst line)

/-- A page mended, line by line. -/
def repair (page : List Char) : List Char := (pieces page).flatMap repairLine

end BindingDocs.Page
