import BindingDocs.Page.Inherited
import BindingDocs.Page.Marker

/-!
# Argument summaries

A signature keeps only its name; the argument types and the return type move to a row of their own.

## Main definitions

* `summaryRow` — the row with the arguments and the return type.
* `Page.cleanTable?` — one signature table.
* `Page.clean` — all signature tables.
-/

namespace BindingDocs.Page

/-- A cell of an argument as shown in the summary: without commas and without blanks at its ends. -/
def argument (cls : String) (cell : Node) : Forest :=
  let text := cell.textContent.toList.filter (· != ',')
  .ofElement "span" [("class", cls)] (.ofText (String.ofList (Text.trim text)))

/-- Names and types of the arguments, divided by commas. -/
def argumentPairs : (names types : List Node) → Forest
  | name :: names, type :: types =>
    let pair := argument "paramname" name ++ .ofText ": " ++ argument "paramtype" type
    match names, types with
    | _ :: _, _ :: _ => pair ++ .ofText ", " ++ argumentPairs names types
    | _, _ => pair
  | _, _ => .nil

/-- The row with the arguments and the return type, over `width` columns. -/
def summaryRow (width : Nat) (names types : List Node) (returns : String) : Forest :=
  .ofElement "tr" [("class", "nofloat argline")]
    (.ofElement "td" [("colspan", toString width)]
      (.ofElement "span" [("class", "argtypes")] (.ofText "Arg types:") ++ .ofText " " ++
        argumentPairs names types ++ .ofText (nbsp ++ nbsp ++ "|" ++ nbsp ++ nbsp ++ "returns ") ++
        .ofElement "span" [("class", "returntype")]
          (.ofText (if returns = "" then "nil" else returns))))

/-- Replaces the children of a node by a text. -/
def setText (l : Nat) (s : String) (p : Page) : Page := (p.clear l).append l (.ofText s)

/-- The nodes with these labels as they are now. -/
def refresh (p : Page) (ns : List Node) : List Node := ns.filterMap fun n => p.node? n.label

/-- Adds the summary row of a signature table whose cells are given, and takes the type cells
out. -/
def summarise (l : Nat) (cells : List Node) (returns : String) (p : Page) : Page :=
  let types := cells.filter (·.hasClass "td" "paramtype")
  let names := cells.filter (·.hasClass "td" "paramname")
  if types.length = names.length then
    let row := summaryRow cells.length (p.refresh names) (p.refresh types) returns
    let p := types.foldl (fun p t => p.detach t.label) p
    match p.node? l with
    | some table => p.append table.rowContainer.label row
    | none => p
  else p

/-- Reduces a signature table to the name of the member; nothing if it does not hold exactly one
signature with a class. -/
def cleanTable? (l : Nat) (p : Page) : Option Page :=
  (p.node? l).bind fun table =>
    match signatureNames table with
    | [sig] =>
      (Member.parse? sig.toList).map fun m =>
        let cells := table.elements "td"
        let p := match cells.head? with
          | some first => p.setText first.label (String.ofList m.name)
          | none => p
        p.summarise l cells (String.ofList m.returns)
    | _ => none

/-- Reduces the signature tables with these labels in turn, and counts them. -/
def cleanTables : List Nat → Page → Page × Nat
  | [], p => (p, 0)
  | l :: rest, p =>
    match p.cleanTable? l with
    | some p =>
      let (p, n) := cleanTables rest p
      (p, n + 1)
    | none => cleanTables rest p

/-- Reduces the signature tables of a page, and counts them. -/
def clean (p : Page) : Page × Nat :=
  cleanTables (((p.elements "table").filter (·.hasClass "table" "memname")).map (·.label)) p

end BindingDocs.Page
