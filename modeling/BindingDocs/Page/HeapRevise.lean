import BindingDocs.Page.Heap
import BindingDocs.Page.Revise

/-!
# Revising stored pages

The revisions of a page as they are made on stored nodes.  What is looked for is found along the
lists of children, where something stands is found along the parents, and what is changed are the
links.  Nodes that were found early are kept by their labels while the links change.

What is read off a single node, and the trees that are put into a page, are those of the revisions
of a forest.

## Main definitions

* `Heap.removeMoreLinks`, `Heap.promote`, `Heap.label`, `Heap.clean` — the revisions.
* `Heap.markerNodes` — the entries of the marker method.
* `Heap.revise` — all of them in order.
-/

namespace BindingDocs.Page.Heap

open Page (Forest Item Node)

/-- Takes nodes out of their places. -/
def detachAll (ns : List Node) (s : Heap) : Heap := ns.foldl (fun s n => s.detach n.label) s

/-- Drops the first `limit` disclosure links. -/
def removeMoreLinks (limit : Nat) (s : Heap) : Heap :=
  s.detachAll (((s.elements "a").filter (·.ownText == "More...")).take limit)

/-! ### The marker method -/

/-- Whether a node stands in a table of member declarations. -/
def inMemberTable (s : Heap) (n : Node) : Bool :=
  (s.ancestors n.label).any fun a => (s.node? a).any (·.hasClass "table" "memberdecls")

/-- The first row of a member table whose nearest earlier row, rows around it aside, is a marker
row; `before` are the earlier rows, the nearest first. -/
def rowAfterMarker (s : Heap) : (before : List Node) → List Node → Option Node
  | _, [] => none
  | before, row :: rest =>
    if s.inMemberTable row &&
        (before.find? fun q => !s.isDescendant row.label q.label).any isMarkerRow then some row
    else rowAfterMarker s (row :: before) rest

/-- The heading of the marker's documentation and the block after it. -/
def markerHeading (s : Heap) : List Node :=
  match s.descendants.dropWhile fun n => !(n.hasClass "h2" "memtitle" && mentionsMarker n) with
  | [] => []
  | heading :: later =>
    heading ::
      (later.find? fun n => n.isElement "div" && !s.isDescendant n.label heading.label).toList

/-- The entries of the marker method: its row, the row after it, its heading and the block after
that. -/
def markerNodes (s : Heap) : List Node :=
  let rows := s.elements "tr"
  (rows.find? fun row => s.inMemberTable row && isMarkerRow row).toList ++
    (s.rowAfterMarker [] rows).toList ++ s.markerHeading

/-- The documentation of the marker: the first element inside a block after its signature. -/
def markerContent? (s : Heap) : Option Node :=
  let qualified := "::" ++ Declaration.markerName
  match s.descendants.dropWhile fun n => !(n.isElement "td" && mentions qualified n) with
  | [] => none
  | td :: later =>
    (later.filter fun n => n.isElement "div" && !s.isDescendant n.label td.label).findSome?
      fun div => div.elementChildren.head?

/-- Copies the documentation of the marker to the top of the first member table, if possible. -/
def promote (s : Heap) : Heap :=
  match s.markerContent?, (s.elements "table").find? (·.hasClass "table" "memberdecls") with
  | some content, some table =>
    let (rows, s) := plant (promotedRows content) s
    s.insertAfterFirstElement table.rowContainer.label rows
  | _, _ => s

/-! ### Inherited members -/

/-- The pages of the classes in the inheritance diagram; of several areas with one name the last
counts. -/
def classUrls (s : Heap) : Urls :=
  ((s.elements "area").filter fun a =>
      ((s.parent? a.label).bind s.node?).any (·.isElement "map")).foldl
    (fun urls area =>
      match area.attr? "alt", area.attr? "href" with
      | some name, some url => urls.set name url
      | _, _ => urls) []

/-- Completes the labels of the tables with these labels in turn, up to the first error. -/
def labelTables (urls : Urls) : List Nat → Heap → Heap × Except RevisionError Nat
  | [], s => (s, .ok 0)
  | l :: rest, s =>
    match labelOf ((s.node? l).getD default) with
    | .error e => (s, .error e)
    | .ok none => labelTables urls rest s
    | .ok (some (label, owner)) =>
      let (s, result) :=
        labelTables urls rest (grow label.label (labelText urls owner) (s.clear label.label))
      (s, result.map (· + 1))

/-- Completes the labels of inherited members. -/
def label (urls : Urls) (s : Heap) : Heap × Except RevisionError Nat :=
  labelTables urls ((s.elements "table").map (·.label)) s

/-! ### Signatures -/

/-- Replaces the children of a node by a text. -/
def setText (l : Nat) (t : String) (s : Heap) : Heap := grow l (.ofText t) (s.clear l)

/-- The nodes with these labels as they are now. -/
def refresh (s : Heap) (ns : List Node) : List Node := ns.filterMap fun n => s.node? n.label

/-- Adds the summary row of a signature table whose cells are given, and takes the type cells
out. -/
def summarise (l : Nat) (cells : List Node) (returns : String) (s : Heap) : Heap :=
  let types := cells.filter (·.hasClass "td" "paramtype")
  let names := cells.filter (·.hasClass "td" "paramname")
  if types.length = names.length then
    let row := summaryRow cells.length (s.refresh names) (s.refresh types) returns
    let s := s.detachAll types
    match s.node? l with
    | some table => grow table.rowContainer.label row s
    | none => s
  else s

/-- Reduces a signature table to the name of the member; nothing if it does not hold exactly one
signature with a class. -/
def cleanTable? (l : Nat) (s : Heap) : Option Heap :=
  (s.node? l).bind fun table =>
    match signatureNames table with
    | [sig] =>
      (Member.parse? sig.toList).map fun m =>
        let cells := table.elements "td"
        let s := match cells.head? with
          | some first => s.setText first.label (String.ofList m.name)
          | none => s
        s.summarise l cells (String.ofList m.returns)
    | _ => none

/-- Reduces the signature tables with these labels in turn, and counts them. -/
def cleanTables : List Nat → Heap → Heap × Nat
  | [], s => (s, 0)
  | l :: rest, s =>
    match s.cleanTable? l with
    | some s =>
      let (s, n) := cleanTables rest s
      (s, n + 1)
    | none => cleanTables rest s

/-- Reduces the signature tables of a page, and counts them. -/
def clean (s : Heap) : Heap × Nat :=
  cleanTables (((s.elements "table").filter (·.hasClass "table" "memname")).map (·.label)) s

/-! ### All revisions -/

/-- The page in which the entries of the marker are looked for. -/
def prepared (s : Heap) : Heap :=
  ((s.removeMoreLinks 2).replaceText "Public Member Function" "Member Function").replaceText
    "More..." "[details]"

/-- The page with the documentation of the marker copied and the labels completed, as far as
possible. -/
def completed (s : Heap) : Heap × Except RevisionError Nat :=
  s.prepared.promote.label s.prepared.promote.classUrls

/-- Makes all changes, or those before the first error.  The entries of the marker are found early
and removed at the end, so that the steps between see them. -/
def revise (s : Heap) : Heap × Option RevisionError :=
  match s.completed with
  | (t, .error e) => (t, some e)
  | (t, .ok _) => (t.clean.1.detachAll s.prepared.markerNodes, none)

end BindingDocs.Page.Heap
