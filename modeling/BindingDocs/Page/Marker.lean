import BindingDocs.Declaration
import BindingDocs.Page.Basic

/-!
# The marker method on a page

The documentation of a listing is attached to a marker method, which appears on the rendered page
like any other.  Its text is copied to the top of the member table, and its own entries are removed.

## Main definitions

* `Page.markerNodes` — the entries of the marker method.
* `Page.promote` — copies its documentation to the top of the member table.
-/

namespace BindingDocs.Page

/-- The text of a no-break space. -/
def nbsp : String := String.ofList [Char.ofNat 0xA0]

/-- Whether a text occurs in the texts directly inside a node. -/
def mentions (text : String) (n : Node) : Bool := Text.contains text.toList n.ownText.toList

/-- Whether the name of the marker occurs directly inside a node. -/
def mentionsMarker (n : Node) : Bool := mentions Declaration.markerName n

/-- Whether a row has a cell with a link to the marker. -/
def isMarkerRow (row : Node) : Bool :=
  (row.elements "td").any fun td =>
    td.elementChildren.any fun a => a.isElement "a" && mentionsMarker a

/-- Whether a node stands in a table of member declarations. -/
def inMemberTable (p : Page) (n : Node) : Bool :=
  (p.ancestors n.label).any (·.hasClass "table" "memberdecls")

/-- The first row of a member table whose nearest earlier row, rows around it aside, is a marker
row; `before` are the earlier rows, the nearest first. -/
def rowAfterMarker (p : Page) : (before : List Node) → List Node → Option Node
  | _, [] => none
  | before, row :: rest =>
    if p.inMemberTable row &&
        (before.find? fun q => !p.isDescendant row.label q.label).any isMarkerRow then some row
    else rowAfterMarker p (row :: before) rest

/-- The heading of the marker's documentation and the block after it. -/
def markerHeading (p : Page) : List Node :=
  match p.descendants.dropWhile fun n => !(n.hasClass "h2" "memtitle" && mentionsMarker n) with
  | [] => []
  | heading :: later =>
    heading ::
      (later.find? fun n => n.isElement "div" && !p.isDescendant n.label heading.label).toList

/-- The entries of the marker method: its row, the row after it, its heading and the block after
that. -/
def markerNodes (p : Page) : List Node :=
  let rows := p.elements "tr"
  (rows.find? fun row => p.inMemberTable row && isMarkerRow row).toList ++
    (p.rowAfterMarker [] rows).toList ++ p.markerHeading

/-- The documentation of the marker: the first element inside a block after its signature. -/
def markerContent? (p : Page) : Option Node :=
  let qualified := "::" ++ Declaration.markerName
  match p.descendants.dropWhile fun n => !(n.isElement "td" && mentions qualified n) with
  | [] => none
  | td :: later =>
    (later.filter fun n => n.isElement "div" && !p.isDescendant n.label td.label).findSome?
      fun div => div.elementChildren.head?

/-- The rows that show a copy of `content` at the top of the member table. -/
def promotedRows (content : Node) : Forest :=
  .ofElement "tr" []
    (.ofElement "td" [("colspan", "2"), ("class", "memItemRight")] content.toForest) ++
  .ofElement "tr" []
    (.ofElement "td" [("class", "memSeparator"), ("colspan", "2")] (.ofText nbsp))

/-- Copies the documentation of the marker to the top of the first member table; nothing if the page
has no such documentation or no such table. -/
def promote? (p : Page) : Option Page :=
  p.markerContent?.bind fun content =>
    ((p.elements "table").find? (·.hasClass "table" "memberdecls")).map fun table =>
      p.insertAfterFirstElement table.rowContainer.label (promotedRows content)

/-- Copies the documentation of the marker to the top of the first member table, if possible. -/
def promote (p : Page) : Page := p.promote?.getD p

end BindingDocs.Page
