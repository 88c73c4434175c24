import BindingDocs.Html.TagSets
import BindingDocs.Html.Token
import BindingDocs.Page.Basic

/-!
# Building a page

The page is built while its tokens are read.  Besides the page itself the builder knows which
elements are open, which formatting elements are to be opened again, and what kind of markup is
expected next.

## Main definitions

* `Mode` — what kind of markup is expected.
* `Builder` — the page so far and everything the rules depend on.
* `Builder.place` — where the next node goes.
* `Builder.insertElement`, `Builder.insertText`, `Builder.insertComment` — putting nodes there.
* `Builder.inScope`, `Builder.popUntil`, `Builder.closeImplied` — the open elements.
-/

namespace BindingDocs

namespace Page

/-! ### Putting nodes into a page -/

/-- Puts a new node after the children of a node. -/
def appendItem (l : Nat) (i : Item) (p : Page) : Page := p.append l (.cons 0 i .nil .nil)

/-- Puts a new node in front of a node. -/
def insertItemBefore (l : Nat) (i : Item) (p : Page) : Page :=
  ⟨Forest.insertBefore l (.cons p.next i .nil .nil) p.forest, p.next + 1⟩

/-- Adds text at the end of a forest: to its last tree if that is a text, or as a text of its own
with the label `n`. -/
def Forest.appendText (n : Nat) (s : String) : Forest → Forest
  | .nil => .cons n (.text s) .nil .nil
  | .cons l i below .nil =>
    match i with
    | .text t => .cons l (.text (t ++ s)) below .nil
    | _ => .cons l i below (.cons n (.text s) .nil .nil)
  | .cons l i below next => .cons l i below (appendText n s next)

/-- Adds text in front of the node labelled `l`: to the text before it if there is one, or as a text
of its own with the label `n`. -/
def Forest.insertTextBefore (l n : Nat) (s : String) : Forest → Forest
  | .nil => .nil
  | .cons m i below next =>
    if m = l then .cons n (.text s) .nil (.cons m i below next)
    else
      match i, next.rootLabels.head? == some l with
      | .text t, true => .cons m (.text (t ++ s)) below next
      | _, _ => .cons m i (insertTextBefore l n s below) (insertTextBefore l n s next)

/-- Adds text after the children of a node. -/
def appendText (l : Nat) (s : String) (p : Page) : Page :=
  ⟨p.forest.updateBelow l (Forest.appendText p.next s), p.next + 1⟩

/-- Adds text in front of a node. -/
def insertTextBefore (l : Nat) (s : String) (p : Page) : Page :=
  ⟨p.forest.insertTextBefore l p.next s, p.next + 1⟩

/-- Moves a node, with everything below it, in front of another. -/
def moveBefore (l child : Nat) (p : Page) : Page :=
  match p.node? child with
  | some n => { p with forest := Forest.insertBefore l n.toForest (p.forest.without child) }
  | none => p

/-- Moves the children of a node after the children of another. -/
def moveChildren (source target : Nat) (p : Page) : Page :=
  match p.node? source with
  | some n =>
    { p with
      forest := (p.forest.updateBelow source fun _ => .nil).updateBelow target (· ++ n.below) }
  | none => p

/-- Gives an element the attributes it does not have yet. -/
def addAttrs (l : Nat) (attrs : List Attr) (p : Page) : Page :=
  { p with
    forest := p.forest.updateItem l fun
      | .element e =>
        let has (a : Attr) : Bool := e.attrs.any fun b => b.name == a.name && b.space == a.space
        .element { e with attrs := e.attrs ++ attrs.filter (!has ·) }
      | i => i }

end Page

namespace Html

open Page (Element Attr Space)

/-- What kind of markup is expected. -/
inductive Mode where
  | initial
  | beforeHtml
  | beforeHead
  | inHead
  | afterHead
  | inBody
  | text
  | inTable
  | inTableText
  | inCaption
  | inColumnGroup
  | inTableBody
  | inRow
  | inCell
  | inSelect
  | inSelectInTable
  | inTemplate
  | afterBody
  | inFrameset
  | afterFrameset
  | afterAfterBody
  | afterAfterFrameset
deriving DecidableEq, Repr, Inhabited

/-- An open element: its label in the page, and what it is. -/
structure Open where
  label : Nat
  element : Element
deriving DecidableEq, Repr, Inhabited

/-- The page so far and everything the rules depend on. -/
structure Builder where
  page : Page := .empty
  mode : Mode := .initial
  /-- The mode to go back to after raw text or table text. -/
  after : Mode := .initial
  /-- The modes of the open templates, the innermost first. -/
  templates : List Mode := []
  /-- The open elements, the innermost first. -/
  stack : List Open := []
  /-- The formatting elements to be opened again, the latest first; nothing stands for a border. -/
  formatting : List (Option Open) := []
  head : Option Nat := none
  form : Option Nat := none
  /-- Whether a frameset may still replace the body. -/
  framesetOk : Bool := true
  /-- Whether the page is laid out in the old way. -/
  oldLayout : Bool := false
  /-- Whether nodes are kept out of tables. -/
  foster : Bool := false
  /-- Whether a newline that comes next is left out. -/
  skipNewline : Bool := false
  /-- Text met between the parts of a table. -/
  tableText : List Token := []
  /-- The contents of templates, by the label of the template. -/
  contents : List (Nat × Nat) := []
deriving Inhabited

namespace Builder

/-! ### Open elements -/

/-- The innermost open element. -/
def current? (b : Builder) : Option Element := b.stack.head?.map (·.element)

/-- Whether the innermost open element satisfies a condition. -/
def currentIs (b : Builder) (p : Element → Bool) : Bool := b.current?.any p

/-- Whether the innermost open element has this name. -/
def currentNamed (b : Builder) (name : String) : Bool := b.currentIs (isNamed name)

/-- Closes the innermost element. -/
def pop (b : Builder) : Builder := { b with stack := b.stack.tail }

/-- Whether an element that satisfies `p` is open inside the innermost boundary. -/
def scopeSearch (scope : Element → Bool) (p : Open → Bool) : List Open → Bool
  | [] => false
  | o :: rest => p o || (!scope o.element && scopeSearch scope p rest)

/-- Whether an element that satisfies `p` is open inside the innermost boundary. -/
def inScope (b : Builder) (scope : Element → Bool) (p : Open → Bool) : Bool :=
  scopeSearch scope p b.stack

/-- Whether an element of this name is open inside the innermost boundary. -/
def hasInScope (b : Builder) (scope : Element → Bool) (name : String) : Bool :=
  b.inScope scope fun o => isNamed name o.element

/-- Whether an element of this name is open at all. -/
def hasOpen (b : Builder) (name : String) : Bool := b.stack.any fun o => isNamed name o.element

/-- Closes elements up to and including the first that satisfies `p`. -/
def popUntil (p : Element → Bool) (b : Builder) : Builder :=
  { b with stack := (b.stack.dropWhile fun o => !p o.element).tail }

/-- Closes elements up to and including the first of this name. -/
def popUntilNamed (name : String) (b : Builder) : Builder := b.popUntil (isNamed name)

/-- Closes elements until the innermost one satisfies `p`. -/
def popUntilCurrent (p : Element → Bool) (b : Builder) : Builder :=
  { b with stack := b.stack.dropWhile fun o => !p o.element }

/-- Closes the innermost elements with one of these names. -/
def closeImplied (names : List String) (b : Builder) : Builder :=
  { b with stack := b.stack.dropWhile fun o => isOneOf names o.element }

/-- Closes the innermost elements whose end tag may be left out, except those of this name. -/
def closeImpliedExcept (name : String) (b : Builder) : Builder :=
  b.closeImplied (impliedEnds.filter (· != name))

/-- Closes one element wherever it stands. -/
def removeOpen (l : Nat) (b : Builder) : Builder :=
  { b with stack := b.stack.filter fun o => o.label != l }

/-- Closes an open paragraph with everything in it. -/
def closeParagraph (b : Builder) : Builder :=
  (b.closeImpliedExcept "p").popUntilNamed "p"

/-- Closes a paragraph if one is open here. -/
def closeParagraphInScope (b : Builder) : Builder :=
  if b.hasInScope buttonScope "p" then b.closeParagraph else b

/-! ### Places -/

/-- Where a node goes. -/
inductive Place where
  /-- After the children of a node. -/
  | inside (l : Nat)
  /-- In front of a node. -/
  | before (l : Nat)
deriving DecidableEq, Repr

/-- The node that the contents of an open element belong to. -/
def holder (b : Builder) (o : Open) : Nat :=
  if isNamed "template" o.element then (b.contents.lookup o.label).getD o.label else o.label

/-- Where a node goes that does not belong into a table: in front of the innermost table if that
stands somewhere, else into the element around it. -/
def fosterPlace (b : Builder) : List Open → Place
  | [] => .inside ((b.stack.getLast?.map (·.label)).getD Page.root)
  | o :: rest =>
    if isNamed "template" o.element then .inside (b.holder o)
    else if isNamed "table" o.element then
      if (b.page.parent? o.label).isSome then .before o.label
      else .inside ((rest.head?.map (·.label)).getD Page.root)
    else b.fosterPlace rest

/-- Where a node goes that belongs into the given element, or into the innermost one. -/
def place (b : Builder) (target : Option Open) : Place :=
  match target <|> b.stack.head? with
  | some o =>
    if b.foster && isOneOf tableParts o.element then b.fosterPlace b.stack else .inside (b.holder o)
  | none => .inside Page.root

/-- Puts a new node at its place. -/
def insertItem (i : Page.Item) (b : Builder) : Builder :=
  match b.place none with
  | .inside l => { b with page := b.page.appendItem l i }
  | .before l => { b with page := b.page.insertItemBefore l i }

/-- Adds text at its place. -/
def insertText (s : String) (b : Builder) : Builder :=
  match b.place none with
  | .inside l => { b with page := b.page.appendText l s }
  | .before l => { b with page := b.page.insertTextBefore l s }

/-- Puts a comment at its place. -/
def insertComment (s : String) (b : Builder) : Builder := b.insertItem (.comment s)

/-- Puts an element at its place without opening it. -/
def insertClosed (e : Element) (b : Builder) : Builder := b.insertItem (.element e)

/-- Puts an element at its place and opens it. -/
def insertElement (e : Element) (b : Builder) : Builder :=
  let l := b.page.next
  let b := b.insertItem (.element e)
  let b := { b with stack := ⟨l, e⟩ :: b.stack }
  if isNamed "template" e then
    { b with page := b.page.addLoose .contents, contents := (l, b.page.next) :: b.contents }
  else b

/-- The element of the main vocabulary that a tag stands for. -/
def ofTag (t : Tag) : Element := { name := t.name, attrs := t.attrs }

/-- Opens the element of a tag. -/
def insertTag (t : Tag) (b : Builder) : Builder := b.insertElement (ofTag t)

/-- Opens an element that the page leaves out. -/
def insertPhantom (name : String) (b : Builder) : Builder := b.insertElement { name }

/-- Opens the outermost element. -/
def createRoot (attrs : List Attr) (b : Builder) : Builder :=
  let e : Element := { name := "html", attrs }
  { b with page := b.page.appendItem Page.root (.element e), stack := [⟨b.page.next, e⟩] }

end Builder

end Html

end BindingDocs
