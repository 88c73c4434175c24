import BindingDocs.Page.Forest
import BindingDocs.Text.Search

/-!
# Pages that change

A page is a forest whose first tree is the document; the other trees were taken out of it or never
put in.  Nodes are named by their labels.  New nodes get labels that were never used.

## Main definitions

* `Page` — the trees and the next free label.
* `Page.node?`, `Page.parent?`, `Page.isDescendant` — looking around.
* `Page.detach`, `Page.clear`, `Page.append`, `Page.insertAfterFirstElement`, `Page.replaceText` —
  changes.
* `Page.addLoose`, `Page.attach`, `Page.deepClone` — new nodes, and trees put together of them.
-/

namespace BindingDocs

open Page (Forest Item Node)

/-- The trees of a page and the next free label. -/
structure Page where
  forest : Forest
  next : Nat
deriving DecidableEq, Repr, Inhabited

namespace Page

/-- The label of the document. -/
def root : Nat := 0

/-- A page with nothing in it. -/
def empty : Page := ⟨.cons root .document .nil .nil, 1⟩

/-- The node with a label. -/
def node? (p : Page) (l : Nat) : Option Node := p.forest.find? l

/-- The document. -/
def document (p : Page) : Node := (p.node? root).getD ⟨root, .document, .nil⟩

/-- The node directly above the node with a label. -/
def parent? (p : Page) (l : Nat) : Option Node := (p.forest.parent? l none).bind p.node?

/-- The nodes above the node with a label, from the nearest on; at most `fuel` of them. -/
def ancestorsFuel (p : Page) : (fuel : Nat) → Nat → List Node
  | 0, _ => []
  | fuel + 1, l =>
    match p.parent? l with
    | some n => n :: ancestorsFuel p fuel n.label
    | none => []

/-- The nodes above the node with a label, from the nearest on. -/
def ancestors (p : Page) (l : Nat) : List Node := p.ancestorsFuel p.forest.size l

/-- Whether the node labelled `l` lies below the node labelled `a`. -/
def isDescendant (p : Page) (l a : Nat) : Bool := (p.ancestors l).any (·.label == a)

/-- The nodes of the document, in document order. -/
def descendants (p : Page) : List Node := p.document.descendants

/-- The elements of this name in the document, in document order. -/
def elements (p : Page) (tag : String) : List Node := p.document.elements tag

/-- Takes a node out of the tree it is in.  A node without parent stays as it is. -/
def detach (l : Nat) (p : Page) : Page :=
  match p.parent? l, p.node? l with
  | some _, some n => { p with forest := p.forest.without l ++ n.toForest }
  | _, _ => p

/-- Takes the children out of a node. -/
def clear (l : Nat) (p : Page) : Page :=
  match p.node? l with
  | some n => { p with forest := p.forest.updateBelow l (fun _ => .nil) ++ n.below }
  | none => p

/-- Puts copies of trees after the children of a node. -/
def append (l : Nat) (f : Forest) (p : Page) : Page :=
  let (f, next) := f.relabel p.next
  ⟨p.forest.updateBelow l (· ++ f), next⟩

/-- Puts copies of trees after the first element among the children of a node. -/
def insertAfterFirstElement (l : Nat) (f : Forest) (p : Page) : Page :=
  let (f, next) := f.relabel p.next
  ⟨p.forest.updateBelow l (Forest.insertAfterFirstElement f), next⟩

/-- Replaces a text wherever it occurs in another; what is no text stays as it is. -/
def Item.replaceText (old new : String) : Item → Item
  | .text s => .text (String.ofList (Text.replace old.toList new.toList s.toList))
  | i => i

/-- Replaces a text wherever it occurs in the texts below a node. -/
def replaceTextBelow (l : Nat) (old new : String) (p : Page) : Page :=
  { p with forest := p.forest.updateBelow l (Forest.mapItems (Item.replaceText old new)) }

/-- Replaces a text wherever it occurs in the texts of the document. -/
def replaceText (old new : String) (p : Page) : Page := p.replaceTextBelow root old new

/-! ### Trees outside the document -/

/-- Puts a new node outside every tree. -/
def addLoose (i : Item) (p : Page) : Page := ⟨p.forest ++ .cons p.next i .nil .nil, p.next + 1⟩

/-- Moves a node, with everything below it, after the children of another. -/
def moveInto (l child : Nat) (p : Page) : Page :=
  match p.node? child with
  | some n => { p with forest := (p.forest.without child).updateBelow l (· ++ n.toForest) }
  | none => p

/-- Whether a tree can be put below a node: it has no parent, it is not the document, and the node
stands outside it. -/
def isAttachable (l child : Nat) (p : Page) : Bool :=
  child != root && (p.parent? child).isNone && (p.node? l).isSome && l != child &&
    !p.isDescendant l child

/-- Puts a tree after the children of a node, if it can be put there. -/
def attach (l child : Nat) (p : Page) : Page :=
  if p.isAttachable l child then p.moveInto l child else p

/-- Copies trees, one node after the other, and puts them after the children of a node. -/
def cloneBelow (l : Nat) : Forest → Page → Page
  | .nil, p => p
  | .cons _ i below next, p =>
    let copy := p.next
    cloneBelow l next ((cloneBelow copy below (p.addLoose i)).attach l copy)

/-- Copies a node and everything below it.  The copy stands outside every tree and has the label
that was free. -/
def deepClone (n : Node) (p : Page) : Page := cloneBelow p.next n.below (p.addLoose n.item)

end Page

end BindingDocs
