import BindingDocs.Page.Basic

/-!
# Pages as nodes with links

In memory a page is a number of nodes with links in both directions: a node knows its parent, and it
lists its children.  The two are written separately, and nothing but the way in which they are
written keeps them in agreement.  Putting a node below another extends the list of the one and sets
the parent of the other; it does not take the node out of a list in which it may stand already.

Nodes are named by their labels, as in the forest of a page.  No node is ever given up, so a label
that names a node names the same node from then on.

## Main definitions

* `Cell`, `Heap` — a node with its links, and all nodes by their labels.
* `Heap.parent?`, `Heap.ancestors`, `Heap.isDescendant` — along the links upwards.
* `Heap.children`, `Heap.node?`, `Heap.descendants` — along the links downwards.
* `Heap.detach`, `Heap.clear`, `Heap.append`, `Heap.insertAfterFirstElement`,
  `Heap.replaceTextBelow` — changes.
* `Heap.create`, `Heap.grow`, `Heap.plant`, `Heap.deepClone` — new nodes, and trees put together of
  them.
-/

namespace BindingDocs.Page

/-- A node as it is stored. -/
structure Cell where
  item : Item
  /-- The parent that the node knows of. -/
  parent : Option Nat
  /-- The children that the node lists. -/
  children : List Nat
deriving DecidableEq, Repr, Inhabited

/-- All nodes, each at its label.  Some labels may have no node. -/
structure Heap where
  cells : List (Option Cell)
deriving DecidableEq, Repr, Inhabited

namespace Heap

/-- The next free label. -/
def next (s : Heap) : Nat := s.cells.length

/-- The node at a label. -/
def cell? (s : Heap) (l : Nat) : Option Cell := s.cells[l]?.join

/-- The label that a node has as its parent. -/
def parent? (s : Heap) (l : Nat) : Option Nat := (s.cell? l).bind (·.parent)

/-- The labels that a node has as its children. -/
def children (s : Heap) (l : Nat) : List Nat := ((s.cell? l).map (·.children)).getD []

/-- What stands at a label. -/
def item? (s : Heap) (l : Nat) : Option Item := (s.cell? l).map (·.item)

/-! ### Upwards -/

/-- The labels above a label, from the nearest on; at most `fuel` of them. -/
def ancestorsFuel (s : Heap) : (fuel : Nat) → Nat → List Nat
  | 0, _ => []
  | fuel + 1, l =>
    match s.parent? l with
    | some a => a :: ancestorsFuel s fuel a
    | none => []

/-- The labels above a label, from the nearest on. -/
def ancestors (s : Heap) (l : Nat) : List Nat := s.ancestorsFuel s.next l

/-- Whether walking upwards from `l` leads to `a`. -/
def isDescendant (s : Heap) (l a : Nat) : Bool := (s.ancestors l).contains a

/-! ### Downwards -/

/-- The trees with these roots; at most `fuel` steps are made along the lists. -/
def trees (s : Heap) : (fuel : Nat) → List Nat → Forest
  | 0, _ => .nil
  | _ + 1, [] => .nil
  | fuel + 1, l :: ls =>
    match s.cell? l with
    | some c => .cons l c.item (trees s fuel c.children) (trees s fuel ls)
    | none => trees s fuel ls

/-- The node with a label and everything below it. -/
def node? (s : Heap) (l : Nat) : Option Node :=
  (s.cell? l).map fun c => ⟨l, c.item, s.trees s.next c.children⟩

/-- The document. -/
def document (s : Heap) : Node := (s.node? root).getD ⟨root, .document, .nil⟩

/-- The nodes of the document, in document order. -/
def descendants (s : Heap) : List Node := s.document.descendants

/-- The elements of this name in the document, in document order. -/
def elements (s : Heap) (tag : String) : List Node := s.document.elements tag

/-! ### Changes -/

/-- Changes the node at a label. -/
def modify (l : Nat) (u : Cell → Cell) (s : Heap) : Heap := ⟨s.cells.modify l (Option.map u)⟩

/-- Sets the parent that a node knows of. -/
def setParent (up : Option Nat) (l : Nat) (s : Heap) : Heap :=
  s.modify l fun c => { c with parent := up }

/-- Changes the children that a node lists. -/
def setChildren (u : List Nat → List Nat) (l : Nat) (s : Heap) : Heap :=
  s.modify l fun c => { c with children := u c.children }

/-- Sets the parent that some nodes know of. -/
def setParents (up : Option Nat) (ls : List Nat) (s : Heap) : Heap :=
  ls.foldl (fun s l => s.setParent up l) s

/-- Takes a node off the list of its parent. -/
def unlist (l : Nat) (s : Heap) : Heap :=
  match s.parent? l with
  | some a => s.setChildren (·.filter (· ≠ l)) a
  | none => s

/-- Takes a node out of its place. -/
def detach (l : Nat) (s : Heap) : Heap := (s.unlist l).setParent none l

/-- Takes the children out of a node. -/
def clear (l : Nat) (s : Heap) : Heap :=
  (s.setParents none (s.children l)).setChildren (fun _ => []) l

/-- Puts a node after the children of another. -/
def append (a c : Nat) (s : Heap) : Heap := (s.setParent (some a) c).setChildren (· ++ [c]) a

/-- The place after the first element among some nodes, or the first place. -/
def placeAfterFirstElement (s : Heap) (ls : List Nat) : Nat :=
  ((ls.findIdx? fun l => (s.item? l).any (·.isElement)).map (· + 1)).getD 0

/-- Puts nodes after the first element among the children of another. -/
def insertAfterFirstElement (a : Nat) (cs : List Nat) (s : Heap) : Heap :=
  let place := s.placeAfterFirstElement (s.children a)
  (s.setParents (some a) cs).setChildren (fun ls => ls.take place ++ (cs ++ ls.drop place)) a

/-- Replaces a text in the text of a node, if it is one. -/
def replaceTextAt (old new : String) (l : Nat) (s : Heap) : Heap :=
  s.modify l fun c => { c with item := c.item.replaceText old new }

/-- Replaces a text wherever it occurs in the texts below a node. -/
def replaceTextBelow (l : Nat) (old new : String) (s : Heap) : Heap :=
  (((s.node? l).map (·.descendants)).getD []).foldl
    (fun s n => s.replaceTextAt old new n.label) s

/-- Replaces a text wherever it occurs in the texts of the document. -/
def replaceText (old new : String) (s : Heap) : Heap := s.replaceTextBelow root old new

/-! ### New nodes -/

/-- Makes a node without links, at the label that was free. -/
def create (i : Item) (s : Heap) : Heap := ⟨s.cells ++ [some ⟨i, none, []⟩]⟩

/-- Makes the nodes of some trees, one after the other, and puts each tree, when it is complete,
after the children of a node. -/
def grow (l : Nat) : Forest → Heap → Heap
  | .nil, s => s
  | .cons _ i below next, s =>
    let c := s.next
    grow l next ((grow c below (s.create i)).append l c)

/-- Makes the nodes of some trees, and returns their roots, which have no parent. -/
def plant : Forest → Heap → List Nat × Heap
  | .nil, s => ([], s)
  | .cons _ i below next, s =>
    let (ls, t) := plant next (grow s.next below (s.create i))
    (s.next :: ls, t)

/-- Copies a node and everything below it.  The copy is at the label that was free, and has no
parent. -/
def deepClone (l : Nat) (s : Heap) : Heap :=
  match s.node? l with
  | some n => (plant n.toForest s).2
  | none => s

end Heap

end BindingDocs.Page
