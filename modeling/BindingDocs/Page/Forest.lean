import BindingDocs.Page.Item

/-!
# Labelled forests

A page is a sequence of trees.  Every node carries a label, so that a node can be named while the
tree around it changes.  A forest is given by its first tree — label, item and children — and the
trees after it.

## Main definitions

* `Forest` — trees in document order.
* `Forest.preorder` — the labels in document order, by recursion on the forest.
* `Forest.walk` — the nodes in document order, with a forest of nodes still to visit.
* `Forest.find?`, `Forest.parent?` — the node with a label, and the label above it.
* `Forest.without`, `Forest.updateBelow`, `Forest.updateItem` — changes at a label.
* `Forest.relabel` — the same trees under new labels.
-/

namespace BindingDocs.Page

/-- Trees in document order. -/
inductive Forest where
  | nil
  /-- The first tree: its label, its item and its children; then the trees after it. -/
  | cons (label : Nat) (item : Item) (below next : Forest)
deriving DecidableEq, Repr, Inhabited

/-- A node with everything below it. -/
structure Node where
  label : Nat
  item : Item
  below : Forest
deriving DecidableEq, Repr, Inhabited

namespace Forest

/-- The trees of one forest before those of another. -/
def append : Forest → Forest → Forest
  | nil, g => g
  | cons l i below next, g => cons l i below (append next g)

instance : Append Forest := ⟨append⟩

/-- The number of nodes. -/
def size : Forest → Nat
  | nil => 0
  | cons _ _ below next => size below + size next + 1

/-- The roots of the trees. -/
def roots : Forest → List Node
  | nil => []
  | cons l i below next => ⟨l, i, below⟩ :: roots next

/-- The labels in document order. -/
def preorder : Forest → List Nat
  | nil => []
  | cons l _ below next => l :: (preorder below ++ preorder next)

/-- The nodes in document order, by recursion on the forest. -/
def nodes : Forest → List Node
  | nil => []
  | cons l i below next => ⟨l, i, below⟩ :: (nodes below ++ nodes next)

/-- The nodes in document order: the first node of those still to visit is taken, and its children
are put in front of the others.  There are at most `fuel` nodes. -/
def walkFuel : (fuel : Nat) → Forest → List Node
  | 0, _ => []
  | _ + 1, nil => []
  | fuel + 1, cons l i below next => ⟨l, i, below⟩ :: walkFuel fuel (below ++ next)

/-- The nodes in document order. -/
def walk (f : Forest) : List Node := walkFuel f.size f

/-- The node with a label. -/
def find? (l : Nat) : Forest → Option Node
  | nil => none
  | cons m i below next =>
    if m = l then some ⟨m, i, below⟩ else find? l below <|> find? l next

/-- The label of the node directly above the node labelled `l`, where `up` is above the roots. -/
def parent? (l : Nat) (up : Option Nat) : Forest → Option Nat
  | nil => none
  | cons m _ below next => if m = l then up else parent? l (some m) below <|> parent? l up next

/-- The forest without the trees labelled `l`. -/
def without (l : Nat) : Forest → Forest
  | nil => nil
  | cons m i below next =>
    if m = l then without l next else cons m i (without l below) (without l next)

/-- The forest with the children of the node labelled `l` changed. -/
def updateBelow (l : Nat) (f : Forest → Forest) : Forest → Forest
  | nil => nil
  | cons m i below next =>
    if m = l then cons m i (f below) next
    else cons m i (updateBelow l f below) (updateBelow l f next)

/-- The forest with the item of the node labelled `l` changed. -/
def updateItem (l : Nat) (f : Item → Item) : Forest → Forest
  | nil => nil
  | cons m i below next =>
    if m = l then cons m (f i) below next
    else cons m i (updateItem l f below) (updateItem l f next)

/-- The forest with trees put in front of the node labelled `l`. -/
def insertBefore (l : Nat) (g : Forest) : Forest → Forest
  | nil => nil
  | cons m i below next =>
    if m = l then g ++ cons m i below next
    else cons m i (insertBefore l g below) (insertBefore l g next)

/-- The forest with every item changed. -/
def mapItems (f : Item → Item) : Forest → Forest
  | nil => nil
  | cons l i below next => cons l (f i) (mapItems f below) (mapItems f next)

/-- The same trees labelled from `n` on in document order, and the first label not used. -/
def relabel (n : Nat) : Forest → Forest × Nat
  | nil => (nil, n)
  | cons _ i below next =>
    let (below, m) := relabel (n + 1) below
    let (next, m) := relabel m next
    (cons n i below next, m)

/-- The forest with trees put after its first element, or at its beginning if it has none. -/
def insertAfterFirstElement (g f : Forest) : Forest :=
  match go f with
  | some f => f
  | none => g ++ f
where
  /-- The forest with `g` after its first element, if it has one. -/
  go : Forest → Option Forest
    | nil => none
    | cons l i below next =>
      if i.isElement then some (cons l i below (g ++ next)) else (go next).map (cons l i below)

/-- The labels of the roots. -/
def rootLabels : Forest → List Nat
  | nil => []
  | cons l _ _ next => l :: rootLabels next

/-- A tree with a single text; its label is given when it is put into a page. -/
def ofText (s : String) : Forest := cons 0 (.text s) nil nil

/-- A tree with an element and its children; labels are given when it is put into a page. -/
def ofElement (tag : String) (attrs : List (String × String)) (below : Forest) : Forest :=
  cons 0 (.element { name := tag, attrs := attrs.map fun (n, v) => { name := n, value := v } })
    below nil

end Forest

namespace Node

/-- The node as a forest of one tree. -/
def toForest (n : Node) : Forest := .cons n.label n.item n.below .nil

/-- The name of the element, if the node is one. -/
def localName? (n : Node) : Option String := n.item.element?.map (·.name)

/-- Whether the node is an element of this name. -/
def isElement (n : Node) (tag : String) : Bool := n.localName? == some tag

/-- The value of the first attribute of this name. -/
def attr? (n : Node) (key : String) : Option String :=
  n.item.element?.bind fun e => (e.attrs.find? (·.name == key)).map (·.value)

/-- Whether the node is an element of this name whose whole class attribute is `cls`. -/
def hasClass (n : Node) (tag cls : String) : Bool := n.isElement tag && n.attr? "class" == some cls

/-- The nodes below this one, in document order. -/
def descendants (n : Node) : List Node := n.below.walk

/-- The elements of this name below this node, in document order. -/
def elements (n : Node) (tag : String) : List Node := n.descendants.filter (·.isElement tag)

/-- The children that are elements. -/
def elementChildren (n : Node) : List Node := n.below.roots.filter (·.item.isElement)

/-- The texts of the node and of everything below it, joined. -/
def textContent (n : Node) : String :=
  String.join ((n :: n.descendants).filterMap (·.item.text?))

/-- The texts that are children of the node. -/
def directTexts (n : Node) : List String := n.below.roots.filterMap (·.item.text?)

/-- The texts that are children of the node, joined. -/
def ownText (n : Node) : String := String.join n.directTexts

/-- Where a table keeps its rows: in its first body, or in itself. -/
def rowContainer (n : Node) : Node := (n.elementChildren.find? (·.isElement "tbody")).getD n

end Node

end BindingDocs.Page
