import BindingDocs.Html.Builder

/-!
# Formatting elements

An element that formats text goes on when a block ends before it: it is opened again inside the next
block.  When the end tag of a formatting element comes inside a block that began in it, the block is
moved out and the formatting is repeated in it.

## Main definitions

* `Builder.reopen` — opens the formatting elements that were closed too early.
* `Builder.openFormat` — opens a formatting element.
* `Builder.closeFormat` — the end tag of a formatting element.
-/

namespace BindingDocs.Html.Builder

open Page (Element)

/-- Whether the element with this label is open. -/
def isOpen (b : Builder) (l : Nat) : Bool := b.stack.any (·.label == l)

/-- Whether the element with this label is a formatting element to be opened again. -/
def isFormatting (b : Builder) (l : Nat) : Bool := b.formatting.any fun f => f.any (·.label == l)

/-- The formatting elements since the last border, the latest first. -/
def recent (b : Builder) : List Open := (b.formatting.takeWhile Option.isSome).filterMap id

/-- Forgets a formatting element. -/
def forget (l : Nat) (b : Builder) : Builder :=
  { b with formatting := b.formatting.filter fun f => !f.any (·.label == l) }

/-- Puts a border after the formatting elements. -/
def addBorder (b : Builder) : Builder := { b with formatting := none :: b.formatting }

/-- Forgets the formatting elements since the last border, and the border. -/
def clearToBorder (b : Builder) : Builder :=
  { b with formatting := (b.formatting.dropWhile Option.isSome).tail }

/-- Opens the formatting elements that were closed too early, the oldest first. -/
def reopen (b : Builder) : Builder :=
  let lost := b.formatting.takeWhile fun f => f.any fun o => !b.isOpen o.label
  let kept := b.formatting.drop lost.length
  (lost.filterMap id).reverse.foldl (fun b o =>
    let l := b.page.next
    let b := b.insertElement o.element
    { b with formatting := some ⟨l, o.element⟩ :: b.formatting }) { b with formatting := kept }

/-- Whether two elements have one name and the same attributes in any order. -/
def sameFormat (a e : Element) : Bool :=
  a.name == e.name && a.attrs.length == e.attrs.length && a.attrs.all e.attrs.contains

/-- Opens a formatting element.  Of more than three alike the oldest is forgotten. -/
def openFormat (e : Element) (b : Builder) : Builder :=
  let alike := b.recent.filter fun o => sameFormat o.element e
  let b := match if alike.length ≥ 3 then alike.getLast? else none with
    | some o => b.forget o.label
    | none => b
  let l := b.page.next
  let b := b.insertElement e
  { b with formatting := some ⟨l, e⟩ :: b.formatting }

/-- The end tag of an element without rules of its own: closes it with everything in it, unless a
special element lies between. -/
def closeAny (name : String) (b : Builder) : Builder :=
  go b.stack
where
  /-- Searches the open elements from the innermost on. -/
  go : List Open → Builder
    | [] => b
    | o :: rest =>
      if isNamed name o.element then { b with stack := rest }
      else if isSpecial o.element then b
      else go rest

/-- Where the repeated formatting element goes in the list of formatting elements. -/
inductive Bookmark where
  /-- In the place of the one with this label. -/
  | replace (l : Nat)
  /-- After the one with this label. -/
  | after (l : Nat)

/-- The state of moving a block out of a formatting element. -/
structure Move where
  builder : Builder
  /-- The outermost node moved so far. -/
  last : Nat
  bookmark : Bookmark
  /-- The elements that stay open between the block and the formatting element, in order. -/
  kept : List Open
  count : Nat

/-- One element between the block and the formatting element.  The first three formatting elements
are repeated around the block; everything else is closed. -/
def moveStep (block : Nat) (m : Move) (o : Open) : Move :=
  let b := m.builder
  let count := m.count + 1
  if count > 3 then { m with builder := b.forget o.label, count }
  else if !b.isFormatting o.label then { m with count }
  else
    let l := b.page.next
    let copy : Open := ⟨l, o.element⟩
    let page := (b.page.addLoose (.element o.element)).moveInto l m.last
    let formatting := b.formatting.map fun f => if f.any (·.label == o.label) then some copy else f
    { builder := { b with page, formatting }
      last := l
      bookmark := if m.last = block then .after l else m.bookmark
      kept := m.kept ++ [copy]
      count }

/-- The list of formatting elements with a new entry at the bookmark and without the old one. -/
def placeEntry (old : Nat) (entry : Open) (fs : List (Option Open)) : Bookmark → List (Option Open)
  | .replace l => fs.map fun f => if f.any (·.label == l) then some entry else f
  | .after l =>
    (fs.flatMap fun f => if f.any (·.label == l) then [some entry, f] else [f]).filter
      fun f => !f.any (·.label == old)

/-- Moves `block` out of the formatting element `o`, and repeats the formatting in it. -/
def moveBlock (o block : Open) (above between outer : List Open) (b : Builder) : Builder :=
  let m := between.foldl (moveStep block.label)
    { builder := b, last := block.label, bookmark := .replace o.label, kept := [], count := 0 }
  let b := m.builder
  let page := match b.place outer.head? with
    | .inside l => b.page.moveInto l m.last
    | .before l => b.page.moveBefore l m.last
  let l := page.next
  let entry : Open := ⟨l, o.element⟩
  let page := ((page.addLoose (.element o.element)).moveChildren block.label l).moveInto block.label l
  { b with
    page
    formatting := placeEntry o.label entry b.formatting m.bookmark
    stack := above ++ entry :: block :: (m.kept ++ outer) }

/-- One round of the end tag of a formatting element; `false` if there is nothing more to do. -/
def closeRound (name : String) (b : Builder) : Builder × Bool :=
  match b.recent.find? (·.element.name == name) with
  | none => (b.closeAny name, false)
  | some o =>
    if !b.isOpen o.label then (b.forget o.label, false)
    else if !b.inScope defaultScope (·.label == o.label) then (b, false)
    else
      let inner := b.stack.takeWhile (·.label != o.label)
      let outer := b.stack.drop (inner.length + 1)
      let between := (inner.reverse.takeWhile fun o => !isSpecial o.element).reverse
      match (inner.take (inner.length - between.length)).reverse with
      | [] => ({ b.forget o.label with stack := outer }, false)
      | block :: above => (b.moveBlock o block above.reverse between outer, true)

/-- Rounds of the end tag of a formatting element. -/
def closeRounds (name : String) : Nat → Builder → Builder
  | 0, b => b
  | n + 1, b =>
    match b.closeRound name with
    | (b, true) => closeRounds name n b
    | (b, false) => b

/-- The end tag of a formatting element. -/
def closeFormat (name : String) (b : Builder) : Builder :=
  match b.stack with
  | o :: _ =>
    if isNamed name o.element && !b.isFormatting o.label then b.pop else closeRounds name 8 b
  | [] => b

/-- A link inside a link ends the outer one. -/
def closeOuterLink (b : Builder) : Builder :=
  match b.recent.find? fun o => isNamed "a" o.element with
  | some o => ((b.closeFormat "a").forget o.label).removeOpen o.label
  | none => b

end BindingDocs.Html.Builder
