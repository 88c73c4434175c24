/-!
# What a page holds

The items of a page tree: the document, its type, elements, texts and comments.  Elements belong to
one of three vocabularies.

An item keeps what is asked for or written.  So a document type has its name only: its public and
system identifiers are never asked for, and they are not written.  There are no processing
instructions either, since a page is read as HTML, where they are comments.
-/

namespace BindingDocs.Page

/-- The vocabulary of an element. -/
inductive Space where
  | html
  | svg
  | mathml
deriving DecidableEq, Repr, Inhabited

/-- The vocabulary of an attribute. -/
inductive AttrSpace where
  | none
  | xlink
  | xml
  | xmlns
deriving DecidableEq, Repr, Inhabited

/-- An attribute of an element. -/
structure Attr where
  space : AttrSpace := .none
  name : String
  value : String
deriving DecidableEq, Repr, Inhabited

/-- An element without its children. -/
structure Element where
  space : Space := .html
  name : String
  attrs : List Attr := []
deriving DecidableEq, Repr, Inhabited

/-- What stands at a place of the tree. -/
inductive Item where
  /-- The page itself. -/
  | document
  /-- The contents of a template, which are not part of the page. -/
  | contents
  /-- The declaration of the document type. -/
  | doctype (name : String)
  | element (e : Element)
  | text (content : String)
  | comment (content : String)
deriving DecidableEq, Repr, Inhabited

namespace Item

/-- The element at this place, if there is one. -/
def element? : Item → Option Element
  | element e => some e
  | _ => none

/-- The text at this place, if there is one. -/
def text? : Item → Option String
  | text s => some s
  | _ => none

/-- Whether an element stands at this place. -/
def isElement (i : Item) : Bool := i.element?.isSome

end Item

end BindingDocs.Page
