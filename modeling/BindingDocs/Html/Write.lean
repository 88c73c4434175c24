import BindingDocs.Page.Basic

/-!
# Writing pages

A page is written as HTML: void elements have no end tag, texts are escaped except in elements that
hold raw text, and no-break spaces are written by name.

## Main definitions

* `escape` — a text or an attribute value, escaped.
* `write` — a forest as HTML.
* `Page.toHtml` — the document as HTML.
-/

namespace BindingDocs.Html

open Page (Forest Item Element Attr Space AttrSpace)

/-- Elements without contents. -/
def voidTags : List String :=
  ["area", "base", "basefont", "bgsound", "br", "col", "embed", "frame", "hr", "img", "input",
   "keygen", "link", "meta", "param", "source", "track", "wbr"]

/-- Elements whose texts are written as they are. -/
def rawTags : List String :=
  ["style", "script", "xmp", "iframe", "noembed", "noframes", "plaintext", "noscript"]

/-- Whether the element has no contents. -/
def isVoid (e : Element) : Bool := e.space == .html && voidTags.contains e.name

/-- Whether the texts of the element are written as they are. -/
def isRaw (e : Element) : Bool := e.space == .html && rawTags.contains e.name

/-- A character of a text, or of an attribute value, escaped. -/
def escapeChar (inAttr : Bool) (c : Char) : List Char :=
  if c = '&' then "&amp;".toList
  else if c.toNat = 0xA0 then "&nbsp;".toList
  else if c = '"' ∧ inAttr then "&quot;".toList
  else if c = '<' ∧ !inAttr then "&lt;".toList
  else if c = '>' ∧ !inAttr then "&gt;".toList
  else [c]

/-- A text, or an attribute value, escaped. -/
def escape (inAttr : Bool) (s : String) : String :=
  String.ofList (s.toList.flatMap (escapeChar inAttr))

/-- The vocabulary of an attribute as it is written. -/
def attrQualifier (a : Attr) : String :=
  match a.space with
  | .none => ""
  | .xml => "xml:"
  | .xmlns => if a.name = "xmlns" then "" else "xmlns:"
  | .xlink => "xlink:"

/-- An attribute with the space before it. -/
def writeAttr (a : Attr) : String :=
  " " ++ attrQualifier a ++ a.name ++ "=\"" ++ escape true a.value ++ "\""

/-- The start tag of an element. -/
def startTag (e : Element) : String := "<" ++ e.name ++ String.join (e.attrs.map writeAttr) ++ ">"

/-- The end tag of an element. -/
def endTag (e : Element) : String := "</" ++ e.name ++ ">"

/-- A forest as HTML.  Inside an element that holds raw text, texts are written as they are; inside
a void element the tags are left out. -/
def write (raw silent : Bool) : Forest → String
  | .nil => ""
  | .cons _ item below next =>
    let here := match item with
      | .element e =>
        let inner := write (isRaw e) (silent || isVoid e) below
        if silent then inner
        else if isVoid e then startTag e ++ inner
        else startTag e ++ inner ++ endTag e
      | .text s => if raw then s else escape false s
      | .comment s => "<!--" ++ s ++ "-->"
      | .doctype name => "<!DOCTYPE " ++ name ++ ">"
      | .document | .contents => ""
    here ++ write raw silent next

end BindingDocs.Html

/-- The document as HTML. -/
def BindingDocs.Page.toHtml (p : BindingDocs.Page) : String :=
  BindingDocs.Html.write false false p.document.below
