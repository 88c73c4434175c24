import BindingDocs.Page.Item

/-!
# Sets of elements

The rules of tree construction speak of kinds of elements: those that bound a search for an open
element, those whose end tag may be left out, and so on.
-/

namespace BindingDocs.Html

open Page (Element)

/-- Whether the element is one of the main vocabulary with one of these names. -/
def isOneOf (names : List String) (e : Element) : Bool := e.space == .html && names.contains e.name

/-- Whether the element is one of the main vocabulary with this name. -/
def isNamed (name : String) (e : Element) : Bool := e.space == .html && e.name == name

/-- Elements of formulas that hold ordinary text. -/
def isTextPoint (e : Element) : Bool :=
  e.space == .mathml && ["mi", "mo", "mn", "ms", "mtext"].contains e.name

/-- Elements of drawings that hold ordinary markup. -/
def isMarkupPoint (e : Element) : Bool :=
  e.space == .svg && ["foreignObject", "desc", "title"].contains e.name

/-- Whether an annotation of a formula says that it holds ordinary markup. -/
def isAnnotationPoint (e : Element) : Bool :=
  e.space == .mathml && e.name == "annotation-xml" &&
    e.attrs.any fun a => a.name == "encoding" &&
      ["text/html", "application/xhtml+xml"].contains (a.value.map Char.toLower)

/-- Where a search for an open element ends. -/
def defaultScope (e : Element) : Bool :=
  isOneOf ["applet", "caption", "html", "table", "td", "th", "marquee", "object", "template"] e ||
    isTextPoint e || isMarkupPoint e

/-- Where a search for an open list item ends. -/
def listItemScope (e : Element) : Bool := defaultScope e || isOneOf ["ol", "ul"] e

/-- Where a search for an open paragraph ends. -/
def buttonScope (e : Element) : Bool := defaultScope e || isNamed "button" e

/-- Where a search for a part of a table ends. -/
def tableScope (e : Element) : Bool := isOneOf ["html", "table", "template"] e

/-- Where a search for an open selection ends: at everything but its items. -/
def selectScope (e : Element) : Bool := !isOneOf ["optgroup", "option"] e

/-- What rows may stand in. -/
def tableBodyContext (e : Element) : Bool :=
  isOneOf ["tbody", "tfoot", "thead", "template", "html"] e

/-- What cells may stand in. -/
def tableRowContext (e : Element) : Bool := isOneOf ["tr", "template", "html"] e

/-- Elements whose end tag may be left out. -/
def impliedEnds : List String :=
  ["dd", "dt", "li", "option", "optgroup", "p", "rb", "rp", "rt", "rtc"]

/-- Elements whose end tag is supplied at the end of a template. -/
def thoroughEnds : List String :=
  impliedEnds ++ ["caption", "colgroup", "tbody", "td", "tfoot", "th", "thead", "tr"]

/-- Headings. -/
def headings : List String := ["h1", "h2", "h3", "h4", "h5", "h6"]

/-- Elements that end the search for the start of a misnested one. -/
def specials : List String :=
  ["address", "applet", "area", "article", "aside", "base", "basefont", "bgsound", "blockquote",
   "body", "br", "button", "caption", "center", "col", "colgroup", "dd", "details", "dir", "div",
   "dl", "dt", "embed", "fieldset", "figcaption", "figure", "footer", "form", "frame", "frameset",
   "h1", "h2", "h3", "h4", "h5", "h6", "head", "header", "hgroup", "hr", "html", "iframe", "img",
   "input", "isindex", "li", "link", "listing", "main", "marquee", "menu", "meta", "nav",
   "noembed", "noframes", "noscript", "object", "ol", "p", "param", "plaintext", "pre", "script",
   "section", "select", "source", "style", "summary", "table", "tbody", "td", "template",
   "textarea", "tfoot", "th", "thead", "title", "tr", "track", "ul", "wbr", "xmp"]

/-- Whether the element ends the search for the start of a misnested one. -/
def isSpecial (e : Element) : Bool := isOneOf specials e

/-- Elements of a table between which text does not belong. -/
def tableParts : List String := ["table", "tbody", "tfoot", "thead", "tr"]

/-- Elements that close an open paragraph and stand for themselves. -/
def blocks : List String :=
  ["address", "article", "aside", "blockquote", "center", "details", "dialog", "dir", "div", "dl",
   "fieldset", "figcaption", "figure", "footer", "header", "hgroup", "main", "menu", "nav", "ol",
   "p", "search", "section", "summary", "ul"]

/-- Elements that an end tag closes together with what is implied in them. -/
def blockEnds : List String :=
  ["address", "article", "aside", "blockquote", "button", "center", "details", "dialog", "dir",
   "div", "dl", "fieldset", "figcaption", "figure", "footer", "header", "hgroup", "listing", "main",
   "menu", "nav", "ol", "pre", "search", "section", "summary", "ul"]

/-- Elements that format text. -/
def formats : List String :=
  ["b", "big", "code", "em", "font", "i", "s", "small", "strike", "strong", "tt", "u"]

/-- Elements that belong to the head of a page wherever they stand. -/
def headTags : List String :=
  ["base", "basefont", "bgsound", "link", "meta", "noframes", "script", "style", "template", "title"]

/-- Elements that leave a drawing or a formula. -/
def breakouts : List String :=
  ["b", "big", "blockquote", "body", "br", "center", "code", "dd", "div", "dl", "dt", "em", "embed",
   "h1", "h2", "h3", "h4", "h5", "h6", "head", "hr", "i", "img", "li", "listing", "menu", "meta",
   "nobr", "ol", "p", "pre", "ruby", "s", "small", "span", "strong", "strike", "sub", "sup",
   "table", "tt", "u", "ul", "var"]

/-! ### Documents of an earlier age -/

/-- Public identifiers of documents that are laid out in the old way. -/
def oldPublicIds : List String :=
  ["-//w3o//dtd w3 html strict 3.0//en//", "-/w3c/dtd html 4.0 transitional/en", "html"]

/-- Beginnings of such public identifiers. -/
def oldPublicBeginnings : List String :=
  ["-//advasoft ltd//dtd html 3.0 aswedit + extensions//",
   "-//as//dtd html 3.0 aswedit + extensions//", "-//ietf//dtd html 2.0 level 1//",
   "-//ietf//dtd html 2.0 level 2//", "-//ietf//dtd html 2.0 strict level 1//",
   "-//ietf//dtd html 2.0 strict level 2//", "-//ietf//dtd html 2.0 strict//",
   "-//ietf//dtd html 2.0//", "-//ietf//dtd html 2.1e//", "-//ietf//dtd html 3.0//",
   "-//ietf//dtd html 3.2 final//", "-//ietf//dtd html 3.2//", "-//ietf//dtd html 3//",
   "-//ietf//dtd html level 0//", "-//ietf//dtd html level 1//", "-//ietf//dtd html level 2//",
   "-//ietf//dtd html level 3//", "-//ietf//dtd html strict level 0//",
   "-//ietf//dtd html strict level 1//", "-//ietf//dtd html strict level 2//",
   "-//ietf//dtd html strict level 3//", "-//ietf//dtd html strict//", "-//ietf//dtd html//",
   "-//metrius//dtd metrius presentational//",
   "-//microsoft//dtd internet explorer 2.0 html strict//",
   "-//microsoft//dtd internet explorer 2.0 html//",
   "-//microsoft//dtd internet explorer 2.0 tables//",
   "-//microsoft//dtd internet explorer 3.0 html strict//",
   "-//microsoft//dtd internet explorer 3.0 html//",
   "-//microsoft//dtd internet explorer 3.0 tables//", "-//netscape comm. corp.//dtd html//",
   "-//netscape comm. corp.//dtd strict html//", "-//o'reilly and associates//dtd html 2.0//",
   "-//o'reilly and associates//dtd html extended 1.0//",
   "-//o'reilly and associates//dtd html extended relaxed 1.0//",
   "-//softquad software//dtd hotmetal pro 6.0::19990601::extensions to html 4.0//",
   "-//softquad//dtd hotmetal pro 4.0::19971010::extensions to html 4.0//",
   "-//spyglass//dtd html 2.0 extended//", "-//sq//dtd html 2.0 hotmetal + extensions//",
   "-//sun microsystems corp.//dtd hotjava html//",
   "-//sun microsystems corp.//dtd hotjava strict html//", "-//w3c//dtd html 3 1995-03-24//",
   "-//w3c//dtd html 3.2 draft//", "-//w3c//dtd html 3.2 final//", "-//w3c//dtd html 3.2//",
   "-//w3c//dtd html 3.2s draft//", "-//w3c//dtd html 4.0 frameset//",
   "-//w3c//dtd html 4.0 transitional//", "-//w3c//dtd html experimental 19960712//",
   "-//w3c//dtd html experimental 970421//", "-//w3c//dtd w3 html//", "-//w3o//dtd w3 html 3.0//",
   "-//webtechs//dtd mozilla html 2.0//", "-//webtechs//dtd mozilla html//"]

/-- Beginnings of public identifiers that are laid out in the old way without a system
identifier. -/
def oldWithoutSystem : List String :=
  ["-//w3c//dtd html 4.01 frameset//", "-//w3c//dtd html 4.01 transitional//"]

/-- The system identifier of documents that are laid out in the old way. -/
def oldSystemId : String := "http://www.ibm.com/data/dtd/v11/ibmxhtml1-transitional.dtd"

/-! ### Names in drawings and formulas -/

/-- Elements of drawings whose names hold capitals. -/
def svgNames : List String :=
  ["altGlyph", "altGlyphDef", "altGlyphItem", "animateColor", "animateMotion", "animateTransform",
   "clipPath", "feBlend", "feColorMatrix", "feComponentTransfer", "feComposite",
   "feConvolveMatrix", "feDiffuseLighting", "feDisplacementMap", "feDistantLight", "feDropShadow",
   "feFlood", "feFuncA", "feFuncB", "feFuncG", "feFuncR", "feGaussianBlur", "feImage", "feMerge",
   "feMergeNode", "feMorphology", "feOffset", "fePointLight", "feSpecularLighting", "feSpotLight",
   "feTile", "feTurbulence", "foreignObject", "glyphRef", "linearGradient", "radialGradient",
   "textPath"]

/-- Attributes of drawings whose names hold capitals. -/
def svgAttrNames : List String :=
  ["attributeName", "attributeType", "baseFrequency", "baseProfile", "calcMode", "clipPathUnits",
   "diffuseConstant", "edgeMode", "filterUnits", "glyphRef", "gradientTransform", "gradientUnits",
   "kernelMatrix", "kernelUnitLength", "keyPoints", "keySplines", "keyTimes", "lengthAdjust",
   "limitingConeAngle", "markerHeight", "markerUnits", "markerWidth", "maskContentUnits",
   "maskUnits", "numOctaves", "pathLength", "patternContentUnits", "patternTransform",
   "patternUnits", "pointsAtX", "pointsAtY", "pointsAtZ", "preserveAlpha", "preserveAspectRatio",
   "primitiveUnits", "refX", "refY", "repeatCount", "repeatDur", "requiredExtensions",
   "requiredFeatures", "specularConstant", "specularExponent", "spreadMethod", "startOffset",
   "stdDeviation", "stitchTiles", "surfaceScale", "systemLanguage", "tableValues", "targetX",
   "targetY", "textLength", "viewBox", "viewTarget", "xChannelSelector", "yChannelSelector",
   "zoomAndPan"]

/-- Attributes of drawings and formulas that have a vocabulary of their own. -/
def qualifiedAttrs : List (String × Page.AttrSpace × String) :=
  [("xlink:actuate", .xlink, "actuate"), ("xlink:arcrole", .xlink, "arcrole"),
   ("xlink:href", .xlink, "href"), ("xlink:role", .xlink, "role"), ("xlink:show", .xlink, "show"),
   ("xlink:title", .xlink, "title"), ("xlink:type", .xlink, "type"), ("xml:lang", .xml, "lang"),
   ("xml:space", .xml, "space"), ("xmlns", .xmlns, "xmlns"), ("xmlns:xlink", .xmlns, "xlink")]

/-- The name of the list that differs from this one in capitals only, or this one. -/
def withCapitals (names : List String) (name : String) : String :=
  (names.find? fun n => n.map Char.toLower == name).getD name

end BindingDocs.Html
