import BindingDocs.Html.Formatting

/-!
# The rules of tree construction

Each mode has rules for every kind of token.  A rule changes the builder; then the token is done
with, or it is read again under another mode, or the text that follows is read in another way.

## Main definitions

* `Next` — what happens after a rule.
* `Builder.step` — the rule of a mode for a token.
* `Builder.foreignStep` — the rules inside drawings and formulas.
* `Builder.feed` — takes one token.
-/

namespace BindingDocs.Html

open Page (Element Attr Space)

/-- What happens after a rule. -/
inductive Next where
  /-- The token is done with. -/
  | done
  /-- The token is read under the mode that is now set. -/
  | again (t : Token)
  /-- The text that follows is read in this way. -/
  | content (c : Content)

/-- What a rule leads to. -/
abbrev Step := Builder × Next

namespace Builder

/-- The token is done with. -/
def ok (b : Builder) : Step := (b, .done)

/-- The token is read again under another mode. -/
def again (m : Mode) (t : Token) (b : Builder) : Step := ({ b with mode := m }, .again t)

/-- Goes on in another mode. -/
def enter (m : Mode) (b : Builder) : Step := ok { b with mode := m }

/-- Rules out that a frameset replaces the body. -/
def fixBody (b : Builder) : Builder := { b with framesetOk := false }

/-- Opens an element whose text is read in a special way. -/
def special (t : Tag) (c : Content) (b : Builder) : Step :=
  ({ b.insertTag t with after := b.mode, mode := .text }, .content c)

/-- The mode that fits the open elements, searched from the innermost on. -/
def modeFor (b : Builder) : List Open → Mode
  | [] => .inBody
  | o :: rest =>
    let last := rest.isEmpty
    if o.element.space != .html then b.modeFor rest
    else
      match o.element.name with
      | "select" =>
        match rest.find? fun o => isOneOf ["template", "table"] o.element with
        | some o => if o.element.name = "table" then .inSelectInTable else .inSelect
        | none => .inSelect
      | "td" | "th" => if last then b.modeFor rest else .inCell
      | "tr" => .inRow
      | "tbody" | "thead" | "tfoot" => .inTableBody
      | "caption" => .inCaption
      | "colgroup" => .inColumnGroup
      | "table" => .inTable
      | "template" => b.templates.headD .inBody
      | "head" => if last then b.modeFor rest else .inHead
      | "body" => .inBody
      | "frameset" => .inFrameset
      | "html" => if b.head.isNone then .beforeHead else .afterHead
      | _ => b.modeFor rest

/-- The mode that fits the open elements. -/
def fittingMode (b : Builder) : Mode := b.modeFor b.stack

/-! ### Head and templates -/

/-- Another start tag of the outermost element, which only adds attributes. -/
def htmlAgain (t : Tag) (b : Builder) : Step :=
  match b.stack.getLast? with
  | some o =>
    if b.hasOpen "template" then ok b else ok { b with page := b.page.addAttrs o.label t.attrs }
  | none => ok b

/-- The start of a template. -/
def templateStart (t : Tag) (b : Builder) : Step :=
  let b := b.addBorder.fixBody
  ok ({ b with mode := .inTemplate, templates := .inTemplate :: b.templates }.insertTag t)

/-- Closes the innermost template with everything in it. -/
def closeTemplate (b : Builder) : Builder :=
  let b := (b.popUntilNamed "template").clearToBorder
  let b := { b with templates := b.templates.tail }
  { b with mode := b.fittingMode }

/-- The end of a template. -/
def templateEnd (b : Builder) : Step :=
  if b.hasOpen "template" then ok (b.closeImplied thoroughEnds).closeTemplate else ok b

/-- The head of the page. -/
def inHead (t : Token) (b : Builder) : Step :=
  let leave : Step := b.pop.again .afterHead t
  match t with
  | .blank s => ok (b.insertText s)
  | .comment s => ok (b.insertComment s)
  | .startTag tag =>
    match tag.name with
    | "html" => b.htmlAgain tag
    | "base" | "basefont" | "bgsound" | "link" | "meta" => ok (b.insertClosed (ofTag tag))
    | "title" => b.special tag .escapable
    | "noframes" | "style" | "noscript" => b.special tag .raw
    | "script" => b.special tag .script
    | "template" => b.templateStart tag
    | "head" => ok b
    | _ => leave
  | .endTag name =>
    match name with
    | "head" => b.pop.enter .afterHead
    | "body" | "html" | "br" => leave
    | "template" => b.templateEnd
    | _ => ok b
  | _ => leave

/-- The end of the text inside templates. -/
def templateEof (t : Token) (b : Builder) : Step :=
  if b.hasOpen "template" then
    let b := b.closeTemplate
    b.again b.fittingMode t
  else ok b

/-! ### Body -/

/-- Whether a tag stands for an input that is not shown. -/
def isHidden (t : Tag) : Bool :=
  ((t.attrs.find? (·.name == "type")).any fun a => a.value.map Char.toLower == "hidden")

/-- The attributes of an element outside the main vocabulary. -/
def adjustAttrs (space : Space) (attrs : List Attr) : List Attr :=
  attrs.map fun a =>
    let name := match space with
      | .svg => withCapitals svgAttrNames a.name
      | .mathml => if a.name = "definitionurl" then "definitionURL" else a.name
      | .html => a.name
    match qualifiedAttrs.lookup name with
    | some (space, name) => { a with space, name }
    | none => { a with name }

/-- Puts an element of another vocabulary at its place, and opens it unless it closes itself. -/
def insertForeign (space : Space) (name : String) (t : Tag) (b : Builder) : Step :=
  let e : Element := { space, name, attrs := adjustAttrs space t.attrs }
  if t.selfClosing then ok (b.insertClosed e) else ok (b.insertElement e)

/-- Closes the list item or definition that a new one follows. -/
def closeItem (names : List String) (b : Builder) : Builder :=
  go b.stack
where
  /-- Searches the open elements from the innermost on. -/
  go : List Open → Builder
    | [] => b
    | o :: rest =>
      if isOneOf names o.element then
        (b.closeImpliedExcept o.element.name).popUntilNamed o.element.name
      else if isSpecial o.element && !isOneOf ["address", "div", "p"] o.element then b
      else go rest

/-- The body of the page, which is the second element opened. -/
def body? (b : Builder) : Option Open :=
  match b.stack.reverse with
  | _ :: o :: _ => if isNamed "body" o.element then some o else none
  | _ => none

/-- A line break, an image or another element without contents. -/
def insertVoid (t : Tag) (b : Builder) : Builder := b.reopen.insertClosed (ofTag t)

/-- Start tags in the body that have rules of their own. -/
def bodyStartRule (t : Tag) (b : Builder) : Option Step :=
  match t.name with
  | "html" => some (b.htmlAgain t)
  | "body" =>
    match b.body? with
    | some o =>
      if b.hasOpen "template" then some (ok b)
      else some (ok { b.fixBody with page := b.page.addAttrs o.label t.attrs })
    | none => some (ok b)
  | "frameset" =>
    match b.body? with
    | some o =>
      if b.framesetOk then
        let b := { b with page := b.page.detach o.label, stack := b.stack.drop (b.stack.length - 1) }
        some ((b.insertTag t).enter .inFrameset)
      else some (ok b)
    | none => some (ok b)
  | "pre" | "listing" =>
    some (ok { (b.closeParagraphInScope.insertTag t).fixBody with skipNewline := true })
  | "form" =>
    if b.form.isSome && !b.hasOpen "template" then some (ok b)
    else
      let b := b.closeParagraphInScope
      let l := b.page.next
      let b := b.insertTag t
      some (ok (if b.hasOpen "template" then b else { b with form := some l }))
  | "li" => some (ok ((b.fixBody.closeItem ["li"]).closeParagraphInScope.insertTag t))
  | "dd" | "dt" => some (ok ((b.fixBody.closeItem ["dd", "dt"]).closeParagraphInScope.insertTag t))
  | "plaintext" => some (b.closeParagraphInScope.insertTag t, .content .plain)
  | "button" =>
    let b :=
      if b.hasInScope defaultScope "button" then (b.closeImplied impliedEnds).popUntilNamed "button"
      else b
    some (ok (b.reopen.insertTag t).fixBody)
  | "a" => some (ok (b.closeOuterLink.reopen.openFormat (ofTag t)))
  | "nobr" =>
    let b := b.reopen
    let b := if b.hasInScope defaultScope "nobr" then (b.closeFormat "nobr").reopen else b
    some (ok (b.openFormat (ofTag t)))
  | "applet" | "marquee" | "object" => some (ok (b.reopen.insertTag t).addBorder.fixBody)
  | "table" =>
    let b := if b.oldLayout then b else b.closeParagraphInScope
    some ((b.insertTag t).fixBody.enter .inTable)
  | "area" | "br" | "embed" | "img" | "keygen" | "wbr" => some (ok (b.insertVoid t).fixBody)
  | "input" =>
    let b := b.insertVoid t
    some (ok (if isHidden t then b else b.fixBody))
  | "param" | "source" | "track" => some (ok (b.insertClosed (ofTag t)))
  | "hr" => some (ok (b.closeParagraphInScope.insertClosed (ofTag t)).fixBody)
  | "image" => some (ok (b.insertVoid { t with name := "img" }).fixBody)
  | "textarea" => some ({ b.fixBody with skipNewline := true }.special t .escapable)
  | "xmp" => some (b.closeParagraphInScope.reopen.fixBody.special t .raw)
  | "iframe" => some (b.fixBody.special t .raw)
  | "noembed" | "noscript" => some (b.special t .raw)
  | "select" =>
    let inTable := [Mode.inTable, .inCaption, .inTableBody, .inRow, .inCell].contains b.mode
    some ((b.reopen.insertTag t).fixBody.enter (if inTable then .inSelectInTable else .inSelect))
  | "optgroup" | "option" =>
    let b := if b.currentNamed "option" then b.pop else b
    some (ok (b.reopen.insertTag t))
  | "rb" | "rtc" =>
    let b := if b.hasInScope defaultScope "ruby" then b.closeImplied impliedEnds else b
    some (ok (b.insertTag t))
  | "rp" | "rt" =>
    let b := if b.hasInScope defaultScope "ruby" then b.closeImpliedExcept "rtc" else b
    some (ok (b.insertTag t))
  | "math" => some (b.reopen.insertForeign .mathml "math" t)
  | "svg" => some (b.reopen.insertForeign .svg "svg" t)
  | "caption" | "col" | "colgroup" | "frame" | "head" | "tbody" | "td" | "tfoot" | "th" | "thead"
  | "tr" => some (ok b)
  | _ => none

/-- A start tag in the body. -/
def bodyStart (t : Tag) (b : Builder) : Step :=
  if headTags.contains t.name then b.inHead (.startTag t)
  else if blocks.contains t.name then ok (b.closeParagraphInScope.insertTag t)
  else if headings.contains t.name then
    let b := b.closeParagraphInScope
    let b := if b.currentIs (isOneOf headings) then b.pop else b
    ok (b.insertTag t)
  else if formats.contains t.name then ok (b.reopen.openFormat (ofTag t))
  else (b.bodyStartRule t).getD (ok (b.reopen.insertTag t))

/-- The end tag of a form. -/
def formEnd (b : Builder) : Builder :=
  if b.hasOpen "template" then
    if b.hasInScope defaultScope "form" then (b.closeImplied impliedEnds).popUntilNamed "form" else b
  else
    match b.form with
    | none => b
    | some l =>
      let b := { b with form := none }
      if b.inScope defaultScope (·.label == l) then (b.closeImplied impliedEnds).removeOpen l else b

/-- An end tag in the body. -/
def bodyEnd (name : String) (b : Builder) : Step :=
  if name = "template" then b.templateEnd
  else if blockEnds.contains name then
    if b.hasInScope defaultScope name then
      ok ((b.closeImplied impliedEnds).popUntilNamed name)
    else ok b
  else if headings.contains name then
    if b.inScope defaultScope fun o => isOneOf headings o.element then
      ok ((b.closeImplied impliedEnds).popUntil (isOneOf headings))
    else ok b
  else if formats.contains name || name = "a" || name = "nobr" then ok (b.closeFormat name)
  else
    match name with
    | "body" => if b.hasInScope defaultScope "body" then b.enter .afterBody else ok b
    | "html" =>
      if b.hasInScope defaultScope "body" then b.again .afterBody (.endTag name) else ok b
    | "form" => ok b.formEnd
    | "p" =>
      let b := if b.hasInScope buttonScope "p" then b else b.insertPhantom "p"
      ok b.closeParagraph
    | "li" =>
      if b.hasInScope listItemScope name then ok ((b.closeImpliedExcept name).popUntilNamed name)
      else ok b
    | "dd" | "dt" =>
      if b.hasInScope defaultScope name then ok ((b.closeImpliedExcept name).popUntilNamed name)
      else ok b
    | "applet" | "marquee" | "object" =>
      if b.hasInScope defaultScope name then
        ok ((b.closeImplied impliedEnds).popUntilNamed name).clearToBorder
      else ok b
    | "br" => ok (b.insertVoid { name }).fixBody
    | _ => ok (b.closeAny name)

/-- The body of the page. -/
def inBody (t : Token) (b : Builder) : Step :=
  match t with
  | .blank s => ok (b.reopen.insertText s)
  | .text s => ok (b.reopen.fixBody.insertText s)
  | .comment s => ok (b.insertComment s)
  | .startTag tag => b.bodyStart tag
  | .endTag name => b.bodyEnd name
  | .eof => if b.templates.isEmpty then ok b else b.templateEof t
  | .null | .doctype _ => ok b

/-! ### Before and after the body -/

/-- Nothing read yet. -/
def initial (t : Token) (b : Builder) : Step :=
  match t with
  | .blank _ => ok b
  | .comment s => ok { b with page := b.page.appendItem Page.root (.comment s) }
  | _ => { b with oldLayout := true }.again .beforeHtml t

/-- Before the outermost element. -/
def beforeHtml (t : Token) (b : Builder) : Step :=
  let supply : Step := (b.createRoot []).again .beforeHead t
  match t with
  | .blank _ => ok b
  | .comment s => ok { b with page := b.page.appendItem Page.root (.comment s) }
  | .startTag tag =>
    if tag.name = "html" then (b.createRoot tag.attrs).enter .beforeHead else supply
  | .endTag name => if ["head", "body", "html", "br"].contains name then supply else ok b
  | _ => supply

/-- Opens the head and remembers it. -/
def openHead (t : Tag) (b : Builder) : Builder :=
  let l := b.page.next
  { b.insertTag t with head := some l }

/-- Before the head. -/
def beforeHead (t : Token) (b : Builder) : Step :=
  let supply : Step := (b.openHead { name := "head" }).again .inHead t
  match t with
  | .blank _ => ok b
  | .comment s => ok (b.insertComment s)
  | .startTag tag =>
    match tag.name with
    | "html" => b.htmlAgain tag
    | "head" => (b.openHead tag).enter .inHead
    | _ => supply
  | .endTag name => if ["head", "body", "html", "br"].contains name then supply else ok b
  | _ => supply

/-- After the head. -/
def afterHead (t : Token) (b : Builder) : Step :=
  let supply : Step := (b.insertPhantom "body").again .inBody t
  match t with
  | .blank s => ok (b.insertText s)
  | .comment s => ok (b.insertComment s)
  | .startTag tag =>
    match tag.name with
    | "html" => b.htmlAgain tag
    | "body" => (b.insertTag tag).fixBody.enter .inBody
    | "frameset" => (b.insertTag tag).enter .inFrameset
    | "head" => ok b
    | _ =>
      if headTags.contains tag.name then
        match b.head with
        | some l =>
          let (b, next) := { b with stack := ⟨l, { name := "head" }⟩ :: b.stack }.inHead t
          (b.removeOpen l, next)
        | none => ok b
      else supply
  | .endTag name =>
    match name with
    | "template" => b.templateEnd
    | "body" | "html" | "br" => supply
    | _ => ok b
  | _ => supply

/-- After the body. -/
def afterBody (t : Token) (b : Builder) : Step :=
  match t with
  | .blank _ => b.inBody t
  | .comment s =>
    ok { b with page :=
      b.page.appendItem ((b.stack.getLast?.map (·.label)).getD Page.root) (.comment s) }
  | .startTag tag => if tag.name = "html" then b.htmlAgain tag else b.again .inBody t
  | .endTag name => if name = "html" then b.enter .afterAfterBody else b.again .inBody t
  | .eof => ok b
  | _ => b.again .inBody t

/-- After the outermost element. -/
def afterAfterBody (t : Token) (b : Builder) : Step :=
  match t with
  | .blank _ => b.inBody t
  | .comment s => ok { b with page := b.page.appendItem Page.root (.comment s) }
  | .startTag tag => if tag.name = "html" then b.htmlAgain tag else b.again .inBody t
  | .eof => ok b
  | _ => b.again .inBody t

/-! ### Framesets -/

/-- Inside a frameset. -/
def inFrameset (t : Token) (b : Builder) : Step :=
  match t with
  | .blank s => ok (b.insertText s)
  | .comment s => ok (b.insertComment s)
  | .startTag tag =>
    match tag.name with
    | "html" => b.htmlAgain tag
    | "frameset" => ok (b.insertTag tag)
    | "frame" => ok (b.insertClosed (ofTag tag))
    | "noframes" => b.inHead t
    | _ => ok b
  | .endTag name =>
    if name = "frameset" && b.stack.length > 1 then
      let b := b.pop
      if b.currentNamed "frameset" then ok b else b.enter .afterFrameset
    else ok b
  | _ => ok b

/-- After a frameset. -/
def afterFrameset (t : Token) (b : Builder) : Step :=
  match t with
  | .blank s => ok (b.insertText s)
  | .comment s => ok (b.insertComment s)
  | .startTag tag =>
    match tag.name with
    | "html" => b.htmlAgain tag
    | "noframes" => b.inHead t
    | _ => ok b
  | .endTag name => if name = "html" then b.enter .afterAfterFrameset else ok b
  | _ => ok b

/-- After the outermost element of a page with a frameset. -/
def afterAfterFrameset (t : Token) (b : Builder) : Step :=
  match t with
  | .blank _ => b.inBody t
  | .comment s => ok { b with page := b.page.appendItem Page.root (.comment s) }
  | .startTag tag =>
    match tag.name with
    | "html" => b.htmlAgain tag
    | "noframes" => b.inHead t
    | _ => ok b
  | _ => ok b

/-! ### Raw text -/

/-- The text of a special element. -/
def inText (t : Token) (b : Builder) : Step :=
  match t with
  | .blank s | .text s => ok (b.insertText s)
  | .endTag _ => b.pop.enter b.after
  | .eof => b.pop.again b.after t
  | _ => ok b

/-! ### Tables -/

/-- Reads a token by the rules of the body, with its nodes kept out of the table. -/
def outsideTable (t : Token) (b : Builder) : Step :=
  let (b, next) := { b with foster := true }.inBody t
  ({ b with foster := false }, next)

/-- Parts of a table that its other parts cannot stand in. -/
def tableOuter : List String := ["caption", "col", "colgroup", "tbody", "tfoot", "thead"]

/-- Directly inside a table. -/
def inTable (t : Token) (b : Builder) : Step :=
  let clear := b.popUntilCurrent tableScope
  match t with
  | .null | .blank _ | .text _ =>
    if b.currentIs (isOneOf tableParts) then { b with after := b.mode }.again .inTableText t
    else b.outsideTable t
  | .comment s => ok (b.insertComment s)
  | .startTag tag =>
    match tag.name with
    | "caption" => (clear.addBorder.insertTag tag).enter .inCaption
    | "colgroup" => (clear.insertTag tag).enter .inColumnGroup
    | "col" => (clear.insertPhantom "colgroup").again .inColumnGroup t
    | "tbody" | "tfoot" | "thead" => (clear.insertTag tag).enter .inTableBody
    | "td" | "th" | "tr" => (clear.insertPhantom "tbody").again .inTableBody t
    | "table" =>
      if b.hasInScope tableScope "table" then
        let b := b.popUntilNamed "table"
        b.again b.fittingMode t
      else ok b
    | "style" | "script" | "template" => b.inHead t
    | "input" => if isHidden tag then ok (b.insertClosed (ofTag tag)) else b.outsideTable t
    | "form" =>
      if b.hasOpen "template" || b.form.isSome then ok b
      else
        let l := b.page.next
        ok { b.insertClosed (ofTag tag) with form := some l }
    | _ => b.outsideTable t
  | .endTag name =>
    match name with
    | "table" =>
      if b.hasInScope tableScope "table" then
        let b := b.popUntilNamed "table"
        b.enter b.fittingMode
      else ok b
    | "template" => b.templateEnd
    | "body" | "caption" | "col" | "colgroup" | "html" | "tbody" | "td" | "tfoot" | "th" | "thead"
    | "tr" => ok b
    | _ => b.outsideTable t
  | .eof => b.inBody t
  | .doctype _ => ok b

/-- Puts the text met in a table where it belongs: blanks into the table, anything else in front
of it. -/
def flushTableText (b : Builder) : Builder :=
  let pending := b.tableText
  let b := { b with tableText := [] }
  let isText : Token → Bool
    | .text _ => true
    | _ => false
  if pending.any isText then pending.foldl (fun b t => (b.outsideTable t).1) b
  else
    pending.foldl (fun b t =>
      match t with
      | .blank s | .text s => b.insertText s
      | _ => b) b

/-- Text between the parts of a table. -/
def inTableText (t : Token) (b : Builder) : Step :=
  match t with
  | .null => ok b
  | .blank _ | .text _ => ok { b with tableText := b.tableText ++ [t] }
  | _ =>
    let b := b.flushTableText
    b.again b.after t

/-- A table caption. -/
def inCaption (t : Token) (b : Builder) : Step :=
  let closed := ((b.closeImplied impliedEnds).popUntilNamed "caption").clearToBorder
  let isIn := b.hasInScope tableScope "caption"
  match t with
  | .startTag tag =>
    if (tableOuter ++ ["td", "th", "tr"]).contains tag.name then
      if isIn then closed.again .inTable t else ok b
    else b.inBody t
  | .endTag name =>
    match name with
    | "caption" => if isIn then closed.enter .inTable else ok b
    | "table" => if isIn then closed.again .inTable t else ok b
    | "body" | "col" | "colgroup" | "html" | "tbody" | "td" | "tfoot" | "th" | "thead" | "tr" => ok b
    | _ => b.inBody t
  | _ => b.inBody t

/-- A group of table columns. -/
def inColumnGroup (t : Token) (b : Builder) : Step :=
  let leave : Step := if b.currentNamed "colgroup" then b.pop.again .inTable t else ok b
  match t with
  | .blank s => ok (b.insertText s)
  | .comment s => ok (b.insertComment s)
  | .startTag tag =>
    match tag.name with
    | "html" => b.htmlAgain tag
    | "col" => ok (b.insertClosed (ofTag tag))
    | "template" => b.templateStart tag
    | _ => leave
  | .endTag name =>
    match name with
    | "colgroup" => if b.currentNamed "colgroup" then b.pop.enter .inTable else ok b
    | "col" => ok b
    | "template" => b.templateEnd
    | _ => leave
  | .eof => b.inBody t
  | _ => leave

/-- A group of table rows. -/
def inTableBody (t : Token) (b : Builder) : Step :=
  let clear := b.popUntilCurrent tableBodyContext
  let leave : Step :=
    if b.inScope tableScope fun o => isOneOf ["table", "tbody", "tfoot"] o.element then
      clear.pop.again .inTable t
    else ok b
  match t with
  | .startTag tag =>
    match tag.name with
    | "tr" => (clear.insertTag tag).enter .inRow
    | "th" | "td" => (clear.insertPhantom "tr").again .inRow t
    | _ => if tableOuter.contains tag.name then leave else b.inTable t
  | .endTag name =>
    match name with
    | "tbody" | "tfoot" | "thead" =>
      if b.hasInScope tableScope name then clear.pop.enter .inTable else ok b
    | "table" => leave
    | "body" | "caption" | "col" | "colgroup" | "html" | "td" | "th" | "tr" => ok b
    | _ => b.inTable t
  | _ => b.inTable t

/-- A table row. -/
def inRow (t : Token) (b : Builder) : Step :=
  let clear := b.popUntilCurrent tableRowContext
  let leave : Step :=
    if b.hasInScope tableScope "tr" then clear.pop.again .inTableBody t else ok b
  match t with
  | .startTag tag =>
    match tag.name with
    | "th" | "td" => (clear.insertTag tag).addBorder.enter .inCell
    | "tr" => leave
    | _ => if tableOuter.contains tag.name then leave else b.inTable t
  | .endTag name =>
    match name with
    | "tr" => if b.hasInScope tableScope "tr" then clear.pop.enter .inTableBody else ok b
    | "table" => leave
    | "tbody" | "tfoot" | "thead" => if b.hasInScope tableScope name then leave else ok b
    | "body" | "caption" | "col" | "colgroup" | "html" | "td" | "th" => ok b
    | _ => b.inTable t
  | _ => b.inTable t

/-- Closes the table cell. -/
def closeCell (b : Builder) : Builder :=
  ((b.closeImplied impliedEnds).popUntil (isOneOf ["td", "th"])).clearToBorder

/-- A table cell. -/
def inCell (t : Token) (b : Builder) : Step :=
  match t with
  | .startTag tag =>
    if (tableOuter ++ ["td", "th", "tr"]).contains tag.name then
      if b.inScope tableScope fun o => isOneOf ["td", "th"] o.element then
        b.closeCell.again .inRow t
      else ok b
    else b.inBody t
  | .endTag name =>
    match name with
    | "td" | "th" =>
      if b.hasInScope tableScope name then
        ((b.closeImplied impliedEnds).popUntilNamed name).clearToBorder.enter .inRow
      else ok b
    | "body" | "caption" | "col" | "colgroup" | "html" => ok b
    | "table" | "tbody" | "tfoot" | "thead" | "tr" =>
      if b.hasInScope tableScope name then b.closeCell.again .inRow t else ok b
    | _ => b.inBody t
  | _ => b.inBody t

/-! ### Selections -/

/-- Closes the innermost element if it has this name. -/
def popIf (name : String) (b : Builder) : Builder := if b.currentNamed name then b.pop else b

/-- A selection. -/
def inSelect (t : Token) (b : Builder) : Step :=
  let isIn := b.hasInScope selectScope "select"
  let closed := b.popUntilNamed "select"
  match t with
  | .blank s | .text s => ok (b.insertText s)
  | .comment s => ok (b.insertComment s)
  | .startTag tag =>
    match tag.name with
    | "html" => b.htmlAgain tag
    | "option" => ok ((b.popIf "option").insertTag tag)
    | "optgroup" => ok (((b.popIf "option").popIf "optgroup").insertTag tag)
    | "hr" => ok (((b.popIf "option").popIf "optgroup").insertClosed (ofTag tag))
    | "select" => if isIn then closed.enter closed.fittingMode else ok b
    | "input" | "keygen" | "textarea" => if isIn then closed.again closed.fittingMode t else ok b
    | "script" => b.inHead t
    | "template" => b.templateStart tag
    | _ => ok b
  | .endTag name =>
    match name with
    | "optgroup" =>
      let b := match b.stack with
        | o :: g :: _ =>
          if isNamed "option" o.element && isNamed "optgroup" g.element then b.pop else b
        | _ => b
      ok (b.popIf "optgroup")
    | "option" => ok (b.popIf "option")
    | "select" => if isIn then closed.enter closed.fittingMode else ok b
    | "template" => b.templateEnd
    | _ => ok b
  | .eof => b.inBody t
  | .null | .doctype _ => ok b

/-- A selection inside a table. -/
def inSelectInTable (t : Token) (b : Builder) : Step :=
  let names := ["caption", "table", "tbody", "tfoot", "thead", "tr", "td", "th"]
  let closed := b.popUntilNamed "select"
  match t with
  | .startTag tag =>
    if names.contains tag.name then closed.again closed.fittingMode t else b.inSelect t
  | .endTag name =>
    if names.contains name then
      if b.hasInScope tableScope name then closed.again closed.fittingMode t else ok b
    else b.inSelect t
  | _ => b.inSelect t

/-! ### Templates -/

/-- Goes on in a template as if it held what stands in this mode. -/
def becomes (m : Mode) (t : Token) (b : Builder) : Step :=
  { b with templates := m :: b.templates.tail }.again m t

/-- The contents of a template. -/
def inTemplate (t : Token) (b : Builder) : Step :=
  match t with
  | .blank _ | .text _ | .comment _ => b.inBody t
  | .startTag tag =>
    if headTags.contains tag.name then b.inHead t
    else
      match tag.name with
      | "caption" | "colgroup" | "tbody" | "tfoot" | "thead" => b.becomes .inTable t
      | "col" => b.becomes .inColumnGroup t
      | "tr" => b.becomes .inTableBody t
      | "td" | "th" => b.becomes .inRow t
      | _ => b.becomes .inBody t
  | .endTag name => if name = "template" then b.templateEnd else ok b
  | .eof => b.templateEof t
  | .null | .doctype _ => ok b

/-- The rule of a mode for a token. -/
def step : Mode → Token → Builder → Step
  | .initial => initial
  | .beforeHtml => beforeHtml
  | .beforeHead => beforeHead
  | .inHead => inHead
  | .afterHead => afterHead
  | .inBody => inBody
  | .text => inText
  | .inTable => inTable
  | .inTableText => inTableText
  | .inCaption => inCaption
  | .inColumnGroup => inColumnGroup
  | .inTableBody => inTableBody
  | .inRow => inRow
  | .inCell => inCell
  | .inSelect => inSelect
  | .inSelectInTable => inSelectInTable
  | .inTemplate => inTemplate
  | .afterBody => afterBody
  | .inFrameset => inFrameset
  | .afterFrameset => afterFrameset
  | .afterAfterBody => afterAfterBody
  | .afterAfterFrameset => afterAfterFrameset

/-! ### Drawings and formulas -/

/-- Whether a token is read by the rules for drawings and formulas. -/
def isForeign (t : Token) (b : Builder) : Bool :=
  match b.current? with
  | none => false
  | some e =>
    if e.space == .html then false
    else
      match t with
      | .eof => false
      | .startTag tag =>
        !((isTextPoint e && tag.name != "mglyph" && tag.name != "malignmark") || isMarkupPoint e ||
          (e.space == .mathml && e.name == "annotation-xml" && tag.name == "svg") ||
          isAnnotationPoint e)
      | .blank _ | .text _ | .null => !(isTextPoint e || isMarkupPoint e || isAnnotationPoint e)
      | _ => true

/-- Leaves the drawing or formula, and reads the token by the rules of the mode. -/
def breakOut (t : Token) (b : Builder) : Step :=
  let b := b.popUntilCurrent fun e => e.space == .html || isTextPoint e || isMarkupPoint e
  b.step b.mode t

/-- A start tag in a drawing or a formula. -/
def foreignStart (t : Tag) (b : Builder) : Step :=
  let leaves := breakouts.contains t.name ||
    (t.name == "font" && t.attrs.any fun a => ["color", "face", "size"].contains a.name)
  if leaves then b.breakOut (.startTag t)
  else
    match b.current? with
    | some e =>
      let name := if e.space == .svg then withCapitals svgNames t.name else t.name
      b.insertForeign e.space name t
    | none => ok b

/-- An end tag in a drawing or a formula: closes the element of this name, unless an element of the
main vocabulary lies between. -/
def foreignEnd (name : String) (b : Builder) : (first : Bool) → List Open → Step
  | _, [] => ok b
  | _, [_] => ok b
  | first, o :: rest =>
    if !first && o.element.space == .html then b.step b.mode (.endTag name)
    else if o.element.name.map Char.toLower == name then ok { b with stack := rest }
    else foreignEnd name b false rest

/-- The rules inside drawings and formulas. -/
def foreignStep (t : Token) (b : Builder) : Step :=
  match t with
  | .null => ok (b.insertText (String.ofList [replacement]))
  | .blank s => ok (b.insertText s)
  | .text s => ok (b.fixBody.insertText s)
  | .comment s => ok (b.insertComment s)
  | .startTag tag => b.foreignStart tag
  | .endTag name =>
    if name = "br" || name = "p" then b.breakOut t else b.foreignEnd name true b.stack
  | .doctype _ | .eof => ok b

/-! ### Tokens -/

/-- Reads a token until it is done with; `fuel` bounds how often it is read again. -/
def settle : (fuel : Nat) → Token → Builder → Builder × Option Content
  | 0, _, b => (b, none)
  | fuel + 1, t, b =>
    match if b.isForeign t then b.foreignStep t else b.step b.mode t with
    | (b, .done) => (b, none)
    | (b, .again t) => settle fuel t b
    | (b, .content c) => (b, some c)

/-- Whether a declaration asks for the old layout. -/
def isOld (d : Doctype) : Bool :=
  let begins (s : String) (w : String) : Bool := Text.beginsWith w.toList s.toList
  let publicId := d.publicId.map fun s => s.map Char.toLower
  let systemId := d.systemId.map fun s => s.map Char.toLower
  d.broken || d.name != some "html" || publicId.any oldPublicIds.contains ||
    systemId == some oldSystemId || (publicId.any fun s => oldPublicBeginnings.any (begins s)) ||
    (systemId.isNone && publicId.any fun s => oldWithoutSystem.any (begins s))

/-- The declaration of the document type, which counts only at the beginning. -/
def declare (d : Doctype) (b : Builder) : Builder :=
  if b.mode = .initial then
    { b with
      page := b.page.appendItem Page.root (.doctype (d.name.getD ""))
      oldLayout := isOld d
      mode := .beforeHtml }
  else b

/-- The run of characters without the newline that is left out. -/
def dropNewline (skip : Bool) (s : String) : String :=
  match s.toList with
  | '\n' :: rest => if skip then String.ofList rest else s
  | _ => s

/-- Takes one token.  Returns how the text that follows is read, if that changes. -/
def feed (t : Token) (b : Builder) : Builder × Option Content :=
  let skip := b.skipNewline
  let b := { b with skipNewline := false }
  let fuel := 4 * b.stack.length + 32
  match t with
  | .doctype d => (b.declare d, none)
  | .blank s =>
    let s := dropNewline skip s
    if s = "" then (b, none) else b.settle fuel (.blank s)
  | .text s =>
    let s := dropNewline skip s
    if s = "" then (b, none) else b.settle fuel (.text s)
  | _ => b.settle fuel t

end Builder

end BindingDocs.Html
