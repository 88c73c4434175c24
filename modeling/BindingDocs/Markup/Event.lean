import BindingDocs.Markup.Reference

/-!
# Markup events

A page is read as a sequence of events: tags, texts and everything else.  The reading stops at the
first piece of markup that cannot be read, or at an end tag that does not match the innermost open
tag.  Positions count bytes.

## Main definitions

* `Event` — what the reader meets.
* `MarkupFault` — why it stops.
* `events` — the events of a page.
-/

namespace BindingDocs.Markup

open Text

/-- Why the reading of markup stops. -/
inductive MarkupFault where
  /-- An end tag with another name than the innermost open tag. -/
  | mismatched (expected found : String)
  /-- An end tag while no tag is open. -/
  | unmatched (name : String)
  | doctypeWithoutName
  | openTag
  | openComment
  | openCData
  | openInstruction
  | openDoctype
  | unknownMarkup
deriving DecidableEq, Repr

/-- The text of the fault. -/
def MarkupFault.message : MarkupFault → String
  | .mismatched expected found =>
    "ill-formed document: expected `</" ++ expected ++ ">`, but `</" ++ found ++ ">` was found"
  | .unmatched name =>
    "ill-formed document: close tag `</" ++ name ++ ">` does not match any open tag"
  | .doctypeWithoutName =>
    "ill-formed document: `<!DOCTYPE>` declaration does not contain a name of a document type"
  | .openTag => "syntax error: tag not closed: `>` not found before end of input"
  | .openComment => "syntax error: comment not closed: `-->` not found before end of input"
  | .openCData => "syntax error: CDATA not closed: `]]>` not found before end of input"
  | .openInstruction =>
    "syntax error: processing instruction or xml declaration not closed: `?>` not found before " ++
      "end of input"
  | .openDoctype => "syntax error: DOCTYPE not closed: `>` not found before end of input"
  | .unknownMarkup => "syntax error: unknown or missed symbol in markup"

/-- What the reader meets. -/
inductive Event where
  /-- A start tag. -/
  | start (name : List Char)
  /-- An end tag that matches the innermost open tag. -/
  | stop (name : List Char)
  /-- Text that begins at this position. -/
  | text (offset : Nat) (content : List Char)
  /-- A tag that closes itself, a comment, or another piece without consequences. -/
  | other
  /-- The end of the reading, with the position reached. -/
  | fault (offset : Nat) (cause : MarkupFault)
deriving DecidableEq, Repr

/-- The blanks that markup itself knows. -/
def isMarkupBlank (c : Char) : Bool := c == ' ' || c == '\t' || c == '\n' || c == '\r'

/-- Cuts at the first closing angle bracket that the condition accepts, given the reversal of what
stands before it. -/
def cutAt (ok : List Char → Bool) : (before : List Char) → List Char →
    Option (List Char × List Char)
  | _, [] => none
  | before, c :: s =>
    if c = '>' ∧ ok before then some (before.reverse, s) else cutAt ok (c :: before) s

/-- Cuts at the first closing angle bracket outside quotes. -/
def cutTag : (quote : Option Char) → (before : List Char) → List Char →
    Option (List Char × List Char)
  | _, _, [] => none
  | none, before, c :: s =>
    if c = '>' then some (before.reverse, s)
    else cutTag (if c = '"' ∨ c = Char.ofNat 39 then some c else none) (c :: before) s
  | some q, before, c :: s => cutTag (if c = q then none else some q) (c :: before) s

/-- Whether a text holds as many opening as closing angle brackets. -/
def isBalanced (s : List Char) : Bool := s.count '<' == s.count '>'

/-- What a piece of markup turns out to be: an event, or a fault. -/
abbrev Piece := Except MarkupFault Event

/-- A comment, a character data section or a document type.  The text stands after the opening
angle bracket; the result comes with what follows the piece, or with nothing if the piece has no
end. -/
def readDeclaration (s : List Char) : Piece × Option (List Char) :=
  match s with
  | '!' :: '-' :: _ =>
    match cutAt (fun b => b.length > 4 && beginsWith ['-', '-'] b) [] s with
    | some (body, rest) =>
      (if beginsWith "!--".toList body then .ok .other else .error .openComment, some rest)
    | none => (.error .openComment, none)
  | '!' :: '[' :: _ =>
    match cutAt (beginsWith [']', ']']) [] s with
    | some (body, rest) =>
      (if beginsWith "![CDATA[".toList body then .ok .other else .error .openCData, some rest)
    | none => (.error .openCData, none)
  | _ =>
    match cutAt isBalanced [] s with
    | some (body, rest) =>
      (if (body.take 8).map Char.toUpper = "!DOCTYPE".toList then
          if (body.drop 8).all isMarkupBlank then .error .doctypeWithoutName else .ok .other
        else .error .openDoctype, some rest)
    | none => (.error .openDoctype, none)

/-- Whether an exclamation mark begins a declaration. -/
def isDeclaration : List Char → Bool
  | '!' :: c :: _ => c == '-' || c == '[' || c == 'D' || c == 'd'
  | _ => false

/-- The name of an end tag, given what stands between the slash and the end: blanks after it do not
count. -/
def stopName (body : List Char) : List Char :=
  if body.all isMarkupBlank then body else trimEndBy isMarkupBlank body

/-- An end tag, given the names of the open tags. -/
def readStop (opened : List (List Char)) (name : List Char) : Piece :=
  match opened with
  | [] => .error (.unmatched (String.ofList name))
  | top :: _ =>
    if top = name then .ok (.stop name)
    else .error (.mismatched (String.ofList top) (String.ofList name))

/-- A start tag or a tag that closes itself, given what stands between the brackets. -/
def readStart (body : List Char) : Event :=
  if body.getLast? = some '/' then .other else .start (body.takeWhile (!isMarkupBlank ·))

/-- One piece of markup.  The text stands after the opening angle bracket. -/
def readMarkup (opened : List (List Char)) (s : List Char) : Piece × Option (List Char) :=
  match s with
  | '!' :: _ => readDeclaration s
  | '/' :: body =>
    match cutTag none [] body with
    | some (name, rest) => (readStop opened (stopName name), some rest)
    | none => (.error .openTag, none)
  | '?' :: _ =>
    match cutAt (beginsWith ['?']) [] s with
    | some (body, rest) =>
      (if body.length > 1 then .ok .other else .error .openInstruction, some rest)
    | none => (.error .openInstruction, none)
  | _ =>
    match cutTag none [] s with
    | some (body, rest) => (.ok (readStart body), some rest)
    | none => (.error .openTag, none)

/-- The open tags after an event. -/
def Event.track (opened : List (List Char)) : Event → List (List Char)
  | .start name => name :: opened
  | .stop _ => opened.tail
  | _ => opened

/-- The events of the text `s`, which stands at the end of a page of the given size; `fuel` bounds
the number of pieces. -/
def eventsFrom (total : Nat) : (fuel : Nat) → (opened : List (List Char)) → List Char → List Event
  | 0, _, _ => []
  | _ + 1, _, [] => []
  | fuel + 1, opened, '<' :: s =>
    if s.head? = some '!' ∧ isDeclaration s = false then
      [.fault (total - Text.size s) .unknownMarkup]
    else
      match readMarkup opened s with
      | (.ok event, some rest) => event :: eventsFrom total fuel (event.track opened) rest
      | (.ok event, none) => [event]
      | (.error cause, rest) => [.fault (total - Text.size (rest.getD [])) cause]
  | fuel + 1, opened, s =>
    .text (total - Text.size s) (s.takeWhile (· != '<')) ::
      eventsFrom total fuel opened (s.dropWhile (· != '<'))

/-- A page without the byte order mark it may begin with. -/
def withoutMark : List Char → List Char
  | [] => []
  | c :: s => if c.toNat = 0xFEFF then s else c :: s

/-- The events of a page. -/
def events (page : List Char) : List Event :=
  let s := withoutMark page
  eventsFrom (Text.size s) (s.length + 1) [] s

end BindingDocs.Markup
