import BindingDocs.Html.Reference
import BindingDocs.Page.Item

/-!
# Tokens

A page is read token by token.  How a text is read depends on where it stands: inside some elements
only the matching end tag is markup.

## Main definitions

* `Token` — tags, comments, document types and runs of characters.
* `Content` — how the text of the innermost element is read.
* `tokens` — the tokens at the beginning of a text, and what follows them.
-/

namespace BindingDocs.Html

open Text
open Page (Attr)

/-- A start tag or an end tag. -/
structure Tag where
  name : String
  attrs : List Attr := []
  selfClosing : Bool := false
deriving DecidableEq, Repr, Inhabited

/-- A declaration of the document type. -/
structure Doctype where
  name : Option String := none
  publicId : Option String := none
  systemId : Option String := none
  /-- Whether the declaration is broken. -/
  broken : Bool := false
deriving DecidableEq, Repr, Inhabited

/-- What the reading of a page yields. -/
inductive Token where
  | doctype (d : Doctype)
  | startTag (t : Tag)
  | endTag (name : String)
  | comment (text : String)
  /-- A run of blanks. -/
  | blank (text : String)
  /-- A run of other characters. -/
  | text (text : String)
  /-- The character U+0000. -/
  | null
  | eof
deriving DecidableEq, Repr, Inhabited

/-- How the text of an element is read. -/
inductive Content where
  /-- Markup and references. -/
  | data
  /-- References, and only the matching end tag. -/
  | escapable
  /-- Only the matching end tag. -/
  | raw
  /-- As `raw`, except that comments can hide end tags. -/
  | script
  /-- No markup at all. -/
  | plain
deriving DecidableEq, Repr, Inhabited

/-- The blanks of the language. -/
def isTagBlank (c : Char) : Bool := c == ' ' || c == '\t' || c == '\n' || c == '\x0c' || c == '\r'

/-- What ends the name of a tag. -/
def endsName (c : Char) : Bool := isTagBlank c || c == '/' || c == '>'

/-- A character of a name: capitals count as small letters, and U+0000 is replaced. -/
def nameChar (c : Char) : Char := if c = Char.ofNat 0 then replacement else c.toLower

/-- A character of a text or value, where U+0000 is replaced. -/
def textChar (c : Char) : Char := if c = Char.ofNat 0 then replacement else c

/-! ### Characters -/

/-- The characters as runs of blanks and of others, with U+0000 on its own. -/
def runs : List Char → List Token
  | [] => []
  | c :: s =>
    if c = Char.ofNat 0 then .null :: runs s
    else if isTagBlank c then
      match runs s with
      | .blank t :: rest => .blank (String.ofList (c :: t.toList)) :: rest
      | rest => .blank (String.ofList [c]) :: rest
    else
      match runs s with
      | .text t :: rest => .text (String.ofList (c :: t.toList)) :: rest
      | rest => .text (String.ofList [c]) :: rest

/-! ### Tags -/

/-- The value of an attribute up to a character that ends it; nothing if the text ends before. -/
def value (stop : Char → Bool) : (fuel : Nat) → (acc : List Char) → List Char →
    Option (List Char × List Char)
  | 0, _, _ => none
  | _ + 1, _, [] => none
  | fuel + 1, acc, c :: s =>
    if stop c then some (acc.reverse, c :: s)
    else if c = '&' then
      let (cs, rest) := reference true s
      value stop fuel (cs.reverse ++ acc) rest
    else value stop fuel (textChar c :: acc) s

/-- The value after an equals sign. -/
def attrValue (s : List Char) : Option (List Char × List Char) :=
  match s.dropWhile isTagBlank with
  | [] => none
  | c :: rest =>
    if c = '"' ∨ c = Char.ofNat 39 then
      (value (· == c) (rest.length + 1) [] rest).map fun (v, rest) => (v, rest.drop 1)
    else if c = '>' then some ([], c :: rest)
    else value (fun c => isTagBlank c || c == '>') (rest.length + 2) [] (c :: rest)

/-- The name of an attribute; its first character may be an equals sign. -/
def attrName : List Char → List Char × List Char
  | [] => ([], [])
  | c :: s =>
    let rest := s.takeWhile fun c => !(endsName c || c == '=')
    ((c :: rest).map nameChar, s.drop rest.length)

/-- An attribute, unless the text ends in it. -/
def readAttr (s : List Char) : Option (Attr × List Char) :=
  let (name, s) := attrName s
  let attr (v : List Char) : Attr := { name := String.ofList name, value := String.ofList v }
  match s.dropWhile isTagBlank with
  | '=' :: rest => (attrValue rest).map fun (v, rest) => (attr v, rest)
  | rest => some (attr [], rest)

/-- The attributes of a tag, whether it closes itself, and what follows the tag; nothing if the text
ends in the tag.  Of attributes with one name only the first counts. -/
def attributes : (fuel : Nat) → (acc : List Attr) → List Char →
    Option (List Attr × Bool × List Char)
  | 0, _, _ => none
  | fuel + 1, acc, s =>
    match s.dropWhile isTagBlank with
    | [] => none
    | '>' :: rest => some (acc.reverse, false, rest)
    | '/' :: '>' :: rest => some (acc.reverse, true, rest)
    | '/' :: rest => attributes fuel acc rest
    | s =>
      (readAttr s).bind fun (a, rest) =>
        attributes fuel (if acc.any (·.name == a.name) then acc else a :: acc) rest

/-- The tag that begins with its name; nothing if the text ends in it. -/
def tag (s : List Char) : Option (Tag × List Char) :=
  let name := s.takeWhile (!endsName ·)
  let rest := s.drop name.length
  (attributes (rest.length + 1) [] rest).map fun (attrs, selfClosing, rest) =>
    (⟨String.ofList (name.map nameChar), attrs, selfClosing⟩, rest)

/-- A start tag. -/
def startTagToken (s : List Char) : List Token × List Char :=
  match tag s with
  | some (t, rest) => ([.startTag t], rest)
  | none => ([], [])

/-- An end tag. -/
def endTagToken (s : List Char) : List Token × List Char :=
  match tag s with
  | some (t, rest) => ([.endTag t.name], rest)
  | none => ([], [])

/-! ### Comments and document types -/

/-- How far the end of a comment has been read. -/
inductive CommentEnd where
  /-- The beginning of the comment. -/
  | start
  /-- A dash at the beginning. -/
  | startDash
  | none
  | dash
  | dashes
  /-- Two dashes and an exclamation mark. -/
  | bang
deriving DecidableEq, Repr

/-- The text of a comment and what follows it, given the reversal of the text so far. -/
def comment : CommentEnd → (acc : List Char) → List Char → List Char × List Char
  | _, acc, [] => (acc.reverse, [])
  | .start, acc, c :: s =>
    if c = '-' then comment .startDash acc s
    else if c = '>' then (acc.reverse, s)
    else comment .none (textChar c :: acc) s
  | .startDash, acc, c :: s =>
    if c = '-' then comment .dashes acc s
    else if c = '>' then (acc.reverse, s)
    else comment .none (textChar c :: '-' :: acc) s
  | .none, acc, c :: s => if c = '-' then comment .dash acc s else comment .none (textChar c :: acc) s
  | .dash, acc, c :: s =>
    if c = '-' then comment .dashes acc s else comment .none (textChar c :: '-' :: acc) s
  | .dashes, acc, c :: s =>
    if c = '>' then (acc.reverse, s)
    else if c = '!' then comment .bang acc s
    else if c = '-' then comment .dashes ('-' :: acc) s
    else comment .none (textChar c :: '-' :: '-' :: acc) s
  | .bang, acc, c :: s =>
    if c = '>' then (acc.reverse, s)
    else if c = '-' then comment .dash ('!' :: '-' :: '-' :: acc) s
    else comment .none (textChar c :: '!' :: '-' :: '-' :: acc) s

/-- Anything up to the next closing angle bracket, taken as a comment. -/
def bogus (s : List Char) : List Token × List Char :=
  let text := s.takeWhile (· != '>')
  ([.comment (String.ofList (text.map textChar))], s.drop (text.length + 1))

/-- What is left after the declaration, whatever else it holds. -/
def afterBracket (s : List Char) : List Char := (s.dropWhile (· != '>')).drop 1

/-- The rest of a text after a word in small or capital letters. -/
def afterWord? (w : String) (s : List Char) : Option (List Char) :=
  if (s.take w.length).map Char.toLower = w.toList then some (s.drop w.length) else none

/-- An identifier in quotes, whether it is complete, and what follows it. -/
def quotedId (q : Char) (s : List Char) : String × Bool × List Char :=
  let text := s.takeWhile fun c => c != q && c != '>'
  let id := String.ofList (text.map textChar)
  match s.drop text.length with
  | c :: rest => if c = q then (id, true, rest) else (id, false, c :: rest)
  | [] => (id, false, [])

/-- Whether a character is a quotation mark. -/
def isQuote (c : Char) : Bool := c == '"' || c == Char.ofNat 39

/-- The end of a declaration after its system identifier. -/
def doctypeEnd (d : Doctype) (s : List Char) : Doctype × List Char :=
  match s.dropWhile isTagBlank with
  | [] => ({ d with broken := true }, [])
  | rest => (d, afterBracket rest)

/-- A system identifier and the end of the declaration. -/
def systemId (q : Char) (d : Doctype) (s : List Char) : Doctype × List Char :=
  match quotedId q s with
  | (id, true, rest) => doctypeEnd { d with systemId := some id } rest
  | (id, false, rest) => ({ d with systemId := some id, broken := true }, afterBracket rest)

/-- A declaration after its public identifier. -/
def afterPublicId (d : Doctype) (s : List Char) : Doctype × List Char :=
  match s.dropWhile isTagBlank with
  | [] => ({ d with broken := true }, [])
  | c :: rest =>
    if c = '>' then (d, rest)
    else if isQuote c then systemId c d rest
    else ({ d with broken := true }, afterBracket (c :: rest))

/-- A declaration after the word that announces a public identifier. -/
def publicId (d : Doctype) (s : List Char) : Doctype × List Char :=
  match s.dropWhile isTagBlank with
  | c :: rest =>
    if isQuote c then
      match quotedId c rest with
      | (id, true, rest) => afterPublicId { d with publicId := some id } rest
      | (id, false, rest) => ({ d with publicId := some id, broken := true }, afterBracket rest)
    else ({ d with broken := true }, afterBracket (c :: rest))
  | [] => ({ d with broken := true }, [])

/-- A declaration after the word that announces a system identifier. -/
def systemOnly (d : Doctype) (s : List Char) : Doctype × List Char :=
  match s.dropWhile isTagBlank with
  | c :: rest =>
    if isQuote c then systemId c d rest else ({ d with broken := true }, afterBracket (c :: rest))
  | [] => ({ d with broken := true }, [])

/-- A declaration after its name. -/
def afterDoctypeName (d : Doctype) (s : List Char) : Doctype × List Char :=
  match s.dropWhile isTagBlank with
  | [] => ({ d with broken := true }, [])
  | '>' :: rest => (d, rest)
  | s =>
    match afterWord? "public" s, afterWord? "system" s with
    | some rest, _ => publicId d rest
    | none, some rest => systemOnly d rest
    | none, none => ({ d with broken := true }, afterBracket s)

/-- A declaration of the document type after its first word. -/
def doctype (s : List Char) : Doctype × List Char :=
  match s.dropWhile isTagBlank with
  | [] => ({ broken := true }, [])
  | '>' :: rest => ({ broken := true }, rest)
  | s =>
    let name := s.takeWhile fun c => !(isTagBlank c || c == '>')
    afterDoctypeName { name := some (String.ofList (name.map nameChar)) } (s.drop name.length)

/-- A declaration: comment, document type, or, outside the main vocabulary, a section of
characters. -/
def declaration (foreign : Bool) (s : List Char) : List Token × List Char :=
  match after? ['-', '-'] s with
  | some rest =>
    let (text, rest) := comment .start [] rest
    ([.comment (String.ofList text)], rest)
  | none =>
    match afterWord? "doctype" s with
    | some rest =>
      let (d, rest) := doctype rest
      ([.doctype d], rest)
    | none =>
      match if foreign then after? "[CDATA[".toList s else none with
      | some rest =>
        match splitFirst? "]]>".toList rest with
        | some (text, rest) => (runs text, rest)
        | none => (runs rest, [])
      | none => bogus s

/-! ### Markup -/

/-- Whatever begins with an opening angle bracket, given what follows the bracket. -/
def markup (foreign : Bool) (s : List Char) : List Token × List Char :=
  match s with
  | '!' :: rest => declaration foreign rest
  | '/' :: '>' :: rest => ([], rest)
  | '/' :: c :: rest => if c.isAlpha then endTagToken (c :: rest) else bogus (c :: rest)
  | ['/'] => ([.text "</"], [])
  | '?' :: _ => bogus s
  | c :: _ => if c.isAlpha then startTagToken s else ([.text "<"], s)
  | [] => ([.text "<"], [])

/-- The tokens at the beginning of ordinary text. -/
def dataTokens (foreign : Bool) (s : List Char) : List Token × List Char :=
  match s with
  | '<' :: rest => markup foreign rest
  | '&' :: rest =>
    let (cs, rest) := reference false rest
    (runs cs, rest)
  | _ =>
    let text := s.takeWhile fun c => c != '<' && c != '&'
    (runs text, s.drop text.length)

/-! ### Text of special elements -/

/-- Whether a text begins with the end tag of this name. -/
def closes (name : String) (s : List Char) : Bool :=
  match after? ['<', '/'] s with
  | some rest =>
    match afterWord? name rest with
    | some (c :: _) => endsName c
    | _ => false
  | none => false

/-- The text up to the end tag of this name, with references read if `refs` is set. -/
def textUntil (refs : Bool) (name : String) : (fuel : Nat) → (acc : List Char) → List Char →
    List Char × List Char
  | 0, acc, s => (acc.reverse, s)
  | _ + 1, acc, [] => (acc.reverse, [])
  | fuel + 1, acc, c :: s =>
    if closes name (c :: s) then (acc.reverse, c :: s)
    else if refs ∧ c = '&' then
      let (cs, rest) := reference false s
      textUntil refs name fuel (cs.reverse ++ acc) rest
    else textUntil refs name fuel (textChar c :: acc) s

/-- Where a script stands with regard to comments: outside, inside one after some dashes, or inside
a script inside one. -/
inductive ScriptPart where
  | outside
  | inside (dashes : Nat)
  | nested (dashes : Nat)
deriving DecidableEq, Repr

/-- The dashes after another character of a comment. -/
def dashesAfter (dashes : Nat) (c : Char) : Nat := if c = '-' then min 2 (dashes + 1) else 0

/-- Whether a text begins with the start tag of a script. -/
def opensScript (s : List Char) : Bool :=
  match after? ['<'] s with
  | some rest =>
    match afterWord? "script" rest with
    | some (c :: _) => endsName c
    | _ => false
  | none => false

/-- The text of a script up to its end tag.  The next `pass` characters belong to what was already
recognised. -/
def scriptText : (pass : Nat) → ScriptPart → List Char → List Char × List Char
  | _, _, [] => ([], [])
  | pass + 1, part, c :: s =>
    let (text, rest) := scriptText pass part s
    (textChar c :: text, rest)
  | 0, part, c :: s =>
    let go (pass : Nat) (part : ScriptPart) : List Char × List Char :=
      let (text, rest) := scriptText pass part s
      (textChar c :: text, rest)
    match part with
    | .outside =>
      if closes "script" (c :: s) then ([], c :: s)
      else if beginsWith "<!--".toList (c :: s) then go 3 (.inside 2)
      else go 0 .outside
    | .inside dashes =>
      if closes "script" (c :: s) then ([], c :: s)
      else if opensScript (c :: s) then go 7 (.nested 0)
      else if c = '>' ∧ dashes = 2 then go 0 .outside
      else go 0 (.inside (dashesAfter dashes c))
    | .nested dashes =>
      if closes "script" (c :: s) then go 8 (.inside 0)
      else if c = '>' ∧ dashes = 2 then go 0 .outside
      else go 0 (.nested (dashesAfter dashes c))

/-- The text of a special element as one token, or its end tag. -/
def specialTokens (text rest : List Char) : List Token × List Char :=
  match text with
  | [] => endTagToken (rest.drop 2)
  | _ => ([.text (String.ofList text)], rest)

/-- The tokens at the beginning of a nonempty text.  The text of a special element runs up to the
end tag of `name`. -/
def tokens (content : Content) (name : String) (foreign : Bool) (s : List Char) :
    List Token × List Char :=
  match content with
  | .data => dataTokens foreign s
  | .escapable =>
    let (text, rest) := textUntil true name (s.length + 1) [] s
    specialTokens text rest
  | .raw =>
    let (text, rest) := textUntil false name (s.length + 1) [] s
    specialTokens text rest
  | .script =>
    let (text, rest) := scriptText 0 .outside s
    specialTokens text rest
  | .plain => ([.text (String.ofList (s.map textChar))], [])

/-- A page as it is read: without byte order mark, and with one kind of line end. -/
def normalise (s : List Char) : List Char :=
  lineEnds (match s with
    | c :: rest => if c.toNat = 0xFEFF then rest else s
    | [] => [])
where
  /-- Carriage returns, with the newline after them if there is one, as newlines. -/
  lineEnds : List Char → List Char
    | [] => []
    | '\r' :: '\n' :: s => '\n' :: lineEnds s
    | c :: s => (if c = '\r' then '\n' else c) :: lineEnds s

end BindingDocs.Html
