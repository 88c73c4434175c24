import BindingDocs.Markup.Event

/-!
# Well-formed pages

A page is well formed when its markup can be read, the references of its texts are known and every
tag is closed.

## Main definitions

* `Defect` — what is wrong with a page.
* `check` — the first defect of a page.
-/

namespace BindingDocs.Markup

/-- What is wrong with a page. -/
inductive Defect where
  /-- A faulty reference in the text that begins at this position. -/
  | text (offset : Nat) (fault : TextFault)
  /-- Markup that cannot be read, with the position reached. -/
  | markup (offset : Nat) (fault : MarkupFault)
  /-- A tag that is still open at the end. -/
  | neverClosed (tag : String)
deriving DecidableEq, Repr

/-- The text of the defect. -/
def Defect.message : Defect → String
  | .text offset fault => "at byte " ++ toString offset ++ ": " ++ fault.message
  | .markup offset fault => "at byte " ++ toString offset ++ ": " ++ fault.message
  | .neverClosed tag => "<" ++ tag ++ "> is never closed"

/-- The first defect of a list of events, given the tags that are open before it. -/
def checkEvents : (opened : List (List Char)) → List Event → Option Defect
  | [], [] => none
  | tag :: _, [] => some (.neverClosed (String.ofList tag))
  | opened, .start name :: rest => checkEvents (name :: opened) rest
  | opened, .stop _ :: rest => checkEvents opened.tail rest
  | opened, .text offset content :: rest =>
    match checkText content with
    | some fault => some (.text offset fault)
    | none => checkEvents opened rest
  | opened, .other :: rest => checkEvents opened rest
  | _, .fault offset cause :: _ => some (.markup offset cause)

/-- The first defect of a page, if it has one. -/
def check (page : List Char) : Option Defect := checkEvents [] (events page)

end BindingDocs.Markup
