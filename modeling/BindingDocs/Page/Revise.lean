import BindingDocs.Html.Parse
import BindingDocs.Html.Write
import BindingDocs.Log
import BindingDocs.Markup.WellFormed
import BindingDocs.Page.Repair
import BindingDocs.Page.Summary

/-!
# Revising class pages

The changes made to a rendered class page, in order, and the whole way of a page from its text to
its new text.

## Main definitions

* `Page.removeMoreLinks` — drops the first disclosure links.
* `Page.revise` — all changes.
* `PageError` — why a page cannot be processed.
* `processPage` — the new text of a page.
-/

namespace BindingDocs

namespace Page

/-- Drops the first `limit` disclosure links. -/
def removeMoreLinks (limit : Nat) (p : Page) : Page :=
  (((p.elements "a").filter (·.ownText == "More...")).take limit).foldl
    (fun p a => p.detach a.label) p

/-- Takes nodes out of their trees. -/
def detachAll (ns : List Node) (p : Page) : Page := ns.foldl (fun p n => p.detach n.label) p

/-- A page after the changes, or after those made before the error. -/
structure Revised where
  page : Page
  error : Option RevisionError
  notices : List Notice

/-- Makes all changes.  The entries of the marker are found early and removed at the end, so that
the steps between see them. -/
def revise (p : Page) : Revised :=
  let p := p.removeMoreLinks 2
  let p := p.replaceText "Public Member Function" "Member Function"
  let p := p.replaceText "More..." "[details]"
  let doomed := p.markerNodes
  let found := Notice.debug (toString doomed.length ++ " marker node(s) scheduled for removal")
  let p := p.promote
  match p.label p.classUrls with
  | (p, .error e) => ⟨p, some e, [found]⟩
  | (p, .ok _) =>
    let (p, n) := p.clean
    ⟨p.detachAll doomed, none, [found, .debug ("cleaned " ++ toString n ++ " signature(s)")]⟩

end Page

/-- Why a page cannot be processed. -/
inductive PageError where
  /-- The page is not well formed even after it was mended. -/
  | malformed (page : String) (defect : Markup.Defect)
  | revision (e : Page.RevisionError)
deriving DecidableEq, Repr

/-- The text of the error. -/
def PageError.message : PageError → String
  | .malformed page defect => page ++ ": not well-formed after repair: " ++ defect.message
  | .revision e => e.message

/-- The page of a text, which must be well formed. -/
def Page.read (name : String) (text : List Char) : Except PageError Page :=
  match Markup.check text with
  | some defect => .error (.malformed name defect)
  | none => .ok (Html.parse text)

/-- The new text of a page: mended, read, changed and written again. -/
def processPage (name : String) (text : List Char) : Except PageError String × List Notice :=
  match Page.read name (Page.repair text) with
  | .error e => (.error e, [])
  | .ok p =>
    let r := p.revise
    match r.error with
    | some e => (.error (.revision e), r.notices)
    | none => (.ok r.page.toHtml, r.notices)

end BindingDocs
