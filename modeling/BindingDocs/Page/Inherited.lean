import BindingDocs.Page.Basic
import BindingDocs.Page.Member

/-!
# Inherited members

The rendered page marks a member as inherited without saying from where.  The class is known from
the signature, and its page from the inheritance diagram.

## Main definitions

* `RevisionError` — why a page cannot be revised.
* `Page.classUrls` — the pages of the classes in the diagram.
* `Page.label` — completes the labels of inherited members.
-/

namespace BindingDocs.Page

/-- Why a page cannot be revised. -/
inductive RevisionError where
  /-- The table of an inherited member has several signatures. -/
  | ambiguousSignature (found : Nat)
  /-- A member has several labels. -/
  | inheritedLabel (member : String) (found : Nat)
deriving DecidableEq, Repr

/-- The text of the error. -/
def RevisionError.message : RevisionError → String
  | .ambiguousSignature found =>
    "inherited member table has " ++ toString found ++ " signature names, expected one"
  | .inheritedLabel member found =>
    "member `" ++ member ++ "` has " ++ toString found ++ " `inherited` labels, expected one"

/-- Pages by class name. -/
abbrev Urls := List (String × String)

/-- Sets the page of a class. -/
def Urls.set (urls : Urls) (name url : String) : Urls :=
  if urls.any (·.1 == name) then urls.map fun u => if u.1 = name then (name, url) else u
  else urls ++ [(name, url)]

/-- The pages of the classes in the inheritance diagram; of several areas with one name the last
counts. -/
def classUrls (p : Page) : Urls :=
  ((p.elements "area").filter fun a => (p.parent? a.label).any (·.isElement "map")).foldl
    (fun urls area =>
      match area.attr? "alt", area.attr? "href" with
      | some name, some url => urls.set name url
      | _, _ => urls) []

/-- The texts directly inside the signature cells of a table. -/
def signatureNames (table : Node) : List String :=
  ((table.elements "td").filter (·.hasClass "td" "memname")).flatMap (·.directTexts)

/-- The labels that mark a member as inherited. -/
def inheritedLabels (table : Node) : List Node :=
  (table.elements "span").filter fun s => s.hasClass "span" "mlabel" && s.ownText == "inherited"

/-- What a completed label holds. -/
def labelText (urls : Urls) (owner : String) : Forest :=
  let text := Forest.ofText ("inherited from " ++ owner)
  match urls.lookup owner with
  | some url => .ofElement "a" [("href", url)] text
  | none => text

/-- The label to complete in a table and its class; nothing if the table is not about an inherited
member. -/
def labelOf (table : Node) : Except RevisionError (Option (Node × String)) :=
  if !Text.contains "inherited".toList table.textContent.toList then .ok none
  else
    match signatureNames table with
    | [] => .ok none
    | [name] =>
      match Member.parse? name.toList with
      | none => .ok none
      | some m =>
        match inheritedLabels table with
        | [] => .ok none
        | [label] => .ok (some (label, String.ofList m.owner))
        | labels => .error (.inheritedLabel (String.ofList m.name) labels.length)
    | names => .error (.ambiguousSignature names.length)

/-- Completes the labels of the tables with these labels in turn, up to the first error.  Returns
the page as far as it was changed, and the number of labels completed. -/
def labelTables (urls : Urls) : List Nat → Page → Page × Except RevisionError Nat
  | [], p => (p, .ok 0)
  | l :: rest, p =>
    match labelOf ((p.node? l).getD default) with
    | .error e => (p, .error e)
    | .ok none => labelTables urls rest p
    | .ok (some (label, owner)) =>
      let (p, result) :=
        labelTables urls rest ((p.clear label.label).append label.label (labelText urls owner))
      (p, result.map (· + 1))

/-- Completes the labels of inherited members. -/
def label (urls : Urls) (p : Page) : Page × Except RevisionError Nat :=
  labelTables urls ((p.elements "table").map (·.label)) p

end BindingDocs.Page
