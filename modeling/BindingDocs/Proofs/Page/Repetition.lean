import BindingDocs.Proofs.Page.Readability
import Mathlib.Control.Monad.Basic

/-!
# Processing a page again

A page is read as strict markup and written as HTML.  What is written is strict markup again where
every piece of it is read as it was meant and every tag is closed.  So a processed page is refused
when it is processed again as soon as it has a void element, whose start tag stands alone.

## Main definitions

* `revisedTrees` — what is written for a page.
* `IsWellFormed` — a page is not refused before it is changed.

## Main results

* `isReadable_revisedTrees` — the pages for which everything that is written is read as it is meant.
* `isWellFormed_again_iff` — **the processed pages that are well formed again.**
* `refused_again` — processed pages that are refused when they are processed again.
-/

namespace BindingDocs

/-- The trees of a page after its changes. -/
def revisedTrees (text : List Char) : Page.Forest :=
  (Html.parse (Page.repair text)).revise.page.document.below

/-- The page is well formed after it was mended: if it is refused, then because it cannot be
changed. -/
def IsWellFormed (name : String) (text : List Char) : Prop :=
  ∀ defect, (processPage name text).1 ≠ .error (.malformed name defect)

section Process

variable {name : String} {text : List Char} {html : String}

theorem isWellFormed_iff : IsWellFormed name text ↔ Markup.check (Page.repair text) = none := by
  unfold IsWellFormed processPage Page.read
  cases Markup.check (Page.repair text) with
  | some defect => simp
  | none =>
    dsimp only
    split <;> simp

/-- What is written for a page. -/
theorem write_revisedTrees (h : (processPage name text).1 = .ok html) :
    html = Html.write false false (revisedTrees text) := by
  unfold processPage Page.read at h
  cases hcheck : Markup.check (Page.repair text) with
  | some defect => simp [hcheck] at h
  | none =>
    simp only [hcheck] at h
    split at h
    · cases h
    · exact (Except.ok.inj h).symm

/-- What is written for a page is read as it is meant, if that holds of each of its nodes. -/
theorem isReadable_revisedTrees (hlabelled : (Html.parse (Page.repair text)).Labelled)
    (hread : (Html.parse (Page.repair text)).NodesReadable) :
    Html.isReadable false false (revisedTrees text) = true :=
  Page.isReadable_revise hlabelled hread

/-- **The processed pages that are well formed again** are those without void elements, provided
that what was written for them is read as it is meant and no licence comment begins in it. -/
theorem isWellFormed_again_iff (h : (processPage name text).1 = .ok html)
    (hreadable : Html.isReadable false false (revisedTrees text) = true)
    (hlicence : ¬ Page.licence <:+: html.toList) :
    IsWellFormed name html.toList ↔ Html.voids (revisedTrees text) = 0 := by
  have hwrite := write_revisedTrees h
  generalize revisedTrees text = f at hwrite hreadable ⊢
  subst hwrite
  rw [isWellFormed_iff, Html.check_repair_write_iff hreadable hlicence]

end Process

/-- A page with raw text, escaped text, a value and a comment, and what is written for it. -/
def quotedPage : String := "<script>a > b</script><p title='>\"'>&#60;&#160;<!-- c --></p>"

def quotedHtml : String :=
  "<html><head><script>a > b</script></head><body>" ++
    "<p title=\">&quot;\">&lt;&nbsp;<!-- c --></p></body></html>"

theorem isWellFormed_again_quotedPage :
    (processPage "class_a.html" quotedPage.toList).1 = .ok quotedHtml ∧
      Html.isReadable false false (revisedTrees quotedPage.toList) = true ∧
      ¬ Page.licence <:+: quotedHtml.toList ∧ IsWellFormed "class_a.html" quotedHtml.toList := by
  have hfirst : (processPage "class_a.html" quotedPage.toList).1 = .ok quotedHtml := by
    decide +kernel
  have hreadable : Html.isReadable false false (revisedTrees quotedPage.toList) = true := by
    decide +kernel
  have hlicence : ¬ Page.licence <:+: quotedHtml.toList := by decide +kernel
  have hvoids : Html.voids (revisedTrees quotedPage.toList) = 0 := by decide +kernel
  exact ⟨hfirst, hreadable, hlicence,
    (isWellFormed_again_iff hfirst hreadable hlicence).mpr hvoids⟩

example : Html.isReadable false false (revisedTrees quotedPage.toList) = true :=
  isReadable_revisedTrees (by decide +kernel) (by decide +kernel)

/-! ### Pages that are refused the second time -/

/-- The page is processed, but not what was written for it. -/
def RefusedAgain (name : String) (text : List Char) : Prop :=
  ∃ html, (processPage name text).1 = .ok html ∧
    ∀ html', (processPage name html.toList).1 ≠ .ok html'

/-- Whether a page is processed once but not twice. -/
def isRefusedAgain (name : String) (text : List Char) : Bool :=
  match (processPage name text).1 with
  | .error _ => false
  | .ok html =>
    match (processPage name html.toList).1 with
    | .error _ => true
    | .ok _ => false

theorem forall_refusedAgain {name : String} {pages : List String}
    (h : pages.all (fun text => isRefusedAgain name text.toList) = true) :
    pages.Forall fun text => RefusedAgain name text.toList := by
  rw [List.forall_iff_forall_mem]
  intro text htext
  have hrefused := List.all_eq_true.mp h text htext
  unfold isRefusedAgain at hrefused
  split at hrefused
  · cases hrefused
  · next html hfirst =>
    refine ⟨html, hfirst, fun html' hsecond => ?_⟩
    simp [hsecond] at hrefused

/-- Pages that are processed once but not twice: with a void element, with a raw text that looks
like a tag, with a bracket in the name of an attribute, with a document type that has brackets or no
name, with a licence comment that is written only now, and with a cell that got a second name. -/
theorem refused_again : List.Forall (fun text => RefusedAgain "class_a.html" text.toList)
    ["<p>a<br/></p>",
     "<html><head><script/></head></html>",
     "<a '>'>x</a>",
     "<!DOCTYPE a<b>><p></p>",
     "<!DOCTYPE \x0c><p></p>",
     "<p>/* &#64;license <b>*/</b></p>",
     "<table class=\"memname\"><td class=\"memname\"/><td class=\"memname\">::inherited</td>" ++
       "<td class=\"paramname\"/></table>"] :=
  forall_refusedAgain (by decide +kernel)

end BindingDocs
