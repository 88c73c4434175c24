import BindingDocs.Proofs.Text.CommentEnd
import BindingDocs.Proofs.Text.Replace
import BindingDocs.Proofs.Text.Trim
import BindingDocs.Signature

/-!
# Annotations cited in declarations

A declaration ends in a comment that cites the annotation it was written for.  The annotation may
hold ends of comments itself, so each of them is pulled apart by a blank.  Pulling apart is done
from left to right, and the star that it leaves behind stands in front of a blank: whatever stars
and slashes are around it, no end of a comment is made at a seam.  So the comment ends where it
should, and an annotation that holds no end of a comment is cited word for word.

## Main definitions

* `Signature.heading` — a declaration up to the last argument.
* `Signature.citation` — the comment of a declaration, and the end of the empty body around it.

## Main results

* `staysOpen_quoted` — no comment ends inside what is cited.
* `quoted_eq_trim_iff` — the annotations that are cited word for word.
* `declaration_cites` — **the comment of a declaration ends once.**
-/

namespace BindingDocs

open Text

namespace Signature

/-- A declaration up to the last argument. -/
def heading (sig : Signature) : String :=
  (if sig.isStatic then "static " else "") ++ sig.returns.getD "void" ++ " " ++ sig.method ++ "(" ++
    sig.arguments

/-- The comment of a declaration up to its end. -/
def beforeCloser (source : List Char) : List Char :=
  "/* From '".toList ++ ((quoted source).toList ++ "' ".toList)

/-- The comment of a declaration, and the end of the empty body around it. -/
def citation (source : List Char) : List Char :=
  beforeCloser source ++ ("*/".toList ++ " \x7d\n".toList)

theorem toList_quoted (source : List Char) :
    (quoted source).toList = replace "*/".toList "* /".toList (trim source) :=
  String.toList_ofList

/-- No comment ends inside what is cited. -/
theorem staysOpen_quoted (source : List Char) : StaysOpen (quoted source).toList := by
  have hapart : ∀ r, ¬ ['/'] <+: [' ', '/'] ++ r := by simp
  rw [StaysOpen, toList_quoted]
  exact not_isInfix_replace (by decide) (by decide) hapart (trim source)

/-- No comment ends before the comment of a declaration does. -/
theorem staysOpen_beforeCloser (source : List Char) : StaysOpen (beforeCloser source) :=
  staysOpen_append_of_left (by decide) (by decide)
    (staysOpen_append_of_right (by decide) (staysOpen_quoted source) (by decide))

/-- The annotations that are cited word for word. -/
theorem quoted_eq_trim_iff (source : List Char) :
    (quoted source).toList = trim source ↔ StaysOpen (trim source) := by
  constructor
  · intro h
    rw [← h]
    exact staysOpen_quoted source
  · intro h
    rw [toList_quoted, replace_eq_self (by decide) h]

/-- What is cited of an annotation differs from it by blanks only. -/
theorem filter_quoted (source : List Char) :
    (quoted source).toList.filter (!isBlank ·) = source.filter (!isBlank ·) := by
  rw [toList_quoted, filter_replace (by decide) (by decide), filter_trim]

/-- The comment on an annotation of one line stands on one line. -/
theorem newline_not_mem_beforeCloser {source : List Char} (h : '\n' ∉ source) :
    '\n' ∉ beforeCloser source := by
  have hquoted : '\n' ∉ (quoted source).toList := by
    rw [toList_quoted]
    intro hmem
    rcases mem_replace (by decide) hmem with hmem | hmem
    · exact absurd hmem (by decide)
    · exact h ((isInfix_trim source).subset hmem)
  delta beforeCloser
  rw [List.mem_append, List.mem_append, not_or, not_or]
  exact ⟨by decide, hquoted, by decide⟩

/-- **The comment of a declaration ends once.**  A declaration consists of its heading, the
parenthesis and the brace after it, and the citation.  In the citation a comment ends at one place
only, whatever the annotation holds.  The annotation is cited word for word exactly if it holds no
end of a comment between the blanks at its ends, and otherwise with more blanks.  The citation of an
annotation of one line is one line. -/
theorem declaration_cites (sig : Signature) (source : List Char) :
    (sig.declaration source).toList =
        sig.heading.toList ++ (") \x7b ".toList ++ citation source) ∧
      (∀ b r, citation source = b ++ ("*/".toList ++ r) ↔
        b = "/* From '".toList ++ ((quoted source).toList ++ "' ".toList) ∧ r = " \x7d\n".toList) ∧
      ((quoted source).toList = trim source ↔ StaysOpen (trim source)) ∧
      (quoted source).toList.filter (!isBlank ·) = source.filter (!isBlank ·) ∧
      ('\n' ∉ source → ∃ line, '\n' ∉ line ∧ citation source = line ++ ['\n']) := by
  refine ⟨?_, ?_, quoted_eq_trim_iff source, filter_quoted source, ?_⟩
  · have hopening : ") \x7b /* From '".toList = ") \x7b ".toList ++ "/* From '".toList := by decide
    have hclosing : "' */ \x7d\n".toList = "' ".toList ++ ("*/".toList ++ " \x7d\n".toList) := by
      decide
    delta Signature.declaration heading citation beforeCloser
    simp only [String.toList_append, List.append_assoc, hopening, hclosing]
  · intro b r
    constructor
    · exact append_closer_inj (staysOpen_beforeCloser source) (by decide)
    · rintro ⟨rfl, rfl⟩
      rfl
  · intro h
    refine ⟨beforeCloser source ++ "*/ \x7d".toList, ?_, by simp [citation]⟩
    rw [List.mem_append, not_or]
    exact ⟨newline_not_mem_beforeCloser h, by decide⟩

/-- A function of a script whose name is full of stars and slashes. -/
def starry : Signature where
  isStatic := false
  returns := none
  owner := none
  method := "a**//*/"
  arguments := "x"

/-- The line it is read from. -/
def starryLine : List Char := " @luafunc a**//*/(x) ".toList

theorem declaration_cites_starryLine :
    parse? .bracketed starryLine = some starry ∧ '\n' ∉ starryLine ∧
      (starry.declaration starryLine).toList =
        starry.heading.toList ++ (") \x7b ".toList ++ citation starryLine) ∧
      (∀ b r, citation starryLine = b ++ ("*/".toList ++ r) →
        b = "/* From '@luafunc a** //* /(x)' ".toList) ∧
      (quoted starryLine).toList ≠ trim starryLine ∧
      ∃ line, '\n' ∉ line ∧ citation starryLine = line ++ ['\n'] := by
  have hline : '\n' ∉ starryLine := by decide
  obtain ⟨hparts, hends, hsame, -, hone⟩ := declaration_cites starry starryLine
  have hquoted : "/* From '".toList ++ ((quoted starryLine).toList ++ "' ".toList) =
      "/* From '@luafunc a** //* /(x)' ".toList := by decide +kernel
  refine ⟨by decide +kernel, hline, hparts, ?_, mt hsame.mp (by decide +kernel), hone hline⟩
  intro b r h
  exact ((hends b r).mp h).1.trans hquoted

end Signature

end BindingDocs
