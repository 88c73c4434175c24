import BindingDocs.Text.Range

/-!
# Blanks

A blank is a character with the `White_Space` property.  Trimming removes blanks, or the characters
of any other class, from both ends of a text.

## Main definitions

* `isBlank` — the blank characters.
* `trimBy`, `trim` — a text without the characters of a class at its ends.
-/

namespace BindingDocs.Text

/-- The code points with the `White_Space` property. -/
def blankRanges : List (Nat × Nat) :=
  [(9, 13), (32, 32), (133, 133), (160, 160), (5760, 5760), (8192, 8202), (8232, 8233),
   (8239, 8239), (8287, 8287), (12288, 12288)]

/-- Whether `c` is blank. -/
def isBlank (c : Char) : Bool := inRanges c.toNat blankRanges

/-- The text without its longest ending in the class `p`. -/
def trimEndBy (p : Char → Bool) (s : List Char) : List Char := (s.reverse.dropWhile p).reverse

/-- The text without its longest beginning and its longest ending in the class `p`. -/
def trimBy (p : Char → Bool) (s : List Char) : List Char := trimEndBy p (s.dropWhile p)

/-- The text without the blanks at its ends. -/
def trim (s : List Char) : List Char := trimBy isBlank s

end BindingDocs.Text
