import BindingDocs.EnumTable
import BindingDocs.Proofs.Text.Reader
import BindingDocs.Proofs.Text.Word
import Mathlib.Data.Nat.Digits.Defs

/-!
# Tags read back

A tag names an enum and up to three columns, each of them a numeral of any length.  The columns
after the first are optional one inside the other.  Blanks may stand after the name, after each
comma and after each numeral, so a numeral ends at a blank, a comma or the closing parenthesis.  The
readers of the parts are followed from the inside out.

A numeral that is too large for a column is read as text all the same.  It depends on the column
what comes of it: without a value column there is no tag, while another column just counts as
absent.

## Main definitions

* `Tag.IsPrintable` — tags whose parts can be written.
* `Tag.Layout`, `Tag.Layout.Fits` — the blanks and the other texts around the parts.
* `Tag.Layout.print` — a tag on its line.
* `decimal` — the number a numeral stands for.

## Main results

* `numeral?_eq` — numerals are read if they are below 2 ^ 64.
* `column_append` — a column is read up to the text behind its blanks.
* `anywhere_tag?_print` — the parts of a tag are read as they are written.
* `parse?_printTag` — **what a tag means.**
-/

namespace BindingDocs

open Text

/-! ### Numerals -/

/-- The number that decimal digits stand for, the last one being the units. -/
def decimal (digits : List Char) : Nat :=
  Nat.ofDigits 10 (digits.reverse.map fun c => c.toNat - '0'.toNat)

/-- **Numerals are read if they are below 2 ^ 64.** -/
theorem numeral?_eq {digits : List Char} (h : IsRun Char.isDigit digits) :
    numeral? digits = if decimal digits < 2 ^ 64 then some (decimal digits) else none := by
  have hvalue : digits.foldl (fun n c => 10 * n + (c.toNat - '0'.toNat)) 0 = decimal digits := by
    rw [decimal, Nat.ofDigits_eq_foldr, List.foldr_map, List.foldl_eq_foldr_reverse]
    congr 1
    funext c n
    exact Nat.add_comm _ _
  have hdigits : digits ≠ [] ∧ digits.all Char.isDigit = true := ⟨h.1, List.all_eq_true.mpr h.2⟩
  rw [numeral?, if_pos hdigits, hvalue]
  rfl

/-- A numeral that may be missing counts if it is there and its number is below 2 ^ 64. -/
theorem bind_numeral? {digits : Option (List Char)}
    (h : ∀ n, digits = some n → IsRun Char.isDigit n) :
    digits.bind numeral? = (digits.map decimal).filter (· < 2 ^ 64) := by
  cases digits with
  | none => rfl
  | some n =>
    rw [Option.bind_some, numeral?_eq (h n rfl), Option.map_some, Option.filter_some]
    simp only [decide_eq_true_eq]

namespace EnumSpec

/-! ### Layout -/

/-- A tag whose parts can be written: the name is a word, the columns are numerals, and the last
column stands behind another one. -/
structure Tag.IsPrintable (t : Tag) : Prop where
  name : IsRun isWord t.name
  value : IsRun Char.isDigit t.value
  descr : ∀ d, t.descr = some d → IsRun Char.isDigit d
  shown : ∀ i, t.shown = some i → IsRun Char.isDigit i
  nested : t.descr = none → t.shown = none

namespace Tag

/-- The texts that a tag is written with besides its parts. -/
structure Layout where
  /-- What stands before the command. -/
  before : List Char
  /-- The blanks after the command. -/
  afterCommand : List Char
  /-- The blanks after the name. -/
  afterName : List Char
  /-- The blanks after the column of the value. -/
  afterValue : List Char
  /-- The blanks around the column of the description. -/
  beforeDescr : List Char
  afterDescr : List Char
  /-- The blanks around the column that says whether a row is shown. -/
  beforeShown : List Char
  afterShown : List Char
  /-- What follows the tag. -/
  after : List Char

namespace Layout

/-- No other command stands before the tag, and blanks stand between its parts. -/
structure Fits (l : Layout) : Prop where
  before : '@' ∉ l.before
  afterCommand : IsRun isBlank l.afterCommand
  afterName : ∀ c ∈ l.afterName, isBlank c = true
  afterValue : ∀ c ∈ l.afterValue, isBlank c = true
  beforeDescr : ∀ c ∈ l.beforeDescr, isBlank c = true
  afterDescr : ∀ c ∈ l.afterDescr, isBlank c = true
  beforeShown : ∀ c ∈ l.beforeShown, isBlank c = true
  afterShown : ∀ c ∈ l.afterShown, isBlank c = true

/-- The closing parenthesis, after the last column if there is one. -/
def printShown (l : Layout) : Option (List Char) → List Char
  | some i => ',' :: (l.beforeShown ++ (i ++ (l.afterShown ++ ')' :: l.after)))
  | none => ')' :: l.after

/-- What follows the column of the value. -/
def printDescr (l : Layout) (t : Tag) : List Char :=
  match t.descr with
  | some d => ',' :: (l.beforeDescr ++ (d ++ (l.afterDescr ++ l.printShown t.shown)))
  | none => ')' :: l.after

/-- The name and the columns. -/
def printParts (l : Layout) (t : Tag) : List Char :=
  t.name ++ (l.afterName ++ '(' :: (t.value ++ (l.afterValue ++ l.printDescr t)))

/-- The line. -/
def print (l : Layout) (t : Tag) : List Char :=
  l.before ++ ("@luaenum".toList ++ (l.afterCommand ++ l.printParts t))

end Layout

end Tag

/-! ### Columns -/

section Columns

variable {α : Type} {k : Reader α} {a : α} {b n s t : List Char}

/-- A text that begins with a comma or a parenthesis; a numeral and its blanks end there. -/
def BeginsWithMark (t : List Char) : Prop :=
  ∀ c, t.head? = some c → isBlank c = false ∧ isDecimal c = false

theorem beginsWithMark_cons {c : Char} (hblank : isBlank c = false) (hdecimal : isDecimal c = false)
    (s : List Char) : BeginsWithMark (c :: s) := by
  intro c' hc'
  obtain rfl : c = c' := by simpa using hc'
  exact ⟨hblank, hdecimal⟩

/-- A numeral is read up to its end, and so are the blanks behind it. -/
theorem run1_numeral_append (hn : IsRun Char.isDigit n) (hb : ∀ c ∈ b, isBlank c = true)
    (ht : BeginsWithMark t) (hk : k t = some a) :
    run1 isDecimal (blanks k) (n ++ (b ++ t)) = some (n, a) := by
  refine run1_append hn.1 (fun c hc => isDecimal_of_isDigit (hn.2 c hc)) ?_
    (blanks_append hb (fun c hc => (ht c hc).1) hk)
  intro c hc
  cases b with
  | nil => exact (ht c hc).2
  | cons c' b =>
    obtain rfl : c' = c := by simpa using hc
    rw [← Bool.not_eq_true]
    intro hdecimal
    have hblank := isBlank_of_isWord (isWord_of_isDecimal hdecimal)
    rw [hb c' List.mem_cons_self] at hblank
    cases hblank

/-- **A column is read up to the text behind its blanks.** -/
theorem column_append (hs : ∀ c ∈ s, isBlank c = true) (hn : IsRun Char.isDigit n)
    (hb : ∀ c ∈ b, isBlank c = true) (ht : BeginsWithMark t) (hk : k t = some a) :
    column k (',' :: (s ++ (n ++ (b ++ t)))) = some (n, a) := by
  have hread := blanks_append hs (fun c hc => ?_) (run1_numeral_append hn hb ht hk)
  · exact (lit_append "," _).trans hread
  · exact isBlank_of_isWord (isWord_of_isDecimal (isDecimal_of_isDigit (hn.of_head? hc)))

/-- A column begins with a comma. -/
theorem column_paren : column k (')' :: s) = none := lit_eq_none ',' rfl (by simp)

end Columns

/-! ### Whole tags -/

section Print

variable {t : Tag} {l : Tag.Layout}

theorem closing_paren {α : Type} (s : List Char) :
    (closing : Reader (Option α)) (')' :: s) = some none := rfl

theorem beginsWithMark_paren (s : List Char) : BeginsWithMark (')' :: s) :=
  beginsWithMark_cons (by decide) (by decide) s

theorem beginsWithMark_comma (s : List Char) : BeginsWithMark (',' :: s) :=
  beginsWithMark_cons (by decide) (by decide) s

theorem beginsWithMark_printShown (i : Option (List Char)) :
    BeginsWithMark (l.printShown i) := by
  cases i with
  | none => exact beginsWithMark_paren _
  | some i => exact beginsWithMark_comma _

theorem beginsWithMark_printDescr : BeginsWithMark (l.printDescr t) := by
  unfold Tag.Layout.printDescr
  split
  · exact beginsWithMark_comma _
  · exact beginsWithMark_paren _

variable (ht : t.IsPrintable) (hl : l.Fits)
include ht hl

/-- The last column is read as it is printed. -/
theorem either_printShown :
    either (as (fun (n, _) => some n) (column (lit ")" done))) closing (l.printShown t.shown) =
      some t.shown := by
  cases hshown : t.shown with
  | none =>
    rw [Tag.Layout.printShown, either, as, column_paren, closing_paren]
    rfl
  | some i =>
    have hread : column (lit ")" done) (l.printShown (some i)) = some (i, ()) :=
      column_append hl.beforeShown (ht.shown i hshown) hl.afterShown (beginsWithMark_paren _) rfl
    rw [either, as, hread]
    rfl

/-- So are both columns after the value. -/
theorem columns_printDescr : columns (l.printDescr t) = some (t.descr.map (·, t.shown)) := by
  have hshown := either_printShown ht hl
  unfold Tag.Layout.printDescr columns
  cases hdescr : t.descr with
  | none =>
    simp only [either, as, column_paren, closing_paren]
    rfl
  | some d =>
    have hread := column_append hl.beforeDescr (ht.descr d hdescr) hl.afterDescr
      (beginsWithMark_printShown t.shown) hshown
    simp only [either, as] at hread ⊢
    rw [hread]
    rfl

/-- The parts after the command are read as they are printed. -/
theorem tag?_print : tag? ("@luaenum".toList ++ (l.afterCommand ++ l.printParts t)) = some t := by
  have hvalue := run1_numeral_append ht.value hl.afterValue beginsWithMark_printDescr
    (columns_printDescr ht hl)
  have hname : blanks (lit "(" (run1 isDecimal (blanks columns)))
      (l.afterName ++ '(' :: (t.value ++ (l.afterValue ++ l.printDescr t))) =
        some (t.value, t.descr.map (·, t.shown)) := by
    refine blanks_append hl.afterName (fun c hc => ?_) ((lit_append "(" _).trans hvalue)
    obtain rfl : '(' = c := by simpa using hc
    decide
  have hcommand : run1 isWord (blanks (lit "(" (run1 isDecimal (blanks columns))))
      (l.printParts t) = some (t.name, t.value, t.descr.map (·, t.shown)) := by
    refine run1_append ht.name.1 ht.name.2 ?_ hname
    intro c hc
    cases hafter : l.afterName with
    | nil =>
      obtain rfl : '(' = c := by simpa [hafter] using hc
      decide
    | cons b s =>
      obtain rfl : b = c := by simpa [hafter] using hc
      exact isWord_of_isBlank (hl.afterName b (by simp [hafter]))
  have hread := blanks1_append (t := l.printParts t) hl.afterCommand.1 hl.afterCommand.2
    (fun c hc => isBlank_of_isWord (ht.name.of_head? hc)) hcommand
  rw [tag?, as, lit_append, hread]
  cases hdescr : t.descr with
  | none =>
    have hshown := ht.nested hdescr
    cases t
    simp_all
  | some d =>
    cases t
    simp_all

/-- **The parts of a tag are read as they are written.** -/
theorem anywhere_tag?_print : anywhere tag? (l.print t) = some t := by
  refine anywhere_append ?_ (tag?_print ht hl)
  rintro v (_ | ⟨b, w⟩) hw hbefore
  · exact absurd rfl hw
  · -- no command begins before the tag
    rw [tag?, as, Option.map_eq_none_iff]
    refine lit_eq_none '@' rfl ?_
    intro hhead
    obtain rfl : b = '@' := by simpa using hhead
    exact hl.before (by rw [hbefore]; simp)

end Print

/-- **What a tag means.**  A tag is written on a line without another command before it, with a word
for its name, with decimal numerals of any length for its columns, and with blanks around these.  It
is read exactly if the number of its first column is below 2 ^ 64: it has the name and this column,
and of the other two columns those that are written with a number below 2 ^ 64. -/
theorem parse?_printTag {t : Tag} {l : Tag.Layout} (ht : t.IsPrintable) (hl : l.Fits) :
    parse? (l.print t) =
      if decimal t.value < 2 ^ 64 then
        some
          { name := String.ofList t.name
            value := decimal t.value
            descr := (t.descr.map decimal).filter (· < 2 ^ 64)
            shown := (t.shown.map decimal).filter (· < 2 ^ 64) }
      else none := by
  rw [parse?, anywhere_tag?_print ht hl, Option.bind_some, numeral?_eq ht.value,
    bind_numeral? ht.descr, bind_numeral? ht.shown]
  split <;> rfl

/-- A tag with zeros in front of its numbers, the second of which is 2 ^ 64. -/
def weaponTag : Tag where
  name := "Größe_2".toList
  value := "007".toList
  descr := some "018446744073709551616".toList
  shown := some "00".toList

/-- Its layout, with blanks wherever they may stand. -/
def weaponLayout : Tag.Layout where
  before := "\t * see ".toList
  afterCommand := "\t ".toList
  afterName := " ".toList
  afterValue := " ".toList
  beforeDescr := "".toList
  afterDescr := "\t".toList
  beforeShown := "  ".toList
  afterShown := " ".toList
  after := ") and @luaenum Other(1)".toList

theorem parse?_weaponTag :
    weaponTag.IsPrintable ∧ weaponLayout.Fits ∧
      parse? ("\t * see @luaenum\t Größe_2 (007 ,018446744073709551616\t,  00 )) and " ++
        "@luaenum Other(1)").toList =
          some { name := "Größe_2", value := 7, descr := none, shown := some 0 } := by
  have ht : weaponTag.IsPrintable := by
    refine ⟨by decide +kernel, by decide +kernel, ?_, ?_, nofun⟩
    · rintro d ⟨⟩
      decide +kernel
    · rintro i ⟨⟩
      decide +kernel
  have hl : weaponLayout.Fits := by
    refine ⟨by decide +kernel, by decide +kernel, ?_, ?_, ?_, ?_, ?_, ?_⟩
    all_goals exact List.all_eq_true.mp (by decide +kernel)
  refine ⟨ht, hl, ?_⟩
  have hread := parse?_printTag ht hl
  have hvalue : decimal weaponTag.value = 7 := by decide +kernel
  have hdescr : (weaponTag.descr.map decimal).filter (· < 2 ^ 64) = none := by decide +kernel
  have hshown : (weaponTag.shown.map decimal).filter (· < 2 ^ 64) = some 0 := by decide +kernel
  rw [hvalue, hdescr, hshown] at hread
  exact hread

end EnumSpec

end BindingDocs
