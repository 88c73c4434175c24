import BindingDocs.Text.Blank
import BindingDocs.Text.Word

/-!
# Words and blanks

Texts of word characters and texts of blanks are told apart by their first character, since no
character is both.  So a line that is put together from words with blanks between them can be taken
apart in one way only.

## Main definitions

* `IsRun` — a nonempty text of characters of one class.

## Main results

* `isWord_of_isBlank` — no blank is a word character.
* `isWord_of_isDecimal` — every decimal digit is one.
* `exists_append_of_run` — a run that begins a text ends inside the first run of this text.
* `trim_append_blanks` — blanks behind a text are trimmed away.
-/

namespace BindingDocs.Text

/-- A nonempty text of characters of the class `p`. -/
def IsRun (p : Char → Bool) (s : List Char) : Prop := s ≠ [] ∧ ∀ c ∈ s, p c = true

instance (p : Char → Bool) (s : List Char) : Decidable (IsRun p s) :=
  decidable_of_iff (s ≠ [] ∧ s.all p = true) (and_congr_right fun _ => List.all_eq_true)

/-- The ranges of blanks and of word characters have no code point in common. -/
theorem blankRanges_disjoint :
    ∀ b ∈ blankRanges, ∀ w ∈ wordRanges, b.2 < w.1 ∨ w.2 < b.1 := by decide +kernel

/-- No ASCII blank is a letter, a digit or an underscore. -/
theorem not_isAlphanum_of_blank : ∀ n < 128, inRanges n blankRanges = true →
    ((Char.ofNat n).isAlphanum || Char.ofNat n == '_') = false := by decide +kernel

/-- **No blank is a word character.** -/
theorem isWord_of_isBlank {c : Char} (h : isBlank c = true) : isWord c = false := by
  rw [isBlank] at h
  unfold isWord
  split
  · next hascii =>
    have hnot := not_isAlphanum_of_blank c.toNat hascii h
    rwa [Char.ofNat_toNat] at hnot
  · rw [← Bool.not_eq_true, inRanges_iff]
    rintro ⟨w, hw, hlo, hhi⟩
    obtain ⟨b, hb, hblo, hbhi⟩ := (inRanges_iff _ _).mp h
    have hdisjoint := blankRanges_disjoint b hb w hw
    omega

theorem isBlank_of_isWord {c : Char} (h : isWord c = true) : isBlank c = false := by
  rw [← Bool.not_eq_true]
  intro hblank
  rw [isWord_of_isBlank hblank] at h
  cases h

/-- The ranges of decimal digits lie in those of word characters. -/
theorem decimalRanges_covered :
    ∀ d ∈ decimalRanges, ∃ w ∈ wordRanges, w.1 ≤ d.1 ∧ d.2 ≤ w.2 := by decide +kernel

/-- **Decimal digits are word characters.** -/
theorem isWord_of_isDecimal {c : Char} (h : isDecimal c = true) : isWord c = true := by
  unfold isDecimal at h
  unfold isWord
  split at h
  · next hascii =>
    rw [if_pos hascii]
    simp [Char.isAlphanum, h]
  · next hascii =>
    obtain ⟨d, hd, hlo, hhi⟩ := (inRanges_iff _ _).mp h
    obtain ⟨w, hw, hwlo, hwhi⟩ := decimalRanges_covered d hd
    rw [if_neg hascii, inRanges_iff]
    exact ⟨w, hw, by omega, by omega⟩

theorem isDecimal_of_isDigit {c : Char} (h : c.isDigit = true) : isDecimal c = true := by
  have hascii : c.toNat < 128 := by
    have hnine : c.toNat ≤ '9'.toNat := (Char.isDigit_iff_toNat.mp h).2
    exact Nat.lt_of_le_of_lt hnine (by decide)
  rw [isDecimal, if_pos hascii, h]

section Runs

variable {p : Char → Bool} {r s t y : List Char}

/-- A text of one class holds no character outside of it. -/
theorem not_mem_of_class {c : Char} (hs : ∀ c ∈ s, p c = true) (hc : p c = false) : c ∉ s := by
  intro hmem
  rw [hs c hmem] at hc
  cases hc

/-- The first character of a run is of its class. -/
theorem IsRun.of_head? {c : Char} (h : IsRun p s) (hc : (s ++ t).head? = some c) : p c = true := by
  obtain ⟨b, s, rfl⟩ := List.exists_cons_of_ne_nil h.1
  obtain rfl : b = c := by simpa using hc
  exact h.2 b List.mem_cons_self

/-- **A run that begins a text ends inside the first run of this text**, if another character
follows that one. -/
theorem exists_append_of_run (hr : ∀ c ∈ r, p c = true)
    (hy : ∀ c, y.head? = some c → p c = false) (h : s ++ y = r ++ t) :
    ∃ s', s = r ++ s' ∧ t = s' ++ y := by
  rcases List.append_eq_append_iff.mp h with ⟨u, rfl, hy'⟩ | ⟨s', hs, ht⟩
  · cases u with
    | nil => exact ⟨[], by simp, by simpa using hy'.symm⟩
    | cons c u =>
      have hc := hy c (by rw [hy']; rfl)
      rw [hr c (by simp)] at hc
      cases hc
  · exact ⟨s', hs, ht⟩

end Runs

/-- **Blanks behind a text are trimmed away**, and nothing else if the text holds none. -/
theorem trim_append_blanks {s b : List Char} (hs : ∀ c ∈ s, isBlank c = false)
    (hb : ∀ c ∈ b, isBlank c = true) : trim (s ++ b) = s := by
  have hkeep : ∀ {t : List Char}, (∀ c ∈ t, isBlank c = false) → t.dropWhile isBlank = t := by
    intro t ht
    cases t with
    | nil => rfl
    | cons c t => rw [List.dropWhile_cons_of_neg (by simp [ht c])]
  have hend : ((s ++ b).reverse.dropWhile isBlank).reverse = s := by
    rw [List.reverse_append,
      List.dropWhile_append_of_pos fun c hc => hb c (List.mem_reverse.mp hc),
      hkeep fun c hc => hs c (List.mem_reverse.mp hc), List.reverse_reverse]
  rw [trim, trimBy, trimEndBy]
  cases s with
  | nil =>
    have hall : (b ++ []).dropWhile isBlank = [] := List.dropWhile_append_of_pos hb
    rw [List.append_nil] at hall
    simp [hall]
  | cons c s =>
    rw [List.cons_append, List.dropWhile_cons_of_neg (by simp [hs c]), ← List.cons_append, hend]

end BindingDocs.Text
