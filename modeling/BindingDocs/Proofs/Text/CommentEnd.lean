import BindingDocs.Proofs.Text.Search
import BindingDocs.Text.Case
import BindingDocs.Text.Word

/-!
# Texts that do not close a comment

A text `StaysOpen` if the two characters that end a block comment do not occur in it.  Pieces of
such a text are of this kind; a text put together from pieces is so if, at each seam, either the
left piece does not end in a star or the right one does not begin with a slash.

## Main definitions

* `StaysOpen` — no comment ends inside the text.

## Main results

* `splitFirst?_of_staysOpen` — where the first end of a comment is found.
* `staysOpen_append_of_left`, `staysOpen_append_of_right` — putting pieces together.
* `append_closer_inj` — **a comment put together from texts that stay open ends once.**
* `star_not_mem_of_word`, `star_not_mem_lower` — names, and names in lower case.
-/

namespace BindingDocs.Text

variable {w s t b r : List Char}

/-! ### Texts that stay open -/

/-- No comment ends inside the text. -/
def StaysOpen (s : List Char) : Prop := ¬ "*/".toList <:+: s

theorem staysOpen_iff : StaysOpen s ↔ contains "*/".toList s = false := by
  rw [StaysOpen, ← contains_iff_isInfix, Bool.not_eq_true]

instance (s : List Char) : Decidable (StaysOpen s) := decidable_of_iff _ staysOpen_iff.symm

theorem staysOpen_of_isInfix (h : t <:+: s) (hs : StaysOpen s) : StaysOpen t :=
  fun ht => hs (ht.trans h)

/-- A comment that ends in a text put together from two ends in one of them or at the seam. -/
theorem staysOpen_append (hs : StaysOpen s) (ht : StaysOpen t)
    (hseam : s.getLast? ≠ some '*' ∨ t.head? ≠ some '/') : StaysOpen (s ++ t) := by
  rintro ⟨b, r, h⟩
  rw [List.append_assoc] at h
  rcases List.append_eq_append_iff.mp h with ⟨a, rfl, ha⟩ | ⟨c, rfl, hc⟩
  · -- the comment end begins in the left text
    rcases a with _ | ⟨c, _ | ⟨c', a⟩⟩
    · exact ht ⟨[], r, by simpa using ha⟩
    · -- exactly at the seam
      simp only [String.reduceToList, List.cons_append, List.nil_append, List.cons.injEq] at ha
      obtain ⟨rfl, rfl⟩ := ha
      simp at hseam
    · simp only [String.reduceToList, List.cons_append, List.nil_append, List.cons.injEq] at ha
      obtain ⟨rfl, rfl, -⟩ := ha
      exact hs ⟨b, a, by simp⟩
  · exact ht ⟨c, r, by rw [List.append_assoc, hc]⟩

/-- A seam after anything but a star is safe. -/
theorem staysOpen_append_of_left (hlast : s.getLast? ≠ some '*') (hs : StaysOpen s)
    (ht : StaysOpen t) : StaysOpen (s ++ t) :=
  staysOpen_append hs ht (Or.inl hlast)

/-- A seam before anything but a slash is safe. -/
theorem staysOpen_append_of_right (hhead : t.head? ≠ some '/') (hs : StaysOpen s)
    (ht : StaysOpen t) : StaysOpen (s ++ t) :=
  staysOpen_append hs ht (Or.inr hhead)

/-- The first end of a comment after a text that stays open is the one that is written there. -/
theorem splitFirst?_of_staysOpen (h : StaysOpen (b ++ ['*'])) (r : List Char) :
    splitFirst? "*/".toList (b ++ ("*/".toList ++ r)) = some (b, r) :=
  splitFirst?_append (by decide) h r

/-- Two ends of comments in one text do not overlap, so the first of them stands in front of the
other. -/
theorem closer_append_eq {a r' : List Char} (h : "*/".toList ++ r = a ++ ("*/".toList ++ r')) :
    (a = [] ∧ r = r') ∨ ("*/".toList <:+: a ∧ "*/".toList <:+: r) := by
  rcases a with _ | ⟨c, _ | ⟨d, a⟩⟩
  · exact Or.inl ⟨rfl, List.append_cancel_left h⟩
  · -- the slash of the one would be the star of the other
    simp at h
  · right
    simp only [String.reduceToList, List.cons_append, List.nil_append, List.cons.injEq] at h
    obtain ⟨rfl, rfl, rfl⟩ := h
    exact ⟨⟨[], a, rfl⟩, ⟨a, r', by simp⟩⟩

/-- **The only end of a comment** is the one between two texts that stay open. -/
theorem append_closer_inj {b' r' : List Char} (hb : StaysOpen b) (hr : StaysOpen r)
    (h : b ++ ("*/".toList ++ r) = b' ++ ("*/".toList ++ r')) : b' = b ∧ r' = r := by
  rcases List.append_eq_append_iff.mp h with ⟨a, rfl, ha⟩ | ⟨a, rfl, ha⟩
  · rcases closer_append_eq ha with ⟨rfl, rfl⟩ | ⟨-, hlater⟩
    · simp
    · exact absurd hlater hr
  · rcases closer_append_eq ha with ⟨rfl, rfl⟩ | ⟨hearlier, -⟩
    · simp
    · exact absurd (hearlier.trans (List.suffix_append b' a).isInfix) hb

/-! ### Names -/

/-- A text without stars stays open. -/
theorem staysOpen_of_not_mem (h : '*' ∉ s) : StaysOpen s := by
  rintro ⟨b, r, rfl⟩
  simp at h

/-- A name holds no star. -/
theorem star_not_mem_of_word (h : ∀ c ∈ s, isWord c = true) : '*' ∉ s := by
  intro hmem
  exact absurd (h '*' hmem) (by decide)

/-- Trimming keeps a part of the text. -/
theorem isInfix_trim (s : List Char) : trim s <:+: s := by
  have hend : trim s <+: s.dropWhile isBlank := by
    have := (List.dropWhile_suffix isBlank (l := (s.dropWhile isBlank).reverse)).reverse
    simpa [trim, trimBy, trimEndBy] using this
  exact hend.isInfix.trans (List.dropWhile_suffix _).isInfix

/-- No run of capitals ends in the lower half of the ASCII characters. -/
theorem lowerRuns_above : ∀ run ∈ lowerRuns, 47 < (run.1 : Int) + run.2.2.2 := by decide +kernel

/-- The lower case of a code point above the punctuation stays there. -/
theorem lowerIn_above {n : Nat} (hn : 47 < n) {runs : List (Nat × Nat × Nat × Int)}
    (hruns : ∀ run ∈ runs, 47 < (run.1 : Int) + run.2.2.2) : 47 < lowerIn n runs := by
  induction runs with
  | nil => exact hn
  | cons run runs ih =>
    obtain ⟨lo, hi, stride, delta⟩ := run
    have hrun := hruns _ List.mem_cons_self
    rw [lowerIn]
    split
    · next hin =>
      simp only [Bool.and_eq_true, decide_eq_true_eq] at hin
      simp only [Int.ofNat_eq_natCast] at hrun ⊢
      omega
    · exact ih fun run h => hruns run (List.mem_cons_of_mem _ h)

/-- The star is the character of its own code point only. -/
theorem eq_of_ofNat_eq_star {n : Nat} (h : Char.ofNat n = '*') : n = 42 := by
  by_cases hvalid : n.isValidChar
  · rw [Char.ofNat, dif_pos hvalid] at h
    exact congrArg Char.toNat h
  · rw [Char.ofNat, dif_neg hvalid] at h
    exact absurd (congrArg Char.toNat h) (by decide)

/-- Lower-casing makes no star out of another character. -/
theorem star_not_mem_lowerChar {c : Char} (hc : c ≠ '*') : '*' ∉ lowerChar c := by
  unfold lowerChar
  split
  · next hascii =>
    -- an ASCII character is one of finitely many
    have hall : ∀ n < 128, (Char.ofNat n).toLower = '*' → Char.ofNat n = '*' := by decide
    have hself := hall c.toNat hascii
    rw [Char.ofNat_toNat] at hself
    simpa using fun h => hc (hself h.symm)
  · next hascii =>
    split
    · decide
    · have habove := lowerIn_above (n := c.toNat) (by omega) lowerRuns_above
      rw [List.mem_singleton]
      intro h
      have := eq_of_ofNat_eq_star h.symm
      omega

/-- Lower-casing makes no star. -/
theorem star_not_mem_lower (h : '*' ∉ s) : '*' ∉ lower s := by
  have hafter : ∀ before, '*' ∉ lowerAfter before s := by
    induction s with
    | nil => simp [lowerAfter]
    | cons c s ih =>
      intro before
      simp only [List.mem_cons, not_or] at h
      simp only [lowerAfter, List.mem_append, not_or]
      refine ⟨?_, ih h.2 _⟩
      split
      · split <;> decide
      · exact star_not_mem_lowerChar (Ne.symm h.1)
  exact hafter []

end BindingDocs.Text
