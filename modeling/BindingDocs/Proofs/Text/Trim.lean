import BindingDocs.Text.Search

/-!
# Texts without blanks at their ends

A text is made up of blanks, what is left of it when it is trimmed, and blanks again.  What is left
begins and ends with no blank, and it is the only part of the text that does so and leaves nothing
but blanks.

## Main definitions

* `IsTrimmed` — a text that neither begins nor ends with a blank.

## Main results

* `eq_trim`, `trim_eq_of_eq` — **the parts of a text around what is left of it.**
* `trim_append_of_left` — blanks in front of a text.
* `trim_append_of_right` — blanks behind a text.
* `filter_trim` — what is no blank is kept.
* `exists_trim_append` — a text in front of a text.
* `exists_trim_around` — **a text between two others.**
-/

namespace BindingDocs.Text

/-- A text that neither begins nor ends with a blank. -/
structure IsTrimmed (s : List Char) : Prop where
  head : ∀ c, s.head? = some c → isBlank c = false
  last : ∀ c, s.getLast? = some c → isBlank c = false

/-- A text of blanks. -/
def IsBlankText (s : List Char) : Prop := ∀ c ∈ s, isBlank c = true

-- the characters of the text are checked, not all characters that there are
instance (s : List Char) : Decidable (IsBlankText s) :=
  List.decidableBAll (fun c => isBlank c = true) s

theorem isTrimmed_iff {s : List Char} : IsTrimmed s ↔
    s.head?.all (!isBlank ·) = true ∧ s.getLast?.all (!isBlank ·) = true := by
  simp only [Option.all_eq_true, Bool.not_eq_true']
  exact ⟨fun h => ⟨h.head, h.last⟩, fun h => ⟨h.1, h.2⟩⟩

instance (s : List Char) : Decidable (IsTrimmed s) := decidable_of_iff _ isTrimmed_iff.symm

section Trim

variable {a b s t : List Char}

theorem IsBlankText.append (ha : IsBlankText a) (hb : IsBlankText b) : IsBlankText (a ++ b) :=
  fun c hc => (List.mem_append.mp hc).elim (ha c) (hb c)

theorem isBlankText_takeWhile (s : List Char) : IsBlankText (s.takeWhile isBlank) :=
  fun c hc => List.all_eq_true.mp List.all_takeWhile c hc

/-- A text that begins with no blank keeps its beginning. -/
theorem dropWhile_append_of_head (ha : IsBlankText a)
    (hs : ∀ c, s.head? = some c → isBlank c = false) : (a ++ s).dropWhile isBlank = s := by
  rw [List.dropWhile_append_of_pos ha]
  cases s with
  | nil => rfl
  | cons c s => rw [List.dropWhile_cons_of_neg (by simp [hs c rfl])]

/-- **What is left of a text** is the part between blanks that begins and ends with none. -/
theorem trim_eq_of_eq (ha : IsBlankText a) (hb : IsBlankText b) (ht : IsTrimmed t)
    (h : s = a ++ (t ++ b)) : trim s = t := by
  have hbreverse : IsBlankText b.reverse := fun c hc => hb c (List.mem_reverse.mp hc)
  have hlast : ∀ c, t.reverse.head? = some c → isBlank c = false := by
    rw [List.head?_reverse]
    exact ht.last
  rw [trim, trimBy, trimEndBy, h]
  cases t with
  | nil =>
    have hall : (a ++ b).dropWhile isBlank = [] := by
      have hblank : (b ++ []).dropWhile isBlank = [] := List.dropWhile_append_of_pos hb
      rwa [List.dropWhile_append_of_pos ha, ← List.append_nil b]
    rw [List.nil_append, hall]
    rfl
  | cons c t =>
    rw [dropWhile_append_of_head ha fun d hd => ht.head d (by simpa using hd), List.reverse_append,
      dropWhile_append_of_head hbreverse hlast, List.reverse_reverse]

/-- What is left of a text begins and ends with no blank. -/
theorem isTrimmed_trim (s : List Char) : IsTrimmed (trim s) := by
  have hhead (u : List Char) : ∀ c, (u.dropWhile isBlank).head? = some c → isBlank c = false := by
    intro c hc
    have hnot := List.head?_dropWhile_not isBlank u
    rw [hc] at hnot
    exact hnot
  rw [trim, trimBy, trimEndBy]
  constructor
  · intro c hc
    -- the beginning of what was not trimmed at the end
    obtain ⟨b, hb⟩ := (List.dropWhile_suffix isBlank (l := (s.dropWhile isBlank).reverse)).reverse
    rw [List.reverse_reverse] at hb
    refine hhead s c ?_
    rw [← hb, List.head?_append, hc]
    rfl
  · intro c hc
    rw [List.getLast?_reverse] at hc
    exact hhead _ c hc

/-- **The parts of a text.** -/
theorem eq_trim (s : List Char) :
    ∃ b, IsBlankText b ∧ s = s.takeWhile isBlank ++ (trim s ++ b) := by
  refine ⟨((s.dropWhile isBlank).reverse.takeWhile isBlank).reverse, ?_, ?_⟩
  · intro c hc
    exact isBlankText_takeWhile _ c (List.mem_reverse.mp hc)
  · rw [trim, trimBy, trimEndBy, ← List.reverse_append, List.takeWhile_append_dropWhile,
      List.reverse_reverse, List.takeWhile_append_dropWhile]

theorem trim_eq_nil_iff : trim s = [] ↔ IsBlankText s := by
  constructor
  · intro h
    obtain ⟨b, hb, heq⟩ := eq_trim s
    rw [h, List.nil_append] at heq
    rw [heq]
    exact (isBlankText_takeWhile s).append hb
  · intro h
    exact trim_eq_of_eq h (b := []) (List.forall_mem_nil _) ⟨nofun, nofun⟩ (by simp)

/-- Blanks in front of a text are trimmed away. -/
theorem trim_append_of_left (ha : IsBlankText a) (s : List Char) : trim (a ++ s) = trim s := by
  obtain ⟨b, hb, heq⟩ := eq_trim s
  refine trim_eq_of_eq (ha.append (isBlankText_takeWhile s)) hb (isTrimmed_trim s) ?_
  rw [List.append_assoc, ← heq]

/-- Blanks behind a text are trimmed away. -/
theorem trim_append_of_right (hb : IsBlankText b) (s : List Char) : trim (s ++ b) = trim s := by
  obtain ⟨b', hb', heq⟩ := eq_trim s
  refine trim_eq_of_eq (isBlankText_takeWhile s) (hb'.append hb) (isTrimmed_trim s) ?_
  calc s ++ b = (s.takeWhile isBlank ++ (trim s ++ b')) ++ b := congrArg (· ++ b) heq
    _ = s.takeWhile isBlank ++ (trim s ++ (b' ++ b)) := by simp only [List.append_assoc]

/-- Only blanks are trimmed away. -/
theorem filter_trim (s : List Char) : (trim s).filter (!isBlank ·) = s.filter (!isBlank ·) := by
  have hblank {t : List Char} (ht : IsBlankText t) : t.filter (!isBlank ·) = [] := by
    rw [List.filter_eq_nil_iff]
    intro c hc
    simp [ht c hc]
  obtain ⟨b, hb, heq⟩ := eq_trim s
  calc (trim s).filter (!isBlank ·)
    _ = (s.takeWhile isBlank ++ (trim s ++ b)).filter (!isBlank ·) := by
      rw [List.filter_append, List.filter_append, hblank (isBlankText_takeWhile s), hblank hb,
        List.nil_append, List.append_nil]
    _ = s.filter (!isBlank ·) := by rw [← heq]

theorem isTrimmed_of_not_isBlank (h : ∀ c ∈ s, isBlank c = false) : IsTrimmed s where
  head := fun c hc => h c (List.mem_of_mem_head? hc)
  last := fun c hc => h c (List.mem_of_getLast? hc)

theorem IsTrimmed.append (hs : IsTrimmed s) (ht : IsTrimmed t) (hsne : s ≠ []) (htne : t ≠ [])
    (b : List Char) : IsTrimmed (s ++ (b ++ t)) where
  head := by
    intro c hc
    obtain ⟨d, r, rfl⟩ := List.exists_cons_of_ne_nil hsne
    exact hs.head c hc
  last := by
    intro c hc
    have hlast := List.getLast?_eq_some_getLast htne
    rw [List.getLast?_append, List.getLast?_append, hlast, Option.some_or, Option.some_or] at hc
    exact ht.last c (hlast.trans hc)

/-- **A text in front of a text** that are both not blank. -/
theorem exists_trim_append (hs : trim s ≠ []) (ht : trim t ≠ []) :
    ∃ between, trim (s ++ t) = trim s ++ (between ++ trim t) := by
  obtain ⟨a, ha, hseq⟩ := eq_trim s
  obtain ⟨b, hb, hteq⟩ := eq_trim t
  refine ⟨a ++ t.takeWhile isBlank, trim_eq_of_eq (isBlankText_takeWhile s) hb
    ((isTrimmed_trim s).append (isTrimmed_trim t) hs ht _) ?_⟩
  calc s ++ t = (s.takeWhile isBlank ++ (trim s ++ a)) ++ (t.takeWhile isBlank ++ (trim t ++ b)) :=
      by rw [← hseq, ← hteq]
    _ = _ := by simp only [List.append_assoc]

/-- **A text between two others** that neither begins nor ends with a blank stays whole. -/
theorem exists_trim_around (ht : IsTrimmed t) (hne : t ≠ []) (a b : List Char) :
    ∃ a' b', trim (a ++ (t ++ b)) = a' ++ (t ++ b') ∧ trim a' = trim a ∧ trim b' = trim b ∧
      b' <+: b := by
  obtain ⟨a', hablank, ha, hahead⟩ : ∃ a', IsBlankText (a.takeWhile isBlank) ∧
      a = a.takeWhile isBlank ++ a' ∧ ∀ c, a'.head? = some c → isBlank c = false := by
    refine ⟨a.dropWhile isBlank, isBlankText_takeWhile a, ?_, fun c hc => ?_⟩
    · exact List.takeWhile_append_dropWhile.symm
    · have hnot := List.head?_dropWhile_not isBlank a
      rwa [hc] at hnot
  obtain ⟨b', e, heblank, hb, hblast⟩ : ∃ b' e, IsBlankText e ∧ b = b' ++ e ∧
      ∀ c, b'.getLast? = some c → isBlank c = false := by
    refine ⟨(b.reverse.dropWhile isBlank).reverse, (b.reverse.takeWhile isBlank).reverse,
      fun c hc => isBlankText_takeWhile _ c (List.mem_reverse.mp hc), ?_, fun c hc => ?_⟩
    · rw [← List.reverse_append, List.takeWhile_append_dropWhile, List.reverse_reverse]
    · have hnot := List.head?_dropWhile_not isBlank b.reverse
      rw [List.getLast?_reverse] at hc
      rwa [hc] at hnot
  refine ⟨a', b', trim_eq_of_eq hablank heblank ⟨fun c hc => ?_, fun c hc => ?_⟩ ?_, ?_, ?_,
    ⟨e, hb.symm⟩⟩
  · obtain ⟨d, r, rfl⟩ := List.exists_cons_of_ne_nil hne
    cases a' with
    | nil => exact ht.head c hc
    | cons d a' => exact hahead c hc
  · rw [List.getLast?_append, List.getLast?_append] at hc
    cases hlast : b'.getLast? with
    | none =>
      rw [hlast, Option.none_or, List.getLast?_eq_some_getLast hne, Option.some_or] at hc
      exact ht.last c ((List.getLast?_eq_some_getLast hne).trans hc)
    | some d =>
      rw [hlast, Option.some_or, Option.some_or] at hc
      exact hblast c (hlast.trans hc)
  · calc a ++ (t ++ b) = (a.takeWhile isBlank ++ a') ++ (t ++ (b' ++ e)) := by rw [← ha, ← hb]
      _ = a.takeWhile isBlank ++ (a' ++ (t ++ b') ++ e) := by simp only [List.append_assoc]
  · rw [ha, trim_append_of_left hablank]
  · rw [hb, trim_append_of_right heblank]

end Trim

end BindingDocs.Text
