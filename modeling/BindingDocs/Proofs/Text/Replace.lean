import BindingDocs.Proofs.Text.Search

/-!
# Replacing a word

Replacing a word by another keeps everything around its occurrences.  A character that the word does
not hold keeps what is before it and what is after it apart, and a text that has no character of the
new word is not made by a replacement.

A text whose first character the two words do not hold, and which does not hold theirs, is found
where it was found before, also across the seam of two texts.  Often the two words begin with the
same character, which they hold only once.  Then no occurrence is made at a seam, and the replaced
word is gone afterwards.

## Main results

* `replace_induction` — induction along the occurrences of a word.
* `replace_append_cons` — the parts of a text around a character that the word does not hold.
* `replace_eq_self`, `filter_replace` — what a replacement keeps.
* `isInfix_of_isInfix_replace` — what is found after a replacement was found before.
* `isInfix_flatten_replace_iff` — what is found before and after replacements.
* `not_isInfix_replace` — the replaced word is gone.
* `pieces_replace` — the lines after a replacement.
-/

namespace BindingDocs.Text

section Replace

variable {w v : List Char}

/-- The characters that are skipped take no part. -/
theorem substituteFrom_eq_drop (m : List Char → Option Nat) (n : Nat) (s : List Char) :
    substituteFrom m v n s = substituteFrom m v 0 (s.drop n) := by
  induction s generalizing n with
  | nil => cases n <;> rfl
  | cons c s ih =>
    cases n with
    | zero => rfl
    | succ n => rw [substituteFrom, ih, List.drop_succ_cons]

/-- A text in which nothing is matched is kept. -/
theorem substitute_eq_self {m : List Char → Option Nat} {s : List Char}
    (h : ∀ t, t <:+ s → m t = none) : substitute m v s = s := by
  induction s with
  | nil => rfl
  | cons c s ih =>
    have hrest := ih fun t ht => h t (ht.trans (List.suffix_cons c s))
    rw [substitute] at hrest ⊢
    rw [substituteFrom, h _ List.suffix_rfl]
    exact congrArg (c :: ·) hrest

theorem replace_nil (hw : w ≠ []) : replace w v [] = [] := by
  simp [replace, hw, substitute, substituteFrom]

/-- An occurrence at the beginning is replaced. -/
theorem replace_append (hw : w ≠ []) (s : List Char) :
    replace w v (w ++ s) = v ++ replace w v s := by
  cases w with
  | nil => exact absurd rfl hw
  | cons a w =>
    have hbegins : beginsWith (a :: w) (a :: (w ++ s)) = true :=
      beginsWith_iff_isPrefix.mpr ⟨s, rfl⟩
    simp [replace, substitute, substituteFrom, hbegins, substituteFrom_eq_drop _ w.length]

/-- A character at which no occurrence begins is kept. -/
theorem replace_cons {c : Char} {s : List Char} (h : ¬ w <+: c :: s) :
    replace w v (c :: s) = c :: replace w v s := by
  have hw : w ≠ [] := by
    rintro rfl
    exact h List.nil_prefix
  have hbegins : ¬ beginsWith w (c :: s) = true := fun hb => h (beginsWith_iff_isPrefix.mp hb)
  simp [replace, hw, substitute, substituteFrom, hbegins]

/-- **Induction along the occurrences of a word**, in the order in which they are replaced. -/
theorem replace_induction {P : List Char → Prop} (hw : w ≠ []) (hnil : P [])
    (hoccurs : ∀ s, P s → P (w ++ s)) (hkeep : ∀ c s, ¬ w <+: c :: s → P s → P (c :: s))
    (s : List Char) : P s := by
  induction hn : s.length using Nat.strongRecOn generalizing s with
  | _ n ih =>
    cases s with
    | nil => exact hnil
    | cons c s =>
      rw [List.length_cons] at hn
      by_cases hbegins : w <+: c :: s
      · obtain ⟨r, hr⟩ := hbegins
        have hlength : w.length + r.length = s.length + 1 := by
          simpa using congrArg List.length hr
        have hpos : 0 < w.length := List.length_pos_iff.mpr hw
        rw [← hr]
        exact hoccurs r (ih r.length (by omega) r rfl)
      · exact hkeep c s hbegins (ih s.length (by omega) s rfl)

/-- A character that no occurrence holds keeps what is before it and what is after it apart. -/
theorem replace_append_cons (hw : w ≠ []) {c : Char} (hc : c ∉ w) (s t : List Char) :
    replace w v (s ++ c :: t) = replace w v s ++ c :: replace w v t := by
  have hnot (u : List Char) : ¬ w <+: c :: u := by
    intro hbegins
    obtain ⟨d, w, rfl⟩ := List.exists_cons_of_ne_nil hw
    obtain ⟨rfl, -⟩ := List.cons_prefix_cons.mp hbegins
    exact hc List.mem_cons_self
  induction s using replace_induction hw with
  | hnil => rw [replace_nil hw, List.nil_append, List.nil_append, replace_cons (hnot t)]
  | hoccurs s ih =>
    rw [replace_append hw, List.append_assoc, replace_append hw, ih, List.append_assoc]
  | hkeep d s hbegins ih =>
    have hbegins' : ¬ w <+: d :: (s ++ c :: t) := by
      rintro ⟨r, hr⟩
      obtain ⟨a, ha, -⟩ := append_cons_eq_append hc (a := d :: s) hr
      exact hbegins ⟨a, ha.symm⟩
    rw [List.cons_append, replace_cons hbegins', ih, replace_cons hbegins, List.cons_append]

/-- A text without the first character of the word is kept. -/
theorem replace_append_of_not_mem {a : Char} {w v u : List Char} (ha : a ∉ u) (s : List Char) :
    replace (a :: w) v (u ++ s) = u ++ replace (a :: w) v s := by
  induction u with
  | nil => rfl
  | cons c u ih =>
    rw [List.mem_cons, not_or] at ha
    rw [List.cons_append, replace_cons fun h => ha.1 (List.cons_prefix_cons.mp h).1, ih ha.2,
      List.cons_append]

/-- A text that does not hold the word is kept. -/
theorem replace_eq_self (hw : w ≠ []) {s : List Char} (h : ¬ w <:+: s) : replace w v s = s := by
  induction s with
  | nil => exact replace_nil hw
  | cons c s ih =>
    rw [List.infix_cons_iff, not_or] at h
    rw [replace_cons h.1, ih h.2]

/-- Two words with the same characters of a class leave the characters of this class as they
are. -/
theorem filter_replace (hw : w ≠ []) {p : Char → Bool} (h : v.filter p = w.filter p)
    (s : List Char) : (replace w v s).filter p = s.filter p := by
  induction s using replace_induction hw with
  | hnil => rw [replace_nil hw]
  | hoccurs s ih => rw [replace_append hw, List.filter_append, List.filter_append, h, ih]
  | hkeep c s hbegins ih => rw [replace_cons hbegins, List.filter_cons, List.filter_cons, ih]

theorem mem_replace (hw : w ≠ []) {c : Char} {s : List Char} (h : c ∈ replace w v s) :
    c ∈ v ∨ c ∈ s := by
  induction s using replace_induction hw with
  | hnil => exact Or.inr (by rwa [replace_nil hw] at h)
  | hoccurs s ih =>
    rw [replace_append hw, List.mem_append] at h
    exact h.elim Or.inl fun h => (ih h).imp_right (List.mem_append_right w)
  | hkeep d s hbegins ih =>
    rw [replace_cons hbegins, List.mem_cons] at h
    rcases h with rfl | h
    · exact Or.inr List.mem_cons_self
    · exact (ih h).imp_right (List.mem_cons_of_mem d)

theorem head?_replace (hw : w ≠ []) (hv : v ≠ []) {c : Char} {s : List Char}
    (h : (replace w v s).head? = some c) : c ∈ v ∨ s.head? = some c := by
  induction s using replace_induction hw with
  | hnil => exact Or.inr (by rwa [replace_nil hw] at h)
  | hoccurs s ih =>
    rw [replace_append hw] at h
    obtain ⟨d, v, rfl⟩ := List.exists_cons_of_ne_nil hv
    obtain rfl : d = c := by simpa using h
    exact Or.inl List.mem_cons_self
  | hkeep d s hbegins ih =>
    rw [replace_cons hbegins] at h
    exact Or.inr h

theorem replace_eq_nil (hw : w ≠ []) (hv : v ≠ []) {s : List Char} (h : replace w v s = []) :
    s = [] := by
  induction s using replace_induction hw with
  | hnil => rfl
  | hoccurs s ih =>
    rw [replace_append hw] at h
    exact absurd (List.append_eq_nil_iff.mp h).1 hv
  | hkeep d s hbegins ih =>
    rw [replace_cons hbegins] at h
    cases h

/-- A kind of character that the replacement has is not lost. -/
theorem exists_mem_replace (hw : w ≠ []) {p : Char → Prop} (hv : ∃ c ∈ v, p c) {s : List Char}
    (h : ∃ c ∈ s, p c) : ∃ c ∈ replace w v s, p c := by
  induction s using replace_induction hw with
  | hnil => rwa [replace_nil hw]
  | hoccurs s ih =>
    obtain ⟨c, hc, hp⟩ := hv
    exact ⟨c, by rw [replace_append hw]; exact List.mem_append_left _ hc, hp⟩
  | hkeep d s hbegins ih =>
    rw [replace_cons hbegins]
    obtain ⟨c, hc, hp⟩ := h
    rcases List.mem_cons.mp hc with rfl | hc
    · exact ⟨c, List.mem_cons_self, hp⟩
    · obtain ⟨c', hc', hp'⟩ := ih ⟨c, hc, hp⟩
      exact ⟨c', List.mem_cons_of_mem d hc', hp'⟩

/-- A text without characters of the replacement begins what is left only where it began the
text. -/
theorem isPrefix_of_isPrefix_replace (hw : w ≠ []) (hv : v ≠ []) {t s : List Char}
    (ht : ∀ c ∈ t, c ∉ v) (h : t <+: replace w v s) : t <+: s := by
  induction s using replace_induction hw generalizing t with
  | hnil => rwa [replace_nil hw] at h
  | hoccurs s ih =>
    rw [replace_append hw] at h
    cases t with
    | nil => exact List.nil_prefix
    | cons c t =>
      obtain ⟨d, v, rfl⟩ := List.exists_cons_of_ne_nil hv
      obtain ⟨rfl, -⟩ := List.cons_prefix_cons.mp h
      exact absurd List.mem_cons_self (ht c List.mem_cons_self)
  | hkeep d s hbegins ih =>
    rw [replace_cons hbegins] at h
    cases t with
    | nil => exact List.nil_prefix
    | cons c t =>
      obtain ⟨rfl, hrest⟩ := List.cons_prefix_cons.mp h
      have ht' : ∀ d ∈ t, d ∉ v := fun d hd => ht d (List.mem_cons_of_mem c hd)
      exact List.cons_prefix_cons.mpr ⟨rfl, ih ht' hrest⟩

/-- A text without characters of the replacement is not made by replacing. -/
theorem isInfix_of_isInfix_replace (hw : w ≠ []) (hv : v ≠ []) {t s : List Char}
    (ht : ∀ c ∈ t, c ∉ v) (h : t <:+: replace w v s) : t <:+: s := by
  induction s using replace_induction hw with
  | hnil => rwa [replace_nil hw] at h
  | hoccurs s ih =>
    rw [replace_append hw] at h
    cases t with
    | nil => exact List.nil_infix
    | cons c t =>
      rw [isInfix_append_iff (ht c List.mem_cons_self)] at h
      exact (ih h).trans (List.suffix_append w s).isInfix
  | hkeep d s hbegins ih =>
    rw [replace_cons hbegins, List.infix_cons_iff] at h
    rcases h with h | h
    · rw [← replace_cons hbegins] at h
      exact (isPrefix_of_isPrefix_replace hw hv ht h).isInfix
    · exact (ih h).trans (List.suffix_cons d s).isInfix

end Replace

section Words

variable {a c : Char} {w v : List Char}

/-- A text without the first characters of the two words begins what is left, and what comes after
it, when it begins the text and what comes after that. -/
theorem isPrefix_replace_append_iff {t r r' : List Char} (ha : a ∉ t) (hc : c ∉ t)
    (hr : ∀ u, a ∉ u → c ∉ u → (u <+: r' ↔ u <+: r)) (s : List Char) :
    t <+: replace (a :: w) (c :: v) s ++ r' ↔ t <+: s ++ r := by
  -- one character of `t` after the other, so `t` changes along the induction
  induction s using replace_induction (w := a :: w) (List.cons_ne_nil a w) generalizing t with
  | hnil =>
    rw [replace_nil (List.cons_ne_nil a w)]
    exact hr t ha hc
  | hoccurs s ih =>
    rw [replace_append (List.cons_ne_nil a w), List.cons_append, List.cons_append,
      List.cons_append, List.cons_append, List.prefix_cons_iff, List.prefix_cons_iff]
    have hnot {d : Char} (hd : d ∉ t) (r u : List Char) : ¬ (t = d :: r ∧ r <+: u) := by
      rintro ⟨rfl, -⟩
      exact hd List.mem_cons_self
    simp [hnot ha, hnot hc]
  | hkeep d s hbegins ih =>
    rw [replace_cons hbegins, List.cons_append, List.cons_append]
    cases t with
    | nil => simp
    | cons b t =>
      rw [List.mem_cons, not_or] at ha hc
      rw [List.cons_prefix_cons, List.cons_prefix_cons, ih ha.2 hc.2]

/-- A text without the first characters of the two words begins what is left when it begins the
text. -/
theorem isPrefix_replace_iff {t : List Char} (ha : a ∉ t) (hc : c ∉ t) (s : List Char) :
    t <+: replace (a :: w) (c :: v) s ↔ t <+: s := by
  have happend := isPrefix_replace_append_iff (w := w) (v := v) (r := []) ha hc
    (fun u _ _ => Iff.rfl) s
  rwa [List.append_nil, List.append_nil] at happend

/-- **What has nothing in common with the two words is found after the replacements where it was
found before**: in several texts, one after the other. -/
theorem isInfix_flatten_replace_iff {b : Char} {t : List Char} (ha : a ∉ b :: t)
    (hc : c ∉ b :: t) (hw : b ∉ a :: w) (hv : b ∉ c :: v) (texts : List (List Char)) :
    b :: t <:+: (texts.map (replace (a :: w) (c :: v))).flatten ↔ b :: t <:+: texts.flatten := by
  -- at a seam the beginning of the next texts matters too
  suffices h : (∀ u, a ∉ u → c ∉ u →
      (u <+: (texts.map (replace (a :: w) (c :: v))).flatten ↔ u <+: texts.flatten)) ∧
      (b :: t <:+: (texts.map (replace (a :: w) (c :: v))).flatten ↔
        b :: t <:+: texts.flatten) from h.2
  induction texts with
  | nil => simp
  | cons s texts ih =>
    obtain ⟨hbegin, hinfix⟩ := ih
    rw [List.map_cons, List.flatten_cons, List.flatten_cons]
    refine ⟨fun u hau hcu => isPrefix_replace_append_iff hau hcu hbegin s, ?_⟩
    induction s using replace_induction (w := a :: w) (List.cons_ne_nil a w) with
    | hnil => rwa [replace_nil (List.cons_ne_nil a w)]
    | hoccurs s ih =>
      rw [replace_append (List.cons_ne_nil a w), List.append_assoc, List.append_assoc,
        isInfix_append_iff hv, isInfix_append_iff hw, ih]
    | hkeep d s hbegins ih =>
      have hhere := isPrefix_replace_append_iff (w := w) (v := v) ha hc hbegin (d :: s)
      rw [replace_cons hbegins, List.cons_append, List.cons_append] at hhere ⊢
      rw [List.infix_cons_iff, List.infix_cons_iff, hhere, ih]

/-- The same in one text. -/
theorem isInfix_replace_iff {b : Char} {t : List Char} (ha : a ∉ b :: t) (hc : c ∉ b :: t)
    (hw : b ∉ a :: w) (hv : b ∉ c :: v) (s : List Char) :
    b :: t <:+: replace (a :: w) (c :: v) s ↔ b :: t <:+: s := by
  simpa using isInfix_flatten_replace_iff ha hc hw hv [s]

/-- **The replaced word is gone**: it is found neither in its replacement nor at a seam. -/
theorem not_isInfix_replace (hw : a ∉ w) (hv : a ∉ v) (hne : ∀ r, ¬ w <+: v ++ r)
    (s : List Char) : ¬ a :: w <:+: replace (a :: w) (a :: v) s := by
  induction s using replace_induction (w := a :: w) (List.cons_ne_nil a w) with
  | hnil => simp [replace_nil]
  | hoccurs s ih =>
    rw [replace_append (List.cons_ne_nil a w), List.cons_append, List.infix_cons_iff,
      List.cons_prefix_cons, isInfix_append_iff hv]
    rintro (⟨-, hbegins⟩ | hlater)
    · exact hne _ hbegins
    · exact ih hlater
  | hkeep c s hbegins ih =>
    rw [replace_cons hbegins, List.infix_cons_iff, List.cons_prefix_cons]
    rintro (⟨rfl, hrest⟩ | hlater)
    · -- the rest of the word would stand in the text, where no occurrence begins
      rw [isPrefix_replace_iff hw hw] at hrest
      exact hbegins (List.cons_prefix_cons.mpr ⟨rfl, hrest⟩)
    · exact ih hlater

end Words

/-- A replacement within lines is made line by line. -/
theorem pieces_replace {w v : List Char} (hw : w ≠ []) (hv : v ≠ []) (hwline : '\n' ∉ w)
    (hvline : '\n' ∉ v) (s : List Char) :
    pieces (replace w v s) = (pieces s).map (replace w v) := by
  have hmem {s : List Char} (h : '\n' ∉ s) : '\n' ∉ replace w v s :=
    fun hs => (mem_replace hw hs).elim hvline h
  induction s using lines_induction with
  | hnil => rw [replace_nil hw]; rfl
  | hlast s hs h =>
    have hne : replace w v s ≠ [] := fun hnil => hs (replace_eq_nil hw hv hnil)
    rw [pieces_eq_singleton hs h, pieces_eq_singleton hne (hmem h)]
    rfl
  | hline a b ha ih =>
    rw [replace_append_cons hw hwline, pieces_append_cons (hmem ha), ih, pieces_append_cons ha,
      List.map_cons, replace_append_cons hw hwline, replace_nil hw]

end BindingDocs.Text
