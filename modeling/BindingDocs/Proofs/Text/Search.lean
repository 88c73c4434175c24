import BindingDocs.Text.Search
import Mathlib.Data.List.TakeDrop

/-!
# Lines and parts

A text put together from two is cut into the lines of both, provided that the first ends its last
line, and into the parts of both where a separator stands between them.

## Main definitions

* `EndsLine` — a text after which a new line begins.
* `OneLine` — a text that ends where its first line ends.

## Main results

* `lines_append` — the lines of two texts.
* `lines_induction` — induction along the lines of a text.
* `oneLine_of_mem_pieces` — a text is cut into single lines.
* `contains_iff_isInfix`, `isInfix_trim_iff` — when a text is found in another.
* `splitLast?_eq_some`, `not_isInfix_of_splitLast?` — the parts around the last occurrence.
* `splitLast?_append`, `splitLastBy?_append` — a text that is cut where it was put together.
* `splitOn_append` — the parts of two texts with a separator between them.
-/

namespace BindingDocs.Text

/-! ### Lines -/

/-- A new line begins after the text: it is empty or ends in a newline. -/
def EndsLine (s : List Char) : Prop := s = [] ∨ s.getLast? = some '\n'

instance (s : List Char) : Decidable (EndsLine s) := inferInstanceAs (Decidable (_ ∨ _))

theorem EndsLine.of_cons {c : Char} {s : List Char} (h : EndsLine (c :: s)) : EndsLine s := by
  cases s with
  | nil => exact Or.inl rfl
  | cons e s =>
    rcases h with h | h
    · cases h
    · exact Or.inr (by rwa [List.getLast?_cons_cons] at h)

/-- A text that ends its last line is cut on its own. -/
theorem pieces_append {a : List Char} (h : EndsLine a) (b : List Char) :
    pieces (a ++ b) = pieces a ++ pieces b := by
  induction a with
  | nil => rfl
  | cons c a ih =>
    have hrest := ih h.of_cons
    rw [List.cons_append, pieces, pieces]
    by_cases hc : c = '\n'
    · rw [if_pos hc, if_pos hc, hrest, List.cons_append]
    · -- the piece that `c` begins is continued inside the first text
      rw [if_neg hc, if_neg hc, hrest]
      cases hp : pieces a with
      | cons p ps => rfl
      | nil =>
        have ha : a = [] := by simpa [hp] using (flatten_pieces a).symm
        rw [ha] at h
        rcases h with h | h
        · cases h
        · exact absurd (Option.some.inj h) hc

theorem pieces_eq_singleton {s : List Char} (hs : s ≠ []) (h : '\n' ∉ s) : pieces s = [s] := by
  induction s with
  | nil => exact absurd rfl hs
  | cons c s ih =>
    rw [List.mem_cons, not_or] at h
    rw [pieces, if_neg (Ne.symm h.1)]
    cases s with
    | nil => rfl
    | cons d s => rw [ih (List.cons_ne_nil d s) h.2]

/-- The first line of a text with its end is a piece. -/
theorem pieces_append_cons {a : List Char} (h : '\n' ∉ a) (b : List Char) :
    pieces (a ++ '\n' :: b) = (a ++ ['\n']) :: pieces b := by
  induction a with
  | nil => rfl
  | cons c a ih =>
    rw [List.mem_cons, not_or] at h
    rw [List.cons_append, pieces, if_neg (Ne.symm h.1), ih h.2]
    rfl

/-- **Induction along the lines of a text.** -/
theorem lines_induction {P : List Char → Prop} (hnil : P [])
    (hlast : ∀ s, s ≠ [] → '\n' ∉ s → P s)
    (hline : ∀ a b, '\n' ∉ a → P b → P (a ++ '\n' :: b)) (s : List Char) : P s := by
  induction hn : s.length using Nat.strongRecOn generalizing s with
  | _ n ih =>
    by_cases hmem : '\n' ∈ s
    · obtain ⟨a, b, rfl, ha⟩ := List.eq_append_cons_of_mem hmem
      rw [List.length_append, List.length_cons] at hn
      exact hline a b ha (ih b.length (by omega) b rfl)
    · by_cases hs : s = []
      · exact hs ▸ hnil
      · exact hlast s hs hmem

/-- A text with at most one line end, which nothing follows. -/
def OneLine (s : List Char) : Prop := ∀ a b, s = a ++ '\n' :: b → b = []

theorem OneLine.of_append {a s : List Char} (h : OneLine (a ++ s)) : OneLine s :=
  fun b c hs => h (a ++ b) c (by rw [hs, List.append_assoc])

theorem OneLine.not_mem_left {a s : List Char} (h : OneLine (a ++ s)) (hs : s ≠ []) : '\n' ∉ a := by
  intro hmem
  obtain ⟨b, c, rfl⟩ := List.append_of_mem hmem
  have hrest := h b (c ++ s) (by simp)
  exact hs (List.append_eq_nil_iff.mp hrest).2

theorem oneLine_of_mem_pieces {s line : List Char} (h : line ∈ pieces s) : OneLine line := by
  induction s using lines_induction generalizing line with
  | hnil => cases h
  | hlast s hs hmem =>
    rw [pieces_eq_singleton hs hmem, List.mem_singleton] at h
    intro a b hab
    exact absurd (by rw [← h, hab]; simp) hmem
  | hline a b ha ih =>
    rw [pieces_append_cons ha, List.mem_cons] at h
    rcases h with rfl | h
    · intro c d hcd
      rcases List.eq_nil_or_concat d with rfl | ⟨e, x, rfl⟩
      · rfl
      · rw [List.concat_eq_append, ← List.cons_append, ← List.append_assoc] at hcd
        rw [(List.append_inj' hcd rfl).1] at ha
        exact absurd (by simp) ha
    · exact ih h

/-- The lines of two texts, the first of which ends its last line. -/
theorem lines_append {a : List Char} (h : EndsLine a) (b : List Char) :
    lines (a ++ b) = lines a ++ lines b := by
  rw [lines, pieces_append h, List.map_append]
  rfl

/-! ### Occurrences -/

/-- A character stands behind a text that does not hold it. -/
theorem append_cons_eq_append {x : Char} {u v a b : List Char} (hx : x ∉ u)
    (h : u ++ v = a ++ x :: b) : ∃ a', a = u ++ a' ∧ v = a' ++ x :: b := by
  rcases List.append_eq_append_iff.mp h with ⟨a', ha, hv⟩ | ⟨c, hu, hc⟩
  · exact ⟨a', ha, hv⟩
  · cases c with
    | nil => exact ⟨[], by simpa using hu.symm, by simpa using hc.symm⟩
    | cons d c =>
      obtain ⟨rfl, -⟩ := List.cons.inj hc
      exact absurd (by simp [hu]) hx

/-- A character that begins a text stands behind the text, or at its beginning. -/
theorem append_cons_eq_cons_append {x : Char} {u v a b : List Char} (hx : x ∉ u) (ha : a ≠ [])
    (h : x :: u ++ v = a ++ x :: b) : ∃ a', a = x :: u ++ a' ∧ v = a' ++ x :: b := by
  obtain ⟨y, a, rfl⟩ := List.exists_cons_of_ne_nil ha
  obtain ⟨rfl, hrest⟩ := List.cons.inj h
  obtain ⟨a', rfl, hv⟩ := append_cons_eq_append hx hrest
  exact ⟨a', rfl, hv⟩

/-- What begins with a character that a text does not hold is not found in it, nor at its end. -/
theorem isInfix_append_iff {b : Char} {u : List Char} (hb : b ∉ u) (t s : List Char) :
    b :: t <:+: u ++ s ↔ b :: t <:+: s := by
  induction u with
  | nil => rfl
  | cons c u ih =>
    rw [List.mem_cons, not_or] at hb
    rw [List.cons_append, List.infix_cons_iff, ih hb.2, List.cons_prefix_cons]
    simp [hb.1]

/-- What ends a text and holds no `c` stands behind every `c`. -/
theorem isSuffix_of_append_cons {c : Char} {u a b : List Char} (hc : c ∉ u)
    (h : u <:+ a ++ c :: b) : u <:+ b := by
  rcases List.suffix_or_suffix_of_suffix h (List.suffix_append a (c :: b)) with hu | hu
  · rcases List.suffix_cons_iff.mp hu with rfl | hu
    · exact absurd List.mem_cons_self hc
    · exact hu
  · exact absurd (hu.subset List.mem_cons_self) hc

theorem beginsWith_iff_isPrefix {w s : List Char} : beginsWith w s = true ↔ w <+: s := by
  rw [beginsWith, Option.isSome_iff_exists]
  constructor
  · rintro ⟨r, hr⟩
    exact ⟨r, (after?_eq_some_iff.mp hr).symm⟩
  · rintro ⟨r, hr⟩
    exact ⟨r, after?_eq_some_iff.mpr hr.symm⟩

section Searching

variable {w s b r : List Char}

/-- The parts around the first occurrence make up the text. -/
theorem splitFirst?_eq_some (h : splitFirst? w s = some (b, r)) : s = b ++ (w ++ r) := by
  induction s generalizing b with
  | nil =>
    obtain ⟨r', hr', hpair⟩ := Option.map_eq_some_iff.mp h
    cases hpair
    simpa using after?_eq_some_iff.mp hr'
  | cons c s ih =>
    rw [splitFirst?] at h
    split at h
    · next r' hr' =>
      cases h
      simpa using after?_eq_some_iff.mp hr'
    · obtain ⟨⟨b', r'⟩, hsplit, hpair⟩ := Option.map_eq_some_iff.mp h
      cases hpair
      rw [ih hsplit, List.cons_append]

/-- If there is an occurrence, a first one is found. -/
theorem isSome_splitFirst?_append (b w r : List Char) :
    (splitFirst? w (b ++ (w ++ r))).isSome = true := by
  have hhere : ∀ s, s = w ++ r → (splitFirst? w s).isSome = true := by
    intro s hs
    cases s with
    | nil => simp [splitFirst?, after?_eq_some_iff.mpr hs]
    | cons c s => simp [splitFirst?, after?_eq_some_iff.mpr hs]
  induction b with
  | nil => exact hhere _ rfl
  | cons c b ih =>
    rw [List.cons_append, splitFirst?]
    split
    · rfl
    · simpa using ih

/-- A text contains another exactly when the other is a part of it. -/
theorem contains_iff_isInfix : contains w s = true ↔ w <:+: s := by
  constructor
  · intro h
    obtain ⟨⟨b, r⟩, hsplit⟩ := Option.isSome_iff_exists.mp h
    exact ⟨b, r, by rw [splitFirst?_eq_some hsplit, List.append_assoc]⟩
  · rintro ⟨b, r, rfl⟩
    rw [List.append_assoc]
    exact isSome_splitFirst?_append b w r

theorem isSome_splitLast?_iff : (splitLast? w s).isSome = true ↔ w <:+: s := by
  rw [splitLast?, Option.isSome_map, ← List.reverse_infix]
  exact contains_iff_isInfix

/-- The parts around the last occurrence make up the text. -/
theorem splitLast?_eq_some (h : splitLast? w s = some (b, r)) : s = b ++ (w ++ r) := by
  obtain ⟨⟨b', r'⟩, hsplit, hpair⟩ := Option.map_eq_some_iff.mp h
  cases hpair
  rw [← List.reverse_reverse s, splitFirst?_eq_some hsplit]
  simp

/-- The parts around the last character of a class make up the text. -/
theorem splitLastBy?_eq_some {p : Char → Bool} (h : splitLastBy? p s = some (b, r)) :
    ∃ c, p c = true ∧ s = b ++ c :: r := by
  rw [splitLastBy?, List.span_eq_takeWhile_dropWhile] at h
  have hsplit := List.takeWhile_append_dropWhile (p := (!p ·)) (l := s.reverse)
  have hfound := List.head?_dropWhile_not (!p ·) s.reverse
  split at h
  · cases h
  · next tail c rest heq =>
    cases h
    obtain ⟨htail, hrest⟩ := Prod.mk.inj heq
    rw [hrest, List.head?_cons] at hfound
    refine ⟨c, by simpa using hfound, ?_⟩
    rw [← List.reverse_reverse s, ← hsplit, htail, hrest]
    simp

/-- The text before the first occurrence holds none. -/
theorem not_isInfix_of_splitFirst? (hw : w ≠ []) (h : splitFirst? w s = some (b, r)) :
    ¬ w <:+: b := by
  induction s generalizing b with
  | nil =>
    obtain ⟨r', -, hpair⟩ := Option.map_eq_some_iff.mp h
    cases hpair
    exact fun hwithin => hw (List.infix_nil.mp hwithin)
  | cons c s ih =>
    rw [splitFirst?] at h
    split at h
    · cases h
      exact fun hwithin => hw (List.infix_nil.mp hwithin)
    · next hnone =>
      obtain ⟨⟨b', r'⟩, hsplit, hpair⟩ := Option.map_eq_some_iff.mp h
      cases hpair
      rw [List.infix_cons_iff]
      rintro (⟨t, ht⟩ | hwithin)
      · -- an occurrence at the beginning would have been found first
        have hfound : after? w (c :: s) = some (t ++ (w ++ r)) := by
          rw [after?_eq_some_iff, splitFirst?_eq_some hsplit, ← List.append_assoc w t, ht,
            List.cons_append]
        rw [hfound] at hnone
        cases hnone
      · exact ih hsplit hwithin

/-- The text after the last occurrence holds none. -/
theorem not_isInfix_of_splitLast? (hw : w ≠ []) (h : splitLast? w s = some (b, r)) :
    ¬ w <:+: r := by
  obtain ⟨⟨b', r'⟩, hsplit, hpair⟩ := Option.map_eq_some_iff.mp h
  cases hpair
  rw [← List.reverse_infix, List.reverse_reverse]
  exact not_isInfix_of_splitFirst? (by simpa using hw) hsplit

/-- The parts around an occurrence before which there is none. -/
theorem splitFirst?_append (hw : w ≠ []) (h : ¬ w <:+: b ++ w.dropLast) (r : List Char) :
    splitFirst? w (b ++ (w ++ r)) = some (b, r) := by
  induction b with
  | nil =>
    obtain ⟨a, w', rfl⟩ := List.exists_cons_of_ne_nil hw
    have hafter : after? (a :: w') (a :: w' ++ r) = some r := after?_eq_some_iff.mpr rfl
    rw [List.nil_append, List.cons_append, splitFirst?, ← List.cons_append, hafter]
  | cons c b ih =>
    have hrest : ¬ w <:+: b ++ w.dropLast := fun hwithin =>
      h (hwithin.trans (List.suffix_cons c _).isInfix)
    have hnone : after? w (c :: (b ++ (w ++ r))) = none := by
      rw [Option.eq_none_iff_forall_ne_some]
      intro r' hr'
      -- an occurrence at the beginning ends in front of the last character of the other
      have hprefix : w <+: c :: (b ++ (w ++ r)) := ⟨r', (after?_eq_some_iff.mp hr').symm⟩
      have hfront : c :: (b ++ w.dropLast) <+: c :: (b ++ (w ++ r)) := by
        rw [List.cons_prefix_cons, List.prefix_append_right_inj]
        exact ⟨rfl, (List.dropLast_prefix w).trans (List.prefix_append w r)⟩
      refine h (List.prefix_of_prefix_length_le hprefix hfront ?_).isInfix
      have hlength := List.length_pos_iff.mpr hw
      simp only [List.length_cons, List.length_append, List.length_dropLast]
      omega
    rw [List.cons_append, splitFirst?, hnone, ih hrest]
    rfl

/-- The parts around an occurrence after which there is none. -/
theorem splitLast?_append (hw : w ≠ []) (h : ¬ w <:+: w.tail ++ r) (b : List Char) :
    splitLast? w (b ++ (w ++ r)) = some (b, r) := by
  have hreverse : ¬ w.reverse <:+: r.reverse ++ w.reverse.dropLast := by
    rwa [List.dropLast_reverse, ← List.reverse_append, List.reverse_infix]
  rw [splitLast?, List.reverse_append, List.reverse_append, List.append_assoc,
    splitFirst?_append (by simpa using hw) hreverse]
  simp

/-- The parts around a character of a class after which there is none. -/
theorem splitLastBy?_append {p : Char → Bool} {c : Char} (hc : p c = true)
    (hr : ∀ d ∈ r, p d = false) (b : List Char) : splitLastBy? p (b ++ c :: r) = some (b, r) := by
  have hclass : ∀ d ∈ r.reverse, (!p d) = true := by
    intro d hd
    rw [hr d (List.mem_reverse.mp hd), Bool.not_false]
  rw [splitLastBy?, List.reverse_append, List.reverse_cons, List.append_assoc,
    List.singleton_append, List.span_eq_takeWhile_dropWhile,
    List.takeWhile_append_of_pos hclass, List.dropWhile_append_of_pos hclass,
    List.takeWhile_cons_of_neg (by simp [hc]), List.dropWhile_cons_of_neg (by simp [hc])]
  simp

theorem splitLastBy?_eq_none {p : Char → Bool} (h : ∀ d ∈ s, p d = false) :
    splitLastBy? p s = none := by
  have hclass : ∀ d ∈ s.reverse, (!p d) = true := by
    intro d hd
    rw [h d (List.mem_reverse.mp hd), Bool.not_false]
  have hnil : (s.reverse ++ []).dropWhile (!p ·) = [] := List.dropWhile_append_of_pos hclass
  rw [List.append_nil] at hnil
  rw [splitLastBy?, List.span_eq_takeWhile_dropWhile, hnil]

end Searching

theorem isInfix_dropWhile_iff {p : Char → Bool} {b : Char} (hb : p b = false)
    (t s : List Char) : b :: t <:+: s.dropWhile p ↔ b :: t <:+: s := by
  have hnot : b ∉ s.takeWhile p := by
    intro hmem
    rw [List.all_eq_true.mp List.all_takeWhile b hmem] at hb
    cases hb
  rw [← isInfix_append_iff hnot, List.takeWhile_append_dropWhile]

/-- What begins and ends with no blank is found in a text exactly if it is found in it without the
blanks at its ends. -/
theorem isInfix_trim_iff {b c : Char} {t r : List Char} (hb : isBlank b = false)
    (hc : isBlank c = false) (hends : (b :: t).reverse = c :: r) (s : List Char) :
    b :: t <:+: trim s ↔ b :: t <:+: s := by
  rw [trim, trimBy, trimEndBy, ← List.reverse_infix, List.reverse_reverse, hends,
    isInfix_dropWhile_iff hc, ← hends, List.reverse_infix, isInfix_dropWhile_iff hb]

/-! ### Parts between separators -/

section Parts

variable {c : Char}

theorem splitOn_ne_nil (s : List Char) : splitOn c s ≠ [] := by
  cases s with
  | nil => simp [splitOn]
  | cons d s =>
    unfold splitOn
    split
    · simp
    · split <;> simp

/-- A character that is no separator belongs to the first part. -/
theorem splitOn_cons {d : Char} (h : d ≠ c) (s : List Char) :
    ∃ p ps, splitOn c s = p :: ps ∧ splitOn c (d :: s) = (d :: p) :: ps := by
  obtain ⟨p, ps, hps⟩ := List.exists_cons_of_ne_nil (splitOn_ne_nil (c := c) s)
  exact ⟨p, ps, hps, by rw [splitOn, if_neg h, hps]⟩

/-- A text without separators belongs to the first part. -/
theorem splitOn_append_of_not_mem {a s p : List Char} {ps : List (List Char)} (ha : c ∉ a)
    (h : splitOn c s = p :: ps) : splitOn c (a ++ s) = (a ++ p) :: ps := by
  induction a with
  | nil => exact h
  | cons d a ih =>
    rw [List.mem_cons, not_or] at ha
    rw [List.cons_append, splitOn, if_neg (Ne.symm ha.1), ih ha.2, List.cons_append]

/-- A separator keeps the parts before it and the parts after it apart. -/
theorem splitOn_append (a b : List Char) :
    splitOn c (a ++ c :: b) = splitOn c a ++ splitOn c b := by
  induction a with
  | nil => simp [splitOn]
  | cons d a ih =>
    by_cases hd : d = c
    · simp [splitOn, hd, ih]
    · obtain ⟨p, ps, hps, hcons⟩ := splitOn_cons hd a
      rw [List.cons_append, splitOn, if_neg hd, ih, hcons, hps]
      rfl

theorem splitOn_eq_singleton {s : List Char} (h : c ∉ s) : splitOn c s = [s] := by
  have hsplit := splitOn_append_of_not_mem (s := []) h rfl
  rwa [List.append_nil] at hsplit

theorem not_mem_of_mem_splitOn {s p : List Char} (h : p ∈ splitOn c s) : c ∉ p := by
  induction s generalizing p with
  | nil => simp_all [splitOn]
  | cons d s ih =>
    by_cases hd : d = c
    · rw [splitOn, if_pos hd, List.mem_cons] at h
      rcases h with rfl | h
      · simp
      · exact ih h
    · obtain ⟨q, qs, hqs, hcons⟩ := splitOn_cons hd s
      rw [hcons, List.mem_cons] at h
      rw [hqs] at ih
      rcases h with rfl | h
      · simpa [Ne.symm hd] using ih List.mem_cons_self
      · exact ih (List.mem_cons_of_mem q h)

end Parts

end BindingDocs.Text
