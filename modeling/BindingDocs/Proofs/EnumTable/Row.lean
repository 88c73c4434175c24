import BindingDocs.EnumTable

/-!
# The lines of an enum table

Whether the table goes on after a line, whether the line lists a value, and which one, are three
questions about the line without the comments that open and close on it.  The answers are given here
in terms of the characters of that text.

## Main definitions

* `Continues` — the table goes on after the line.
* `EnumSpec.ListsValue`, `EnumSpec.bulletOf` — the line lists a value, and the bullet of the value.

## Main results

* `isContinued_iff`, `isBlankOrComment_iff` — the tests of a line, one by one.
* `EnumSpec.readRow_eq` — **what a line adds to the enum stream, and whether the table goes on.**
-/

namespace BindingDocs

open Text

/-! ### Lines of a table -/

/-- The text ends in a backslash, blanks aside. -/
def EndsInBackslash (s : List Char) : Prop :=
  ∃ before blanks, s = before ++ '\\' :: blanks ∧ ∀ c ∈ blanks, isBlank c = true

/-- The text begins with a comment, blanks aside. -/
def BeginsWithComment (s : List Char) : Prop :=
  ∃ blanks rest, (∀ c ∈ blanks, isBlank c = true) ∧
    (s = blanks ++ '/' :: '/' :: rest ∨ s = blanks ++ '/' :: '*' :: rest)

/-- The table goes on after the line: without its comments it ends in a backslash. -/
def Continues (line : List Char) : Prop := EndsInBackslash (stripComments line)

/-- The line lists a value of the enum.  Everything is said of the line without its comments. -/
structure EnumSpec.ListsValue (spec : EnumSpec) (line : List Char) : Prop where
  /-- There is more on the line than its continuation. -/
  substance : (∃ c ∈ stripComments line, isWord c = true) ∨ ¬ Continues line
  /-- The line is not blank. -/
  visible : ∃ c ∈ stripComments line, isBlank c = false
  /-- The line does not begin with a comment. -/
  uncommented : ¬ BeginsWithComment (stripComments line)
  /-- The column that says so, if there is one, does not hide the value. -/
  shown : ∀ i, spec.shown = some i →
    trimBy isJunk ((splitColumns (stripComments line)).getD i []) ≠ "false".toList

/-- The bullet of the value that a line lists. -/
def EnumSpec.bulletOf (spec : EnumSpec) (line : List Char) : String :=
  spec.rowBullet (splitColumns (stripComments line))

section Tests

variable {s : List Char}

theorem isContinued_iff : isContinued s = true ↔ EndsInBackslash s := by
  have hsplit := List.takeWhile_append_dropWhile (p := isBlank) (l := s.reverse)
  unfold isContinued
  constructor
  · intro h
    split at h
    · next c r hdrop =>
      obtain rfl : c = '\\' := by simpa using h
      refine ⟨r.reverse, (s.reverse.takeWhile isBlank).reverse, ?_, ?_⟩
      · rw [hdrop] at hsplit
        simpa using (congrArg List.reverse hsplit).symm
      · intro c hc
        exact List.all_eq_true.mp List.all_takeWhile c (List.mem_reverse.mp hc)
    · cases h
  · rintro ⟨before, blanks, rfl, hblanks⟩
    have hdrop : (before ++ '\\' :: blanks).reverse.dropWhile isBlank =
        '\\' :: before.reverse := by
      rw [List.reverse_append, List.reverse_cons, List.append_assoc,
        List.dropWhile_append_of_pos fun c hc => hblanks c (List.mem_reverse.mp hc)]
      rfl
    rw [hdrop]
    rfl

instance (s : List Char) : Decidable (EndsInBackslash s) := decidable_of_iff _ isContinued_iff

instance (line : List Char) : Decidable (Continues line) :=
  inferInstanceAs (Decidable (EndsInBackslash _))

/-- A backslash ends a text from its first character on, or from a later one. -/
theorem endsInBackslash_cons {c : Char} :
    EndsInBackslash (c :: s) ↔ (c = '\\' ∧ ∀ b ∈ s, isBlank b = true) ∨ EndsInBackslash s := by
  constructor
  · rintro ⟨before, blanks, h, hblanks⟩
    cases before with
    | nil =>
      obtain ⟨rfl, rfl⟩ := List.cons.inj h
      exact Or.inl ⟨rfl, hblanks⟩
    | cons b before =>
      obtain ⟨rfl, rfl⟩ := List.cons.inj h
      exact Or.inr ⟨before, blanks, rfl, hblanks⟩
  · rintro (⟨rfl, hblanks⟩ | ⟨before, blanks, rfl, hblanks⟩)
    · exact ⟨[], s, rfl, hblanks⟩
    · exact ⟨c :: before, blanks, rfl, hblanks⟩

/-- A comment begins a text at its first character, or behind a blank. -/
theorem beginsWithComment_cons {c : Char} :
    BeginsWithComment (c :: s) ↔
      (c = '/' ∧ (s.head? = some '/' ∨ s.head? = some '*')) ∨
        (isBlank c = true ∧ BeginsWithComment s) := by
  constructor
  · rintro ⟨blanks, rest, hblanks, h⟩
    cases blanks with
    | nil => rcases h with h | h <;> cases h <;> simp
    | cons b blanks =>
      obtain ⟨hb, hbs⟩ := List.forall_mem_cons.mp hblanks
      refine Or.inr ?_
      rcases h with h | h <;> cases h
      · exact ⟨hb, blanks, rest, hbs, Or.inl rfl⟩
      · exact ⟨hb, blanks, rest, hbs, Or.inr rfl⟩
  · rintro (⟨rfl, h⟩ | ⟨hc, blanks, rest, hblanks, h⟩)
    · rcases h with h | h <;> obtain ⟨rest, rfl⟩ := List.head?_eq_some_iff.mp h
      · exact ⟨[], rest, by simp, Or.inl rfl⟩
      · exact ⟨[], rest, by simp, Or.inr rfl⟩
    · refine ⟨c :: blanks, rest, List.forall_mem_cons.mpr ⟨hc, hblanks⟩, ?_⟩
      rcases h with rfl | rfl
      · exact Or.inl rfl
      · exact Or.inr rfl

theorem isBlankOrComment_iff :
    isBlankOrComment s = true ↔ (∀ c ∈ s, isBlank c = true) ∨ BeginsWithComment s := by
  induction s with
  | nil => simp [isBlankOrComment]
  | cons c s ih =>
    rw [beginsWithComment_cons, List.forall_mem_cons]
    cases hc : isBlank c with
    | true =>
      have hne : c ≠ '/' := by
        rintro rfl
        exact absurd hc (by decide)
      have hskip : isBlankOrComment (c :: s) = isBlankOrComment s := by
        simp [isBlankOrComment, hc]
      simp [hskip, ih, hne]
    | false =>
      -- the first character decides together with the second
      have hstop : (c :: s).dropWhile isBlank = c :: s := by simp [hc]
      have hpair : isBlankOrComment (c :: s) = true ↔
          c = '/' ∧ (s.head? = some '/' ∨ s.head? = some '*') := by
        rw [isBlankOrComment, hstop]
        split <;> simp_all [List.head?_eq_some_iff]
      simp [hpair]

end Tests

namespace EnumSpec

variable {spec : EnumSpec} {line : List Char}

theorem isBareContinuation_eq_false_iff :
    isBareContinuation (stripComments line) = false ↔
      (∃ c ∈ stripComments line, isWord c = true) ∨ ¬ Continues line := by
  rw [Continues, ← isContinued_iff, isBareContinuation, Bool.and_eq_false_iff, or_comm,
    List.all_eq_false, Bool.not_eq_true]
  simp

theorem isBlankOrComment_eq_false_iff :
    isBlankOrComment (stripComments line) = false ↔
      (∃ c ∈ stripComments line, isBlank c = false) ∧ ¬ BeginsWithComment (stripComments line) := by
  rw [← Bool.not_eq_true, isBlankOrComment_iff, not_or]
  simp

theorem hides_eq_false_iff {columns : List (List Char)} :
    spec.hides columns = false ↔
      ∀ i, spec.shown = some i → trimBy isJunk (columns.getD i []) ≠ "false".toList := by
  unfold hides
  cases spec.shown <;> simp [cell]

/-- The three tests that a line has to pass. -/
theorem listsValue_iff :
    spec.ListsValue line ↔
      isBareContinuation (stripComments line) = false ∧
        isBlankOrComment (stripComments line) = false ∧
        spec.hides (splitColumns (stripComments line)) = false := by
  rw [isBareContinuation_eq_false_iff, isBlankOrComment_eq_false_iff, hides_eq_false_iff]
  exact ⟨fun h => ⟨h.substance, ⟨h.visible, h.uncommented⟩, h.shown⟩,
    fun ⟨hsubstance, ⟨hvisible, huncommented⟩, hshown⟩ =>
      ⟨hsubstance, hvisible, huncommented, hshown⟩⟩

instance : Decidable (spec.ListsValue line) := decidable_of_iff _ listsValue_iff.symm

/-- **What a line of a table adds to the enum stream, and whether the table goes on.** -/
theorem readRow_eq (spec : EnumSpec) (line : List Char) :
    spec.readRow line =
      (if spec.ListsValue line then [spec.bulletOf line] else [], decide (Continues line)) := by
  have hcontinues : decide (Continues line) = isContinued (stripComments line) := by
    rw [Bool.eq_iff_iff, decide_eq_true_iff, isContinued_iff]
    rfl
  simp only [readRow, hcontinues, listsValue_iff, bulletOf]
  cases hbare : isBareContinuation (stripComments line) with
  | true =>
    -- a continuation of nothing is in particular a continuation
    have hcontinued : isContinued (stripComments line) = true := by
      rw [isBareContinuation, Bool.and_eq_true] at hbare
      exact hbare.1
    simp [hcontinued]
  | false =>
    cases isBlankOrComment (stripComments line) <;>
      cases spec.hides (splitColumns (stripComments line)) <;> simp

end EnumSpec

end BindingDocs
