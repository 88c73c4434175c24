import BindingDocs.EnumTable

/-!
# The columns of a row

A row of an enum table is a macro name and cells with commas between them in parentheses.  A cell
may hold commas and brackets of its own, as long as they stand in quotes or in brackets that are
closed again.  What stands in quotes counts for nothing, so the depth of a place is the number of
opening brackets outside quotes before it, less the closing ones.  The splitter carries both along:
after a part of a cell it knows whether a quote is open and how deep it is.

## Main definitions

* `unquoted`, `endsQuoted`, `level` — what stands outside quotes, and the depth it leads to.
* `IsCell` — texts that can stand between two commas of a row.
* `row` — a row written from its cells.
* `IsArguments` — what follows the first parenthesis outside quotes, or the whole line.
* `Covers` — columns that begin a text, up to a bracket that closes the row.

## Main results

* `isArguments_iff` — where the arguments of a row begin.
* `columnsFrom_cell_append` — a cell is read up to its end.
* `covers_columnsFrom` — no character is lost before a bracket closes the row.
* `splitColumns_inverts_row` — **splitting a row gives its cells, and loses no text of any line.**
-/

namespace BindingDocs

/-! ### Quotes and brackets -/

def isOpening (c : Char) : Bool := c == '(' || c == '\x7b' || c == '['

def isClosing (c : Char) : Bool := c == ')' || c == '\x7d' || c == ']'

/-- The characters outside quotes, given whether a quote is open at the beginning. -/
def unquoted : (quoted : Bool) → List Char → List Char
  | _, [] => []
  | quoted, c :: s =>
    if c = '"' then unquoted (!quoted) s
    else if quoted then unquoted quoted s
    else c :: unquoted quoted s

/-- Whether a quote is left open. -/
def endsQuoted (s : List Char) : Bool := s.count '"' % 2 == 1

/-- The opening brackets outside quotes, less the closing ones. -/
def level (s : List Char) : Int :=
  (unquoted false s).countP isOpening - (unquoted false s).countP isClosing

/-- A text between two commas of a row: all its quotes and brackets are closed, and outside of them
it has no comma and no bracket that closes the row. -/
structure IsCell (s : List Char) : Prop where
  closed : endsQuoted s = false
  balanced : level s = 0
  inside : ∀ u c v, s = u ++ c :: v → endsQuoted u = false → level u = 0 →
    c ≠ ',' ∧ isClosing c = false

/-- The macro name, the cells in parentheses, and what follows. -/
def row (name : List Char) (cells : List (List Char)) (tail : List Char) : List Char :=
  name ++ '(' :: ([','].intercalate cells ++ ')' :: tail)

/-- The text after the first parenthesis outside quotes; the whole line if there is none. -/
def IsArguments (line arguments : List Char) : Prop :=
  (∃ u, line = u ++ '(' :: arguments ∧ endsQuoted u = false ∧ '(' ∉ unquoted false u) ∨
    '(' ∉ unquoted false line ∧ arguments = line

section Quotes

variable {s : List Char} {c : Char}

theorem endsQuoted_nil : endsQuoted [] = false := rfl

theorem endsQuoted_cons (c : Char) (s : List Char) :
    endsQuoted (c :: s) = if c = '"' then !endsQuoted s else endsQuoted s := by
  unfold endsQuoted
  by_cases hc : c = '"'
  · have hmod : (s.count '"' + 1) % 2 = 1 - s.count '"' % 2 := by omega
    rcases Nat.mod_two_eq_zero_or_one (s.count '"') with h | h <;> simp [hc, hmod, h]
  · simp [hc]

/-- What is outside quotes in a text put behind another depends on whether that leaves one open. -/
theorem unquoted_append (quoted : Bool) (s t : List Char) :
    unquoted quoted (s ++ t) = unquoted quoted s ++ unquoted (quoted ^^ endsQuoted s) t := by
  induction s generalizing quoted with
  | nil => simp [unquoted, endsQuoted_nil]
  | cons c s ih =>
    rw [List.cons_append, unquoted, unquoted, endsQuoted_cons]
    by_cases hc : c = '"'
    · rw [if_pos hc, if_pos hc, if_pos hc, ih]
      cases quoted <;> simp
    · rw [if_neg hc, if_neg hc, if_neg hc, ih]
      cases quoted <;> simp

theorem endsQuoted_concat (s : List Char) (c : Char) :
    endsQuoted (s ++ [c]) = if c = '"' then !endsQuoted s else endsQuoted s := by
  rw [← endsQuoted_cons c s, endsQuoted, endsQuoted, List.count_append, List.count_cons,
    List.count_cons, List.count_nil, Nat.zero_add, Nat.add_comm]

/-- A character inside quotes does not count. -/
theorem level_concat_of_quoted (h : endsQuoted s = true) (c : Char) :
    level (s ++ [c]) = level s := by
  have hnone : unquoted true [c] = [] := by simp [unquoted]
  rw [level, unquoted_append, h, Bool.false_xor, hnone, List.append_nil]
  rfl

/-- A character outside quotes counts as what it is. -/
theorem level_concat_of_unquoted (h : endsQuoted s = false) (c : Char) :
    level (s ++ [c]) =
      level s + (if isOpening c then 1 else 0) - (if isClosing c then 1 else 0) := by
  have hone : unquoted false [c] = if c = '"' then [] else [c] := by simp [unquoted]
  rw [level, unquoted_append, h, Bool.false_xor, hone, level]
  split
  · next hquote =>
    subst hquote
    simp [isOpening, isClosing]
  · simp only [List.countP_append, List.countP_singleton]
    split <;> split <;> push_cast <;> omega

end Quotes

/-! ### The arguments of a row -/

section Arguments

variable {quoted : Bool} {s line arguments : List Char}

theorem afterParen?_eq_none_iff : afterParen? quoted s = none ↔ '(' ∉ unquoted quoted s := by
  induction s generalizing quoted with
  | nil => simp [afterParen?, unquoted]
  | cons c s ih =>
    rw [afterParen?, unquoted]
    by_cases hc : c = '"'
    · rw [if_pos hc, if_pos hc, ih]
    · rw [if_neg hc, if_neg hc]
      cases quoted with
      | true => simp [ih]
      | false =>
        by_cases hparen : c = '('
        · simp [hparen]
        · simp [hparen, Ne.symm hparen, ih]

/-- Nothing before the parenthesis is one outside quotes. -/
theorem afterParen?_eq_some_iff : afterParen? quoted s = some arguments ↔
    ∃ u, s = u ++ '(' :: arguments ∧ (quoted ^^ endsQuoted u) = false ∧ '(' ∉ unquoted quoted u := by
  constructor
  · intro h
    induction s generalizing quoted with
    | nil => simp [afterParen?] at h
    | cons c s ih =>
      rw [afterParen?] at h
      split at h
      · next hc =>
        obtain ⟨u, rfl, hquoted, hu⟩ := ih h
        refine ⟨c :: u, rfl, ?_, ?_⟩
        · rw [endsQuoted_cons, if_pos hc, ← hquoted]
          cases quoted <;> simp
        · rwa [unquoted, if_pos hc]
      · next hc =>
        split at h
        · next hparen =>
          obtain ⟨rfl, rfl⟩ := hparen
          cases h
          exact ⟨[], rfl, rfl, by simp [unquoted]⟩
        · next hparen =>
          obtain ⟨u, rfl, hquoted, hu⟩ := ih h
          refine ⟨c :: u, rfl, ?_, ?_⟩
          · rwa [endsQuoted_cons, if_neg hc]
          · rw [unquoted, if_neg hc]
            cases quoted with
            | true => simpa using hu
            | false =>
              have hne : c ≠ '(' := fun hc => hparen ⟨hc, rfl⟩
              simp [hu, hne.symm]
  · rintro ⟨u, rfl, hquoted, hu⟩
    induction u generalizing quoted with
    | nil =>
      obtain rfl : quoted = false := by simpa [endsQuoted_nil] using hquoted
      simp [afterParen?]
    | cons c u ih =>
      rw [endsQuoted_cons] at hquoted
      rw [unquoted] at hu
      rw [List.cons_append, afterParen?]
      split at hu
      · next hc =>
        rw [if_pos hc] at hquoted ⊢
        refine ih ?_ hu
        rw [← hquoted]
        cases quoted <;> simp
      · next hc =>
        rw [if_neg hc] at hquoted ⊢
        cases quoted with
        | true => simpa using ih hquoted (by simpa using hu)
        | false =>
          simp only [Bool.false_eq_true, if_false, List.mem_cons, not_or] at hu
          rw [if_neg fun h => hu.1 h.1.symm]
          exact ih hquoted hu.2

/-- **The splitter begins at the arguments.** -/
theorem isArguments_iff :
    IsArguments line arguments ↔ (afterParen? false line).getD line = arguments := by
  cases h : afterParen? false line with
  | none =>
    have hnone := afterParen?_eq_none_iff.mp h
    constructor
    · rintro (⟨u, hu⟩ | ⟨-, rfl⟩)
      · have hsome : afterParen? false line = some arguments :=
          afterParen?_eq_some_iff.mpr ⟨u, by simpa using hu⟩
        rw [h] at hsome
        cases hsome
      · rfl
    · rintro rfl
      exact Or.inr ⟨hnone, rfl⟩
  | some arguments' =>
    constructor
    · rintro (⟨u, hu⟩ | ⟨hnone, -⟩)
      · have hsome : afterParen? false line = some arguments :=
          afterParen?_eq_some_iff.mpr ⟨u, by simpa using hu⟩
        rw [h] at hsome
        cases hsome
        rfl
      · rw [← afterParen?_eq_none_iff, h] at hnone
        cases hnone
    · rintro rfl
      obtain ⟨u, hu⟩ := afterParen?_eq_some_iff.mp h
      exact Or.inl ⟨u, by simpa using hu⟩

end Arguments

/-! ### Cells -/

instance (s : List Char) : Decidable (IsCell s) := by
  refine decidable_of_iff (endsQuoted s = false ∧ level s = 0 ∧ ∀ i, ∀ h : i < s.length,
    endsQuoted (s.take i) = false → level (s.take i) = 0 → s[i] ≠ ',' ∧ isClosing s[i] = false) ?_
  constructor
  · rintro ⟨hclosed, hbalanced, hinside⟩
    refine ⟨hclosed, hbalanced, ?_⟩
    rintro u c v rfl hu hlu
    have := hinside u.length (by simp)
    simp_all
  · rintro ⟨hclosed, hbalanced, hinside⟩
    refine ⟨hclosed, hbalanced, ?_⟩
    intro i hi
    exact hinside (s.take i) s[i] (s.drop (i + 1)) (by simp)

theorem columnsFrom_ne_nil (quoted : Bool) (depth : Nat) (s : List Char) :
    columnsFrom quoted depth s ≠ [] := by
  have hcons : ∀ c cols, consColumn c cols ≠ [] := by
    rintro c (_ | ⟨col, cols⟩) <;> simp [consColumn]
  fun_cases columnsFrom quoted depth s <;> simp_all

theorem foldr_consColumn (s col : List Char) (cols : List (List Char)) :
    s.foldr consColumn (col :: cols) = (s ++ col) :: cols := by
  induction s with
  | nil => rfl
  | cons c s ih => rw [List.foldr_cons, ih]; rfl

theorem isOpening_iff {c : Char} : isOpening c = true ↔ c = '(' ∨ c = '\x7b' ∨ c = '[' := by
  simp [isOpening, or_assoc]

theorem isClosing_iff {c : Char} : isClosing c = true ↔ c = ')' ∨ c = '\x7d' ∨ c = ']' := by
  simp [isClosing, or_assoc]

/-- No bracket both opens and closes. -/
theorem isClosing_of_isOpening {c : Char} (h : isOpening c = true) : isClosing c = false := by
  rcases isOpening_iff.mp h with rfl | rfl | rfl <;> rfl

/-! What the splitter does with a character outside quotes. -/

section Unquoted

variable {depth : Nat} {c : Char} {s : List Char}

theorem columnsFrom_quote :
    columnsFrom false depth ('"' :: s) = consColumn '"' (columnsFrom true depth s) := by
  cases depth <;> rfl

theorem columnsFrom_opening (h : isOpening c = true) :
    columnsFrom false depth (c :: s) = consColumn c (columnsFrom false (depth + 1) s) := by
  rcases isOpening_iff.mp h with rfl | rfl | rfl <;> cases depth <;> rfl

theorem columnsFrom_closing (h : isClosing c = true) :
    columnsFrom false (depth + 1) (c :: s) = consColumn c (columnsFrom false depth s) := by
  rcases isClosing_iff.mp h with rfl | rfl | rfl <;> rfl

theorem columnsFrom_closing_zero (h : isClosing c = true) :
    columnsFrom false 0 (c :: s) = [[]] := by
  rcases isClosing_iff.mp h with rfl | rfl | rfl <;> rfl

theorem columnsFrom_comma : columnsFrom false 0 (',' :: s) = [] :: columnsFrom false 0 s := rfl

theorem columnsFrom_other (hquote : c ≠ '"') (hopen : isOpening c = false)
    (hclose : isClosing c = false) (hcomma : ¬(c = ',' ∧ depth = 0)) :
    columnsFrom false depth (c :: s) = consColumn c (columnsFrom false depth s) := by
  rw [← Bool.not_eq_true, isOpening_iff] at hopen
  rw [← Bool.not_eq_true, isClosing_iff] at hclose
  cases depth <;> rw [columnsFrom, if_neg hquote, if_neg hopen, if_neg hclose, if_neg hcomma]

end Unquoted

/-- After a part of a cell the splitter knows whether a quote is open and how deep it is, so it puts
what is left of the cell in front of the next column. -/
theorem columnsFrom_cell_append {u v : List Char} (h : IsCell (u ++ v)) (hu : 0 ≤ level u)
    (rest : List Char) :
    columnsFrom (endsQuoted u) (level u).toNat (v ++ rest) =
      v.foldr consColumn (columnsFrom false 0 rest) := by
  induction v generalizing u with
  | nil =>
    rw [List.append_nil] at h
    rw [h.closed, h.balanced]
    rfl
  | cons c v ih =>
    -- the invariant moves one character on
    have hnext := @ih (u ++ [c]) (by simpa using h)
    have hend := endsQuoted_concat u c
    rw [List.cons_append, List.foldr_cons]
    cases hquoted : endsQuoted u with
    | true =>
      have hlevel := level_concat_of_quoted hquoted c
      have hend' : endsQuoted (u ++ [c]) = (c != '"') := by
        rw [hend, hquoted]
        split <;> simp_all
      rw [columnsFrom, ← hnext (by omega), hend', hlevel]
    | false =>
      have hlevel := level_concat_of_unquoted hquoted c
      rw [hquoted] at hend
      by_cases hquote : c = '"'
      · subst hquote
        have hsame : level (u ++ ['"']) = level u := by simpa [isOpening, isClosing] using hlevel
        rw [columnsFrom_quote, ← hnext (by omega), hend, hsame]
        rfl
      · rw [if_neg hquote] at hend
        cases hopen : isOpening c with
        | true =>
          have hdeeper : level (u ++ [c]) = level u + 1 := by
            simpa [hopen, isClosing_of_isOpening hopen] using hlevel
          have hdepth : (level (u ++ [c])).toNat = (level u).toNat + 1 := by omega
          rw [columnsFrom_opening hopen, ← hnext (by omega), hend, hdepth]
        | false =>
          have hinside := h.inside u c v rfl hquoted
          cases hclose : isClosing c with
          | true =>
            -- a bracket that closes stands deeper inside the cell
            have hne : level u ≠ 0 := by
              intro hzero
              have hnot := (hinside hzero).2
              rw [hclose] at hnot
              cases hnot
            have hshallower : level (u ++ [c]) = level u - 1 := by
              simpa [hopen, hclose] using hlevel
            have hdepth : (level u).toNat = (level (u ++ [c])).toNat + 1 := by omega
            rw [hdepth, columnsFrom_closing hclose, ← hnext (by omega), hend]
          | false =>
            have hsame : level (u ++ [c]) = level u := by simpa [hopen, hclose] using hlevel
            have hcomma : ¬(c = ',' ∧ (level u).toNat = 0) := by
              rintro ⟨hcomma, hzero⟩
              exact (hinside (by omega)).1 hcomma
            rw [columnsFrom_other hquote hopen hclose hcomma, ← hnext (by omega), hend, hsame]

section Cells

variable {cell : List Char} {cells : List (List Char)}

/-- **A cell is read up to its end.** -/
theorem columnsFrom_cell (h : IsCell cell) (rest : List Char) :
    columnsFrom false 0 (cell ++ rest) = cell.foldr consColumn (columnsFrom false 0 rest) :=
  columnsFrom_cell_append (u := []) h (Int.le_refl 0) rest

/-- **So are all cells of a row**, up to the bracket that closes it. -/
theorem columnsFrom_intercalate (hne : cells ≠ []) (h : ∀ cell ∈ cells, IsCell cell)
    (tail : List Char) :
    columnsFrom false 0 ([','].intercalate cells ++ ')' :: tail) = cells := by
  induction cells with
  | nil => exact absurd rfl hne
  | cons cell cells ih =>
    obtain ⟨hcell, hcells⟩ := List.forall_mem_cons.mp h
    cases cells with
    | nil =>
      rw [List.intercalate_singleton, columnsFrom_cell hcell, columnsFrom_closing_zero rfl,
        foldr_consColumn, List.append_nil]
    | cons next cells =>
      rw [List.intercalate_cons_cons, List.append_assoc, List.append_assoc, columnsFrom_cell hcell,
        List.singleton_append, columnsFrom_comma, ih (List.cons_ne_nil _ _) hcells,
        foldr_consColumn, List.append_nil]

end Cells

/-! ### What is left of a line -/

theorem intercalate_consColumn (c : Char) (cols : List (List Char)) :
    [','].intercalate (consColumn c cols) = c :: [','].intercalate cols := by
  match cols with
  | [] => rfl
  | [col] => rfl
  | col :: next :: cols => simp [consColumn]

theorem intercalate_nil_cons {cols : List (List Char)} (h : cols ≠ []) :
    [','].intercalate ([] :: cols) = ',' :: [','].intercalate cols := by
  obtain ⟨col, cols, rfl⟩ := List.exists_cons_of_ne_nil h
  rw [List.intercalate_cons_cons]
  rfl

/-- The columns with commas between them are what stands before the end of the text, or before a
bracket that closes the row. -/
def Covers (columns : List (List Char)) (s : List Char) : Prop :=
  ∃ rest, s = [','].intercalate columns ++ rest ∧
    (rest = [] ∨ ∃ c t, rest = c :: t ∧ isClosing c = true)

theorem Covers.consColumn {columns : List (List Char)} {s : List Char} (h : Covers columns s)
    (c : Char) : Covers (consColumn c columns) (c :: s) := by
  obtain ⟨rest, hs, hrest⟩ := h
  refine ⟨rest, ?_, hrest⟩
  rw [intercalate_consColumn, List.cons_append, ← hs]

/-- **No character is lost before a bracket closes the row.** -/
theorem covers_columnsFrom (quoted : Bool) (depth : Nat) (s : List Char) :
    Covers (columnsFrom quoted depth s) s := by
  fun_induction columnsFrom quoted depth s with
  | case1 quoted depth => exact ⟨[], rfl, Or.inl rfl⟩
  | case2 depth c s ih => exact ih.consColumn c
  | case3 depth s ih => exact ih.consColumn _
  | case4 depth c s hquote hopen ih => exact ih.consColumn c
  | case5 c s hquote hopen hclose =>
    exact ⟨c :: s, rfl, Or.inr ⟨c, s, rfl, isClosing_iff.mpr hclose⟩⟩
  | case6 c s hquote hopen hclose depth ih => exact ih.consColumn c
  | case7 depth c s hquote hopen hclose hcomma ih =>
    obtain ⟨rfl, rfl⟩ := hcomma
    obtain ⟨rest, hs, hrest⟩ := ih
    refine ⟨rest, ?_, hrest⟩
    rw [intercalate_nil_cons (columnsFrom_ne_nil _ _ _), List.cons_append, ← hs]
  | case8 depth c s hquote hopen hclose hcomma ih => exact ih.consColumn c

/-! ### Rows -/

theorem unquoted_of_notMem {s : List Char} (h : '"' ∉ s) : unquoted false s = s := by
  induction s with
  | nil => rfl
  | cons c s ih =>
    obtain ⟨hc, hs⟩ := not_or.mp (mt List.mem_cons.mpr h)
    rw [unquoted, if_neg (Ne.symm hc), ih hs]
    rfl

/-- The arguments of a row begin behind its name. -/
theorem isArguments_row {name : List Char} (hparen : '(' ∉ name) (hquote : '"' ∉ name)
    (cells : List (List Char)) (tail : List Char) :
    IsArguments (row name cells tail) ([','].intercalate cells ++ ')' :: tail) := by
  refine Or.inl ⟨name, rfl, ?_, ?_⟩
  · rw [endsQuoted, List.count_eq_zero.mpr hquote]
    rfl
  · rwa [unquoted_of_notMem hquote]

/-- **Splitting inverts writing, and loses no text.**  A row is written from a name without quotes
and parentheses, cells and any text behind them: its columns are the cells.  Of any line whatever,
the columns with commas between them begin the arguments, and what is left of these is nothing or
begins with a bracket that closes the row. -/
theorem splitColumns_inverts_row :
    (∀ name cells tail, '(' ∉ name → '"' ∉ name → cells ≠ [] → (∀ cell ∈ cells, IsCell cell) →
      splitColumns (row name cells tail) = cells) ∧
    ∀ line, ∃ arguments, (∀ s, IsArguments line s ↔ s = arguments) ∧
      Covers (splitColumns line) arguments := by
  constructor
  · intro name cells tail hparen hquote hne hcells
    have harguments := isArguments_iff.mp (isArguments_row hparen hquote cells tail)
    rw [splitColumns, harguments, columnsFrom_intercalate hne hcells]
  · intro line
    refine ⟨(afterParen? false line).getD line, ?_, covers_columnsFrom false 0 _⟩
    intro s
    rw [isArguments_iff, eq_comm]

/-- Cells with a comma and brackets in quotes, and with commas in brackets of all kinds. -/
def weaponCells : List (List Char) :=
  ["WeaponPhaser", " \"Phaser, (the classic\"", " ARRAYDEF(\x7b[ LUA, END ), \")\"]\x7d", ""].map
    String.toList

theorem splitColumns_weaponCells :
    '(' ∉ "  WEAPON_ITEM".toList ∧ '"' ∉ "  WEAPON_ITEM".toList ∧ weaponCells ≠ [] ∧
      (∀ cell ∈ weaponCells, IsCell cell) ∧
      splitColumns (row "  WEAPON_ITEM".toList weaponCells " \\".toList) = weaponCells := by
  have hparen : '(' ∉ "  WEAPON_ITEM".toList := by decide
  have hquote : '"' ∉ "  WEAPON_ITEM".toList := by decide
  have hne : weaponCells ≠ [] := by decide
  have hcells : ∀ cell ∈ weaponCells, IsCell cell := by decide +kernel
  exact ⟨hparen, hquote, hne, hcells, splitColumns_inverts_row.1 _ _ _ hparen hquote hne hcells⟩

end BindingDocs
