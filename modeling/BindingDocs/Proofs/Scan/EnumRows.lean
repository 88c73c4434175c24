import BindingDocs.Proofs.EnumTable.Widened
import BindingDocs.Proofs.Scan.Progress
import Mathlib.Control.Monad.Basic

/-!
# Reading the table of an enum

Inside the table of an enum a line is a row and nothing else.  The table takes all lines up to and
including the first one after which it does not go on, or all that are left of the file; the lines
that list a value are answered by bullets, in order, and the end of the table or of the file by the
end of the list.  Registrations, method tables, comments and commands mean nothing there.

## Main definitions

* `bulletsOf` — the bullets of lines that are read as rows.

## Main results

* `step_row`, `step_lastRow` — one line.
* `runLines_rows`, `runLines_table` — lines after which the table goes on, and a whole table.
* `progress_of_rows` — **what the table takes, what it adds, and that it changes nothing else.**
-/

namespace BindingDocs.Scan

open Text

/-- The bullets of lines that are read as rows: one for every line that lists a value. -/
def bulletsOf (d : Dialect) (spec : EnumSpec) (ls : List (List Char)) : List String :=
  (ls.filter fun raw => spec.ListsValue raw).map fun raw => spec.bulletOf (normalise d raw)

section Rows

variable {d : Dialect} {spec : EnumSpec} {raw : List Char} {table : List (List Char)}

theorem bulletsOf_append (ls ls' : List (List Char)) :
    bulletsOf d spec (ls ++ ls') = bulletsOf d spec ls ++ bulletsOf d spec ls' := by
  simp [bulletsOf]

/-! ### One line -/

theorem widened_normalise (d : Dialect) (raw : List Char) : Widened raw (normalise d raw) := by
  unfold normalise
  split
  · exact .replace raw
  · exact .refl raw

/-- The row on a line, asked of the line as it stands in the file. -/
theorem readRow_normalise :
    spec.readRow (normalise d raw) = (bulletsOf d spec [raw], decide (Continues raw)) := by
  have hwidened := widened_normalise d raw
  have hcontinues : decide (Continues (normalise d raw)) = decide (Continues raw) :=
    decide_eq_decide.mpr hwidened.continues_iff.symm
  rw [EnumSpec.readRow_eq, hcontinues]
  by_cases hlists : spec.ListsValue raw
  · rw [if_pos ((hwidened.listsValue_iff spec).mp hlists)]
    simp [bulletsOf, hlists]
  · rw [if_neg fun h => hlists ((hwidened.listsValue_iff spec).mpr h)]
    simp [bulletsOf, hlists]

/-- A line after which the table goes on. -/
theorem step_row (h : Continues raw) :
    (Mode.rows spec).step d raw = some (.rows spec, (bulletsOf d spec [raw]).map .enums) := by
  simp [Mode.step, Mode.seesRegistration, Mode.dispatch, Mode.rowsLine, readRow_normalise, h]

/-- A line that ends the table. -/
theorem step_lastRow (h : ¬ Continues raw) :
    (Mode.rows spec).step d raw =
      some (.code, (bulletsOf d spec [raw] ++ EnumSpec.tableEnd).map .enums) := by
  simp [Mode.step, Mode.seesRegistration, Mode.dispatch, Mode.rowsLine, readRow_normalise, h]

/-! ### Many lines -/

/-- **Lines after which the table goes on** add their bullets and stay inside of it. -/
theorem runLines_rows (h : ∀ raw ∈ table, Continues raw) (n : Nat) :
    runLines d n (.rows spec) table = ((bulletsOf d spec table).map .enums, .ok (.rows spec)) := by
  induction table generalizing n with
  | nil => rfl
  | cons raw table ih =>
    obtain ⟨hraw, htable⟩ := List.forall_mem_cons.mp h
    rw [runLines, step_row hraw]
    simp only [ih htable]
    rw [← List.map_append, ← bulletsOf_append, List.singleton_append]

/-- **A whole table** adds its bullets and the end of the list, and leads back to the source
text. -/
theorem runLines_table {last : List Char} (h : ∀ raw ∈ table, Continues raw)
    (hlast : ¬ Continues last) (n : Nat) :
    runLines d n (.rows spec) (table ++ [last]) =
      ((bulletsOf d spec (table ++ [last]) ++ EnumSpec.tableEnd).map .enums, .ok .code) := by
  rw [runLines_append (runLines_rows h n), runLines, step_lastRow hlast]
  simp [runLines, bulletsOf_append]

end Rows

/-- **What the table of an enum takes, what it adds, and that it changes nothing else.**  Let the
lines `before` of a file lead into the table of an enum, and let any lines follow.  As long as the
table goes on after each of them, the lines add their bullets and the scanner stays in the table.
The first line after which it does not go on is still a row; then comes the end of the list, and
the scanner is back in the source text.  If there is no such line, the end of the file writes the
end of the list.  The fragments of the file, the main page and, up to the end of the file, the
messages stay as they are, whatever stands on the lines.  Both questions, whether the table
`Continues` after a line and whether the line `ListsValue` and so has a bullet, are asked of the
line as it stands in the file. -/
theorem progress_of_rows {d : Dialect} {s : Streams} {before : List (List Char)} {p : Progress}
    {spec : EnumSpec} (hp : progress d s before = some p) (hmode : p.mode = .rows spec)
    (following : List (List Char)) :
    (∀ table, table <+: following → (∀ raw ∈ table, Continues raw) →
      progress d s (before ++ table) =
        some (p.addEnums (.rows spec) (bulletsOf d spec table))) ∧
    (∀ table last rest, following = table ++ last :: rest → (∀ raw ∈ table, Continues raw) →
      ¬ Continues last →
        progress d s (before ++ (table ++ [last])) =
          some (p.addEnums .code (bulletsOf d spec (table ++ [last]) ++ EnumSpec.tableEnd))) ∧
    ((∀ raw ∈ following, Continues raw) → ∀ text, lines text = before ++ following →
      (scan d s text).result = .ok p.file ∧
        (scan d s text).streams =
          { p.streams with
            enums := p.streams.enums ++ (bulletsOf d spec following ++ EnumSpec.tableEnd) }) := by
  have hrows : ∀ table : List (List Char), (∀ raw ∈ table, Continues raw) →
      progress d s (before ++ table) =
        some (p.addEnums (.rows spec) (bulletsOf d spec table)) := by
    intro table htable
    have hrun : runLines d (1 + before.length) p.mode table =
        ((bulletsOf d spec table).map .enums, .ok (.rows spec)) := by
      rw [hmode]
      exact runLines_rows htable _
    rw [progress_append hp hrun, Progress.advance_enums]
  refine ⟨fun table _ htable => hrows table htable, ?_, ?_⟩
  · intro table last rest _ htable hlast
    rw [progress_append hp (hmode ▸ runLines_table htable hlast _), Progress.advance_enums]
  · intro hall text htext
    have hend := hrows following hall
    rw [← htext] at hend
    obtain ⟨hresult, hstreams, -⟩ := scan_of_progress hend
    rw [hresult, hstreams]
    simp [Progress.addEnums, Progress.advance, Mode.finish, Mode.warning, EnumSpec.tableEnd,
      Effect.onFile, Effect.onStreams]

/-- The lines of a script up to the table of an enum with descriptions and hidden values. -/
def weaponBefore : List (List Char) :=
  ["--[[", "@luaenum Weapon(0, 1, 2)", "--]]", "#define WEAPONS \\"].map String.toList

/-- The progress after these lines. -/
def weaponProgress : Progress where
  mode := .rows ⟨"Weapon", 0, some 1, some 2⟩
  file := ⟨[], [], ["/*!\n", "*/\n"]⟩
  streams := ⟨[], ["/**\n  * @defgroup WeaponEnum Weapon\n", "@\x7b\n", "# Weapon\n"]⟩
  notices := [.debug "enum Weapon (value column 0)"]

/-- Rows with a command, with a comment that is opened and a registration, and with comments. -/
def weaponRows : List (List Char) :=
  ["R(@luaclass, \"a class\") /* \\ */ \\", "--[[ REGISTER_LUA_CLASS(Ship, x, \"false\") \\",
    "  /* R(b) */ \\", "// R(c) \\"].map String.toList

/-- The last row, which is the end of a method table elsewhere. -/
def weaponLast : List Char := "GENERATE_LUA_METHODS_TABLE(Ship, L)".toList

theorem progress_of_weaponRows :
    progress .bracketed {} weaponBefore = some weaponProgress ∧
      progress .bracketed {} (weaponBefore ++ (weaponRows ++ [weaponLast])) =
        some (weaponProgress.addEnums .code
          [" * * %Weapon.%@luavclass <br>\n `a class` <br>\n",
            " * * %Weapon.%Ship <br>\n `L` <br>\n", "@\x7d\n", "*/\n\n"]) ∧
      progress .bracketed {} (weaponBefore ++ weaponRows) =
        some (weaponProgress.addEnums weaponProgress.mode
          [" * * %Weapon.%@luavclass <br>\n `a class` <br>\n"]) := by
  have hp : progress .bracketed {} weaponBefore = some weaponProgress := by decide +kernel
  obtain ⟨hrows, htable, -⟩ := progress_of_rows hp rfl (weaponRows ++ [weaponLast])
  have hcontinues : ∀ raw ∈ weaponRows, Continues raw := by decide +kernel
  refine ⟨hp, ?_, ?_⟩
  · rw [htable weaponRows weaponLast [] rfl hcontinues (by decide +kernel)]
    decide +kernel
  · rw [hrows weaponRows ⟨[weaponLast], rfl⟩ hcontinues]
    decide +kernel

end BindingDocs.Scan
