import BindingDocs.Proofs.Scan.EnumRows
import BindingDocs.Proofs.Scan.Reading
import Mathlib.Data.List.Infix

/-!
# The macro that a table is made of

The table of an enum is a macro that is defined over several lines.  The scanner enters the table
with the line on which the definition begins, and from then on asks of each line whether the table
goes on after it.  It does not ask this of the line with the definition.  So a row belongs to the
same macro as all rows before it, but to the macro with whose definition the table was entered only
if this definition goes on at all.

## Main definitions

* `Reading.bullets` — the bullets that a line adds to the enum stream.
* `ReadInTable` — a line is read in the table that another line starts.
* `MinesOwnMacros` — every bullet comes from a line of the macro that starts its table.

## Main results

* `effects_of_rows` — what a line read in a table adds.
* `step_of_readings` — a line is read in the mode to which the line before has led.
* `exists_start_of_rows` — a line read in a table has the start of the table before it.
* `minesOwnMacros_iff` — **the files whose bullets all come from the macro of their table.**
-/

namespace BindingDocs.Scan

open Text

/-- The bullets that a line adds to the enum stream. -/
def Reading.bullets (d : Dialect) (r : Reading) : List String :=
  match r.mode with
  | .rows spec => bulletsOf d spec [r.raw]
  | _ => []

/-- **A line read in a table adds its bullets**, and the end of the list if it ends the table. -/
theorem effects_of_rows {d : Dialect} {spec : EnumSpec} {r : Reading} (hr : r.mode = .rows spec) :
    r.effects d =
      (r.bullets d ++ if Continues r.raw then [] else EnumSpec.tableEnd).map .enums := by
  simp only [Reading.effects, Reading.bullets, hr]
  by_cases hcontinues : Continues r.raw
  · rw [step_row hcontinues, if_pos hcontinues, List.append_nil]
    rfl
  · rw [step_lastRow hcontinues, if_neg hcontinues]
    rfl

/-- The lines of a file begin with `before`, `define`, `between` and `row`.  The line `define` is
read while an enum waits for its table, and `row` and the lines `between` are read in the table. -/
structure ReadInTable (d : Dialect) (text : List Char) (before : List Reading) (define : Reading)
    (between : List Reading) (row : Reading) : Prop where
  inFile : before ++ define :: (between ++ [row]) <+: readingsOf d text
  table : ∃ spec, define.mode = .awaiting spec ∧ ∀ r ∈ between ++ [row], r.mode = .rows spec

/-- Every bullet comes from a line of the macro that starts its table: the line that starts the
table, and every line from there up to the line of the bullet, goes on. -/
def MinesOwnMacros (d : Dialect) (text : List Char) : Prop :=
  ∀ before define between row, ReadInTable d text before define between row →
    row.bullets d ≠ [] → ∀ r ∈ define :: between, Continues r.raw

/-- A line that starts the table of an enum that waits for it. -/
structure StartsTable (d : Dialect) (line : List Char) : Prop where
  /-- No registration takes the line. -/
  registration : Registration.ofLine? line = none
  /-- The line does not start a method table. -/
  methods : MethodKind.start? line = none
  /-- The line does not open a comment. -/
  comment : opensComment d line = false
  /-- The line defines a macro. -/
  macroLine : isDefine line = true

theorem step_of_startsTable {d : Dialect} {spec : EnumSpec} {raw : List Char}
    (h : StartsTable d (normalise d raw)) :
    (Mode.awaiting spec).step d raw = some (.rows spec, spec.tableStart.map .enums) := by
  simp [Mode.step, Mode.seesRegistration, h.registration, Mode.dispatch, Mode.awaitingLine,
    h.methods, h.comment, h.macroLine]

section Readings

variable {d : Dialect} {m : Mode} {ls : List (List Char)} {spec : EnumSpec}

/-- The first line is read in the first mode. -/
theorem mode_of_readings {r : Reading} {after : List Reading}
    (h : readings d m ls = r :: after) : r.mode = m := by
  cases ls with
  | nil => cases h
  | cons raw ls =>
    rw [readings] at h
    split at h
    · cases h
    · obtain ⟨rfl, -⟩ := List.cons.inj h
      rfl

/-- **A line is read in the mode to which the line before has led.** -/
theorem step_of_readings {before after : List Reading} {r r' : Reading}
    (h : readings d m ls = before ++ r :: r' :: after) :
    ∃ es, r.mode.step d r.raw = some (r'.mode, es) := by
  induction ls generalizing m before with
  | nil => simp [readings] at h
  | cons raw ls ih =>
    rw [readings] at h
    split at h
    · simp at h
    · next m' es hstep =>
      cases before with
      | nil =>
        obtain ⟨rfl, hrest⟩ := List.cons.inj h
        exact ⟨es, by rw [mode_of_readings hrest]; exact hstep⟩
      | cons b before =>
        obtain ⟨-, hrest⟩ := List.cons.inj h
        exact ih hrest

/-- A table is entered while its enum waits for it, or stays open after a line that goes on. -/
theorem of_step_rows {raw : List Char} {es : List Effect}
    (h : m.step d raw = some (.rows spec, es)) :
    m = .awaiting spec ∨ (m = .rows spec ∧ Continues raw) := by
  generalize hm' : Mode.rows spec = m' at h
  cases Mode.transition_of_step h with
  | startRows hreg hstart hopen hdef =>
    cases hm'
    exact Or.inl rfl
  | row hmore =>
    cases hm'
    rw [readRow_normalise, decide_eq_true_iff] at hmore
    exact Or.inr ⟨rfl, hmore⟩
  | register hm hreg =>
    subst hm'
    cases hm
  | @endTable kind names pending => cases pending <;> cases hm'
  | @closeBlock region =>
    cases hpending : region.pending <;> rw [hpending] at hm' <;> cases hm'
  | startTable | openBlock | passCode | listMethod | tag | interruptByTable | interruptByBlock
  | passAwaiting | lastRow => cases hm'

/-- **A line read in a table has the start of the table before it**, and the table goes on after
all lines between the two. -/
theorem exists_start_of_rows {lead after : List Reading} {row : Reading}
    (h : readings d .code ls = lead ++ row :: after) (hrow : row.mode = .rows spec) :
    ∃ before define between, lead = before ++ define :: between ∧ define.mode = .awaiting spec ∧
      ∀ r ∈ between, r.mode = .rows spec ∧ Continues r.raw := by
  -- backwards from the row, up to the first line that was read outside of the table
  induction lead using List.reverseRecOn generalizing row after with
  | nil =>
    rw [mode_of_readings h] at hrow
    cases hrow
  | append_singleton lead b ih =>
    rw [List.append_assoc, List.singleton_append] at h
    obtain ⟨es, hstep⟩ := step_of_readings h
    rw [hrow] at hstep
    rcases of_step_rows hstep with hstart | ⟨hb, hcontinues⟩
    · exact ⟨lead, b, [], rfl, hstart, by simp⟩
    · obtain ⟨before, define, between, rfl, hstart, hbetween⟩ := ih h hb
      refine ⟨before, define, between ++ [b], by simp, hstart, ?_⟩
      intro r hr
      rcases List.mem_append.mp hr with hr | hr
      · exact hbetween r hr
      · obtain rfl := List.mem_singleton.mp hr
        exact ⟨hb, hcontinues⟩

end Readings

section Tables

variable {d : Dialect} {text : List Char} {before between : List Reading} {define row : Reading}

/-- The table goes on after all lines that are read in it before another one. -/
theorem ReadInTable.continues (h : ReadInTable d text before define between row) :
    ∀ r ∈ between, Continues r.raw := by
  obtain ⟨⟨after, hfile⟩, spec, -, hrows⟩ := h
  intro r hr
  obtain ⟨a, b, rfl⟩ := List.append_of_mem hr
  -- some line is read after `r`, and that in the table
  obtain ⟨r', rest, hr'⟩ := List.exists_cons_of_ne_nil (l := b ++ [row]) (by simp)
  have hmode' : r'.mode = .rows spec := hrows r' (by
    have hmem : r' ∈ b ++ [row] := by simp [hr']
    simp only [List.append_assoc, List.cons_append, List.mem_append, List.mem_cons] at hmem ⊢
    tauto)
  have hfile' : readingsOf d text = (before ++ define :: a) ++ r :: r' :: (rest ++ after) := by
    rw [← hfile]
    have hcut := congrArg (· ++ after) hr'
    simp only [List.append_assoc, List.cons_append] at hcut ⊢
    rw [hcut]
  obtain ⟨es, hstep⟩ := step_of_readings hfile'
  rw [hmode'] at hstep
  rcases of_step_rows hstep with hwaits | ⟨-, hcontinues⟩
  · rw [hrows r (by simp)] at hwaits
    cases hwaits
  · exact hcontinues

end Tables

/-- **The files whose bullets all come from the macro of their table.**  Whenever a line adds a
bullet, a line before it has started the table, and the table goes on after all lines between the
two; the line adds nothing but its bullet and, if it ends the table, the end of the list.  So the
bullets of a file all come from the macro that starts their table exactly when this macro goes on
after its first line for every table that has a bullet.  The scanner does not make sure of it: every
definition of a macro starts the table, and whatever stands on the next line is then read as a
row. -/
theorem minesOwnMacros_iff (d : Dialect) (text : List Char) :
    (∀ lead row, lead ++ [row] <+: readingsOf d text → row.bullets d ≠ [] →
      (∃ before define between, lead = before ++ define :: between ∧
        ReadInTable d text before define between row ∧ ∀ r ∈ between, Continues r.raw) ∧
      row.effects d =
        (row.bullets d ++ if Continues row.raw then [] else EnumSpec.tableEnd).map .enums) ∧
    (MinesOwnMacros d text ↔
      ∀ before define between row, ReadInTable d text before define between row →
        row.bullets d ≠ [] → Continues define.raw) ∧
    ∀ before define next spec, before ++ [define, next] <+: readingsOf d text →
      define.mode = .awaiting spec → StartsTable d (define.line d) →
        next.mode = .rows spec ∧ next.bullets d = bulletsOf d spec [next.raw] := by
  refine ⟨?_, ?_, ?_⟩
  · intro lead row hfile hbullets
    obtain ⟨spec, hrow⟩ : ∃ spec, row.mode = .rows spec := by
      unfold Reading.bullets at hbullets
      split at hbullets
      · next spec hmode => exact ⟨spec, hmode⟩
      · exact absurd rfl hbullets
    obtain ⟨after, hafter⟩ := hfile
    rw [List.append_assoc, List.singleton_append] at hafter
    have hread : readings d .code (lines text) = lead ++ row :: after := hafter.symm
    obtain ⟨before, define, between, rfl, hstart, hbetween⟩ := exists_start_of_rows hread hrow
    refine ⟨⟨before, define, between, rfl, ⟨⟨after, ?_⟩, spec, hstart, ?_⟩,
      fun r hr => (hbetween r hr).2⟩, effects_of_rows hrow⟩
    · rw [← hafter]
      simp
    · intro r hr
      rcases List.mem_append.mp hr with hr | hr
      · exact (hbetween r hr).1
      · rw [List.mem_singleton.mp hr]
        exact hrow
  · constructor
    · intro hmines before define between row htable hbullets
      exact hmines before define between row htable hbullets define List.mem_cons_self
    · intro hdefines before define between row htable hbullets
      exact List.forall_mem_cons.mpr
        ⟨hdefines before define between row htable hbullets, htable.continues⟩
  · intro before define next spec hfile hwaits hstarts
    obtain ⟨after, hafter⟩ := hfile
    rw [List.append_assoc, List.cons_append, List.singleton_append] at hafter
    have hread : readings d .code (lines text) = before ++ define :: next :: after := hafter.symm
    obtain ⟨es, hstep⟩ := step_of_readings hread
    rw [hwaits, step_of_startsTable hstarts, Option.some.injEq, Prod.mk.injEq] at hstep
    have hmode : next.mode = .rows spec := hstep.1.symm
    exact ⟨hmode, by rw [Reading.bullets, hmode]⟩

deriving instance DecidableEq for Reading

/-- A file that defines a guard and declares a function between the comment of an enum and its
table. -/
def guardFile : List Char :=
  ("/**\n@luaenum Weapon(0)\n*/\n#define WEAPONS_H\nint fire(a);\n" ++
    "#define WEAPONS \\\nITEM(Phaser)\n").toList

theorem not_minesOwnMacros_guardFile :
    (scan .block {} guardFile).streams.enums =
        ["/**\n  * @defgroup WeaponEnum Weapon\n", "@\x7b\n", "# Weapon\n",
          " * * %Weapon.%a <br>\n", "@\x7d\n", "*/\n\n"] ∧
      ¬ MinesOwnMacros .block guardFile := by
  refine ⟨by decide +kernel, ?_⟩
  rw [(minesOwnMacros_iff .block guardFile).2.1]
  intro hdefines
  have htable : ReadInTable .block guardFile ((readingsOf .block guardFile).take 3)
      ⟨.awaiting ⟨"Weapon", 0, none, none⟩, "#define WEAPONS_H".toList⟩ []
      ⟨.rows ⟨"Weapon", 0, none, none⟩, "int fire(a);".toList⟩ :=
    ⟨by decide +kernel, ⟨"Weapon", 0, none, none⟩, rfl, by simp⟩
  have hcontinues := hdefines _ _ _ _ htable (by decide +kernel)
  exact absurd hcontinues (by decide +kernel)

end BindingDocs.Scan
