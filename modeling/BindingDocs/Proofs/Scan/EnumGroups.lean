import BindingDocs.Proofs.Scan.Transition
import Mathlib.Control.Monad.Basic

/-!
# The enum stream is a sequence of complete groups

A group of the enum stream is opened by a tag, collects free text, and is closed either at once or
by a table of values.  Between its opening and its closing the scanner may leave the comment, read a
method table, enter other comments, meet another tag, or run out of lines.

What the scanner still owes the stream depends only on its `Stage`: nothing, the rest of a group
whose table has not begun, or the rest of a table.  `Stage.Completes` says that a list of fragments
pays this debt and then consists of complete groups; every move of the scanner, and the end of the
file, keeps it so.

## Main definitions

* `EnumGroup`, `EnumGroup.fragments` — a group, and what it looks like in the stream.
* `Stage`, `Mode.stage` — where the stream stands.
* `scanFiles` — files scanned in order with the same streams.

## Main results

* `completes_of_transition`, `completes_finish` — the invariant of one line and of the end.
* `enums_of_scanFiles` — after any number of files the stream consists of complete groups of each.
-/

namespace BindingDocs.Scan

open Text

/-! ### Groups -/

/-- A group of the enum stream. -/
structure EnumGroup where
  /-- The tag that opens it. -/
  spec : EnumSpec
  /-- The lines of free text. -/
  text : List (List Char)
  /-- The values with their descriptions, if the table was found. -/
  table : Option (List (String × String))

namespace EnumGroup

/-- The bullets of a table of values. -/
def bullets (spec : EnumSpec) (values : List (String × String)) : List String :=
  values.map fun v => spec.bullet v.1 v.2

/-- How a group ends: with a table, or without. -/
def ending (spec : EnumSpec) : (table : Option (List (String × String))) → List String
  | none => [EnumSpec.groupAbandon]
  | some values => spec.tableStart ++ (bullets spec values ++ EnumSpec.tableEnd)

/-- The fragments of a group: its opening, its text and its ending. -/
def fragments (g : EnumGroup) : List String :=
  g.spec.groupOpen :: (g.text.map asFragment ++ ending g.spec g.table)

end EnumGroup

/-- A list of fragments is a sequence of complete groups whose lines of text satisfy `P`. -/
def Groups (P : List Char → Prop) (out : List String) : Prop :=
  ∃ groups : List EnumGroup, out = groups.flatMap EnumGroup.fragments ∧
    ∀ g ∈ groups, ∀ line ∈ g.text, P line

/-! ### Stages -/

/-- Where the enum stream stands. -/
inductive Stage where
  /-- No group is open. -/
  | between
  /-- A group is open and its table has not begun. -/
  | within (spec : EnumSpec)
  /-- The table of a group is open. -/
  | listing (spec : EnumSpec)

/-- The stage while an enum, if there is one, waits for its table. -/
def Stage.ofPending : Option EnumSpec → Stage
  | none => between
  | some spec => within spec

/-- The stage that belongs to a mode. -/
def Mode.stage : Mode → Stage
  | .code => .between
  | .methods _ _ pending => .ofPending pending
  | .comment r => .ofPending r.pending
  | .awaiting spec => .within spec
  | .rows spec => .listing spec

@[simp] theorem Stage.ofPending_none : Stage.ofPending none = between := rfl

@[simp] theorem Stage.ofPending_some (spec : EnumSpec) :
    Stage.ofPending (some spec) = within spec := rfl

@[simp] theorem Mode.stage_code : Mode.code.stage = .between := rfl

@[simp] theorem Mode.stage_methods (kind : MethodKind) (names : List String)
    (pending : Option EnumSpec) :
    (Mode.methods kind names pending).stage = .ofPending pending := rfl

@[simp] theorem Mode.stage_comment (r : Region) :
    (Mode.comment r).stage = .ofPending r.pending := rfl

@[simp] theorem Mode.stage_awaiting (spec : EnumSpec) :
    (Mode.awaiting spec).stage = .within spec := rfl

@[simp] theorem Mode.stage_rows (spec : EnumSpec) : (Mode.rows spec).stage = .listing spec := rfl

@[simp] theorem Mode.stage_resume (pending : Option EnumSpec) :
    (Mode.resume pending).stage = .ofPending pending := by cases pending <;> rfl

/-- The fragments `out` finish what is open at a stage and then consist of complete groups. -/
def Stage.Completes (P : List Char → Prop) : Stage → (out : List String) → Prop
  | between, out => Groups P out
  | within spec, out => ∃ (text : List (List Char)) (table : Option (List (String × String)))
      (rest : List String), out = text.map asFragment ++ (EnumGroup.ending spec table ++ rest) ∧
        (∀ line ∈ text, P line) ∧ Groups P rest
  | listing spec, out => ∃ values rest,
      out = EnumGroup.bullets spec values ++ (EnumSpec.tableEnd ++ rest) ∧ Groups P rest

section Stages

variable {P : List Char → Prop} {spec : EnumSpec} {out : List String}

theorem groups_nil : Groups P [] := ⟨[], rfl, by simp⟩

/-- An opening turns the rest of a group into a group. -/
theorem groups_open (h : (Stage.within spec).Completes P out) :
    Groups P (spec.groupOpen :: out) := by
  obtain ⟨text, table, rest, rfl, htext, groups, rfl, hgroups⟩ := h
  refine ⟨⟨spec, text, table⟩ :: groups, ?_, ?_⟩
  · simp [EnumGroup.fragments]
  · intro g hg
    rcases List.mem_cons.mp hg with rfl | hg
    · exact htext
    · exact hgroups g hg

/-- A group may be closed before its table. -/
theorem completes_abandon (h : Groups P out) :
    (Stage.within spec).Completes P (EnumSpec.groupAbandon :: out) :=
  ⟨[], none, out, rfl, by simp, h⟩

/-- A group may take another line of text before its table. -/
theorem completes_text {line : List Char} (hline : P line)
    (h : (Stage.within spec).Completes P out) :
    (Stage.within spec).Completes P (asFragment line :: out) := by
  obtain ⟨text, table, rest, rfl, htext, hrest⟩ := h
  refine ⟨line :: text, table, rest, rfl, ?_, hrest⟩
  intro l hl
  rcases List.mem_cons.mp hl with rfl | hl
  · exact hline
  · exact htext l hl

/-- A group may begin its table. -/
theorem completes_tableStart (h : (Stage.listing spec).Completes P out) :
    (Stage.within spec).Completes P (spec.tableStart ++ out) := by
  obtain ⟨values, rest, rfl, hrest⟩ := h
  exact ⟨[], some values, rest, by simp [EnumGroup.ending], by simp, hrest⟩

/-- A line of a table adds bullets of its enum only. -/
theorem exists_bullets_readRow (spec : EnumSpec) (line : List Char) :
    ∃ values, (spec.readRow line).1 = EnumGroup.bullets spec values := by
  simp only [EnumSpec.readRow]
  split
  · exact ⟨[], rfl⟩
  · split
    · exact ⟨[], rfl⟩
    · exact ⟨[(_, _)], rfl⟩

/-- A table may take the bullets of another line. -/
theorem completes_row (line : List Char) (h : (Stage.listing spec).Completes P out) :
    (Stage.listing spec).Completes P ((spec.readRow line).1 ++ out) := by
  obtain ⟨values, rest, rfl, hrest⟩ := h
  obtain ⟨new, hnew⟩ := exists_bullets_readRow spec line
  refine ⟨new ++ values, rest, ?_, hrest⟩
  simp [hnew, EnumGroup.bullets]

/-- A table may end, and its group with it. -/
theorem completes_tableEnd (h : Groups P out) :
    (Stage.listing spec).Completes P (EnumSpec.tableEnd ++ out) :=
  ⟨[], out, rfl, h⟩

end Stages

/-! ### The invariant -/

/-- Effects on the enum stream only are what they write. -/
theorem enumText?_map_enums (fragments : List String) :
    (fragments.map Effect.enums).filterMap Effect.enumText? = fragments := by
  induction fragments with
  | nil => rfl
  | cons fragment fragments ih =>
    rw [List.map_cons, List.filterMap_cons, ih]
    rfl

section Invariant

variable {P : List Char → Prop} {d : Dialect} {line : List Char} {out : List String}

/-- The moves inside a comment keep the stream in order. -/
theorem completes_of_tagTransition {r r' : Region} {es : List Effect}
    (ht : TagTransition d line r r' es) (hline : P line)
    (h : (Stage.ofPending r'.pending).Completes P out) :
    (Stage.ofPending r.pending).Completes P (es.filterMap Effect.enumText? ++ out) := by
  cases ht with
  | enum htag =>
    have hopen : Stage.between.Completes P _ := groups_open h
    rcases hp : r.pending with _ | old
    · -- no group is open: the tag opens one
      simpa [Mode.enumEffects, hp, Effect.enumText?, List.filterMap_cons] using hopen
    · -- the open group is closed first
      simpa [Mode.enumEffects, hp, Effect.enumText?, List.filterMap_cons] using
        completes_abandon hopen
  | freeText htag =>
    unfold Mode.freeText
    split
    · simpa [Effect.enumText?, List.filterMap_cons] using h
    · split
      · next hpending =>
        -- the only text that goes to an enum, and one is open
        obtain ⟨spec, hspec⟩ := Option.isSome_iff_exists.mp hpending
        rw [hspec] at h ⊢
        simpa [Effect.enumText?, List.filterMap_cons] using completes_text hline h
      · split <;> simpa [Effect.enumText?, List.filterMap_cons] using h
  | func htag hsig =>
    unfold Mode.funcEffects
    split <;> simpa [Effect.enumText?, List.filterMap_cons] using h
  | page htag | par htag | geom htag | listing htag | ofClass htag | ofVirtualClass htag
  | descr htag => simpa [Effect.enumText?, List.filterMap_cons] using h

/-- **Every move keeps the stream in order**: what finishes the stream after the move also finishes
it before, together with what the move writes. -/
theorem completes_of_transition {m m' : Mode} {es : List Effect} (ht : Transition d line m m' es)
    (hline : P line) (h : m'.stage.Completes P out) :
    m.stage.Completes P (es.filterMap Effect.enumText? ++ out) := by
  cases ht with
  | tag hreg hclose htag => exact completes_of_tagTransition htag hline h
  | startRows hreg hstart hopen hdef =>
    rw [enumText?_map_enums]
    exact completes_tableStart h
  | row hmore =>
    rw [enumText?_map_enums]
    exact completes_row line h
  | @lastRow spec hlast =>
    -- the bullets of the last row come before the end of the table
    have hend : (Stage.listing spec).Completes P (EnumSpec.tableEnd ++ out) := completes_tableEnd h
    rw [enumText?_map_enums, List.append_assoc]
    exact completes_row line hend
  | @endTable kind names pending owner hreg howner =>
    cases kind <;> simpa [MethodKind.table, Effect.enumText?, List.filterMap_cons] using h
  | register hm hreg | closeBlock hreg hclose | startTable hreg hstart
  | openBlock hreg hstart hopen | passCode hreg hstart hopen | listMethod hreg howner
  | interruptByTable hreg hstart | interruptByBlock hreg hstart hopen
  | passAwaiting hreg hstart hopen hdef =>
    -- the stream stays where it is, even while a table or a comment interrupts the enum
    simpa [Effect.enumText?, List.filterMap_cons] using h

/-- The end of a file finishes the stream. -/
theorem completes_finish (m : Mode) :
    m.stage.Completes P (m.finish.filterMap Effect.enumText?) := by
  cases m with
  | code => exact groups_nil
  | methods kind names pending =>
    cases pending with
    | none => exact groups_nil
    | some spec => exact completes_abandon groups_nil
  | comment r =>
    obtain ⟨mainPage, hasCommand, pending⟩ := r
    cases pending with
    | none => exact groups_nil
    | some spec => exact completes_abandon groups_nil
  | awaiting spec => exact completes_abandon groups_nil
  | rows spec => exact completes_tableEnd groups_nil

/-- A file that is scanned to its end writes complete groups, and their text consists of lines of
the file. -/
theorem groups_of_effects {text : List Char} {es : List Effect} (h : effects d text = (es, none)) :
    Groups (· ∈ (lines text).map (normalise d)) (es.filterMap Effect.enumText?) := by
  -- from the end of the file backwards: in the first mode no group is open
  refine effects_induction
    (P := fun m es => m.stage.Completes _ (es.filterMap Effect.enumText?)) ?_ ?_ h
  · exact completes_finish
  · intro raw hraw m m' es rest hstep hrest
    rw [List.filterMap_append]
    exact completes_of_transition (Mode.transition_of_step hstep) (List.mem_map_of_mem hraw) hrest

end Invariant

/-! ### Many files -/

/-- Scans files in order with the same streams, up to the first one that fails. -/
def scanFiles : Streams → (files : List (Dialect × List Char)) → Except ScanError Streams
  | s, [] => .ok s
  | s, (d, text) :: rest =>
    match (scan d s text).result with
    | .ok _ => scanFiles (scan d s text).streams rest
    | .error e => .error e

/-- What one file on its own writes into the enum stream. -/
def enumsOf (file : Dialect × List Char) : List String := (scan file.1 {} file.2).streams.enums

/-- **The enum stream consists of complete groups, file by file.**  If all files can be scanned,
then the stream is what it was before, followed by what every file writes on its own; this is a
sequence of complete groups, each with the opening, text from the lines of that file, and the ending
of one enum. -/
theorem enums_of_scanFiles {s s' : Streams} {files : List (Dialect × List Char)}
    (h : scanFiles s files = .ok s') :
    s'.enums = s.enums ++ files.flatMap enumsOf ∧
      ∀ file ∈ files, ∃ groups : List EnumGroup,
        enumsOf file = groups.flatMap EnumGroup.fragments ∧
          ∀ g ∈ groups, ∀ line ∈ g.text, line ∈ (lines file.2).map (normalise file.1) := by
  induction files generalizing s with
  | nil =>
    cases h
    simp
  | cons file files ih =>
    obtain ⟨d, text⟩ := file
    rw [scanFiles] at h
    split at h
    · next f hf =>
      obtain ⟨hstream, hgroups⟩ := ih h
      refine ⟨?_, ?_⟩
      · rw [hstream, streams_scan, List.flatMap_cons, List.append_assoc, enumsOf]
      · intro file hfile
        rcases List.mem_cons.mp hfile with rfl | hfile
        · obtain ⟨es, hes, -⟩ := scan_result_eq_ok.mp hf
          have henums : enumsOf (d, text) = es.filterMap Effect.enumText? := by
            simp [enumsOf, scan_streams hes, Effect.foldl_onStreams]
          rw [henums]
          exact groups_of_effects hes
        · exact hgroups file hfile
    · simp at h

/-- A file that ends inside the comment of its second enum, and one that ends inside a table. -/
def unfinishedFiles : List (Dialect × List Char) :=
  [(.block, "/**\n@luaenum A(0)\n@luaenum B(0)\ntext".toList),
    (.bracketed, "--[[\n@luaenum C(0)\n--]]\n#define T \\\nR(one) \\".toList)]

/-- The groups of these files.  What was open at the end of each file is closed. -/
def unfinishedEnums : List String :=
  ["/**\n  * @defgroup AEnum A\n", "*/\n\n", "/**\n  * @defgroup BEnum B\n", "text\n", "*/\n\n",
    "/**\n  * @defgroup CEnum C\n", "@\x7b\n", "# C\n", " * * %C.%one <br>\n", "@\x7d\n", "*/\n\n"]

theorem enums_of_unfinishedFiles :
    scanFiles {} unfinishedFiles = .ok ⟨[], unfinishedEnums⟩ ∧
      unfinishedEnums = unfinishedFiles.flatMap enumsOf := by
  have h : scanFiles {} unfinishedFiles = .ok ⟨[], unfinishedEnums⟩ := by decide +kernel
  exact ⟨h, by simpa using (enums_of_scanFiles h).1⟩

end BindingDocs.Scan
