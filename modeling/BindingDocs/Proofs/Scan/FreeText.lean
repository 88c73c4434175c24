import BindingDocs.Proofs.Scan.CommentClose
import BindingDocs.Proofs.Scan.Progress
import Mathlib.Control.Monad.Basic
import Mathlib.Data.List.Induction

/-!
# Where free text goes

A line inside a comment that holds no command is free text.  Where it is written depends on what has
come before it in the same comment, and on whether the comment was opened while an enum waited for
its table.  All of this is kept in three flags, which the commands of the comment set; a comment
that is opened later starts anew.

## Main definitions

* `commandOf?` — the command that a line inside a comment is read as.
* `Destination`, `destination` — the places for free text, and the one that the commands before it
  give it.
* `InComment` — lines that are read inside the same comment.
* `IsFreeText` — the lines that are free text.

## Main results

* `region_of_run` — the flags of a comment are those that its commands set.
* `exists_inComment` — whatever is read inside a comment has the line that opens it before it.
* `progress_of_freeText` — **free text goes to the place that the commands before it give it, and
  changes nothing else.**
-/

namespace BindingDocs.Scan

open Text

/-! ### Commands and flags -/

/-- The command that a line inside a comment is read as, unless a registration takes the line. -/
def commandOf? (d : Dialect) (raw : List Char) : Option Tag :=
  if Registration.ofLine? (normalise d raw) = none then Tag.ofLine? (normalise d raw) else none

/-- Whether the command announces an enum. -/
def Tag.isEnum : Tag → Bool
  | .enum _ => true
  | _ => false

/-- Whether the command is one on geometry. -/
def Tag.isGeom : Tag → Bool
  | .geom _ => true
  | _ => false

/-- What is known of a comment after a further command. -/
def Region.note (region : Region) : Tag → Region
  | .page => { region with hasCommand := true, mainPage := true }
  | .enum spec => { region with hasCommand := true, pending := some spec }
  | .geom _ => region
  | _ => { region with hasCommand := true }

/-- **The flags are set by commands and never reset.** -/
theorem foldl_note (region : Region) (commands : List Tag) :
    (commands.foldl Region.note region).mainPage =
        (region.mainPage || commands.contains .page) ∧
      (commands.foldl Region.note region).pending.isSome =
        (region.pending.isSome || commands.any Tag.isEnum) ∧
      (commands.foldl Region.note region).hasCommand =
        (region.hasCommand || commands.any (!·.isGeom)) := by
  induction commands generalizing region with
  | nil => simp
  | cons tag commands ih =>
    rw [List.foldl_cons]
    obtain ⟨hmainPage, hpending, hcommand⟩ := ih (region.note tag)
    rw [hmainPage, hpending, hcommand]
    cases tag <;> simp [Region.note, Tag.isEnum, Tag.isGeom]

section Lines

variable {d : Dialect} {raw : List Char} {region region' : Region} {es : List Effect}

/-- A line inside a comment sets the flags of its command. -/
theorem region_of_tagTransition {line : List Char} (h : TagTransition d line region region' es) :
    region' = (Tag.ofLine? line).elim region region.note := by
  cases h with
  | page htag | par htag | enum htag | geom htag | listing htag | func htag hsig | ofClass htag
  | ofVirtualClass htag | descr htag | freeText htag => rw [htag]; rfl

/-- A line that ends the comment does not lead to a comment. -/
theorem closesComment_of_step (h : (Mode.comment region).step d raw = some (.comment region', es)) :
    closesComment d raw = false := by
  by_contra hcloses
  rw [step_of_closesComment (by simpa using hcloses)] at h
  cases hpending : region.pending <;> rw [hpending] at h <;> cases h

/-- A line that does not end the comment sets the flags of its command. -/
theorem region_of_step {m' : Mode} (hraw : closesComment d raw = false)
    (h : (Mode.comment region).step d raw = some (m', es)) :
    m' = .comment ((commandOf? d raw).elim region region.note) := by
  unfold commandOf?
  cases Mode.transition_of_step h with
  | register hm hreg => simp [hreg]
  | tag hreg hclose htag =>
    rw [if_pos hreg, region_of_tagTransition htag]
  | closeBlock hreg hclose =>
    rw [contains_closer_normalise] at hclose
    rw [closesComment_iff.mpr ⟨hclose, hreg⟩] at hraw
    cases hraw

/-- **The flags of a comment are those that its commands set.** -/
theorem region_of_run {n : Nat} {inner : List (List Char)} {m' : Mode}
    (hinner : ∀ raw ∈ inner, closesComment d raw = false)
    (h : runLines d n (.comment region) inner = (es, .ok m')) :
    m' = .comment ((inner.filterMap (commandOf? d)).foldl Region.note region) := by
  induction inner generalizing n region es with
  | nil =>
    cases h
    rfl
  | cons raw inner ih =>
    obtain ⟨hraw, hrest⟩ := List.forall_mem_cons.mp hinner
    obtain ⟨m₁, es₁, es₂, hstep, hlater, -⟩ := runLines_cons_ok h
    rw [region_of_step hraw hstep] at hlater
    rw [ih hrest hlater, List.filterMap_cons]
    cases commandOf? d raw <;> rfl

end Lines

/-! ### Opening a comment -/

/-- The enum that waits for its table. -/
def Mode.waiting? : Mode → Option EnumSpec
  | .awaiting spec => some spec
  | _ => none

/-- A comment that is opened has no flag set but that of the enum that waits for its table. -/
theorem region_of_open {d : Dialect} {raw : List Char} {m : Mode} {region : Region}
    {es : List Effect} (hm : ∀ region, m ≠ .comment region)
    (h : m.step d raw = some (.comment region, es)) : region = { pending := m.waiting? } := by
  generalize hm' : Mode.comment region = m' at h
  cases Mode.transition_of_step h with
  | openBlock | interruptByBlock =>
    cases hm'
    rfl
  | register => exact absurd hm'.symm (hm region)
  | tag => exact absurd rfl (hm _)
  | closeBlock => exact absurd rfl (hm _)
  | @endTable kind names pending => cases pending <;> cases hm'
  | startTable | passCode | listMethod | interruptByTable | startRows | passAwaiting | row
  | lastRow => cases hm'

/-! ### Destinations -/

/-- The places for free text. -/
inductive Destination where
  | mainPage
  | enums
  | comments
  | nowhere
deriving DecidableEq, Repr

/-- The place for free text inside a comment, given the enum that was waiting for its table when the
comment was opened, and the commands of the comment so far. -/
def destination (carried : Option EnumSpec) (commands : List Tag) : Destination :=
  if commands.contains .page then .mainPage
  else if carried.isSome || commands.any Tag.isEnum then .enums
  else if commands.any (!·.isGeom) then .comments
  else .nowhere

/-- The progress with a fragment written to one of the places, and with nothing else changed. -/
def Progress.write (p : Progress) (fragment : String) : Destination → Progress
  | .mainPage =>
    { p with streams := { p.streams with mainPage := p.streams.mainPage ++ [fragment] } }
  | .enums => { p with streams := { p.streams with enums := p.streams.enums ++ [fragment] } }
  | .comments => { p with file := { p.file with comments := p.file.comments ++ [fragment] } }
  | .nowhere => p

/-- Free text has the one effect that the flags of the comment give it. -/
theorem advance_freeText (p : Progress) (carried : Option EnumSpec) (commands : List Tag)
    (line : List Char) :
    p.advance p.mode (Mode.freeText (commands.foldl Region.note { pending := carried }) line) =
      p.write (asFragment line) (destination carried commands) := by
  obtain ⟨hmainPage, hpending, hcommand⟩ := foldl_note { pending := carried } commands
  simp only [Bool.false_or] at hmainPage hpending hcommand
  unfold Mode.freeText destination
  rw [hmainPage, hpending, hcommand]
  split
  · simp [Progress.advance, Progress.write, Effect.onFile, Effect.onStreams, Effect.notice?]
  split
  · simp [Progress.advance, Progress.write, Effect.onFile, Effect.onStreams, Effect.notice?]
  split
  · simp [Progress.advance, Progress.write, Effect.onFile, Effect.onStreams, Effect.notice?]
  · simp [Progress.advance, Progress.write]

/-! ### Regions of a file -/

/-- The line `opener`, read after the lines `before`, opens a comment, and none of the lines `inner`
that follow it ends this comment.  When it was opened, the enum `carried`, if there is one, was
waiting for its table. -/
structure InComment (d : Dialect) (s : Streams) (before : List (List Char)) (opener : List Char)
    (inner : List (List Char)) (carried : Option EnumSpec) : Prop where
  outside : ∃ p, progress d s before = some p ∧ (∀ region, p.mode ≠ .comment region) ∧
    p.mode.waiting? = carried
  opened : ∃ p region, progress d s (before ++ [opener]) = some p ∧ p.mode = .comment region
  inside : ∀ raw ∈ inner, closesComment d raw = false

/-- A line inside a comment is free text: no registration takes it, it does not close the comment,
and it holds no command. -/
structure IsFreeText (d : Dialect) (raw : List Char) : Prop where
  registration : Registration.ofLine? (normalise d raw) = none
  closer : contains d.closer.toList raw = false
  command : Tag.ofLine? (normalise d raw) = none

theorem step_of_isFreeText {d : Dialect} {raw : List Char} (h : IsFreeText d raw)
    (region : Region) :
    (Mode.comment region).step d raw =
      some (.comment region, Mode.freeText region (normalise d raw)) := by
  have hcloser := h.closer
  rw [← contains_closer_normalise] at hcloser
  simp [Mode.step, Mode.seesRegistration, h.registration, Mode.dispatch, Mode.commentLine, hcloser,
    Mode.tagLine, h.command]

section Regions

variable {d : Dialect} {s : Streams} {before inner ls : List (List Char)}
  {opener raw : List Char} {carried : Option EnumSpec} {p : Progress} {region : Region}

/-- **Whatever is read inside a comment has the line that opens the comment before it.** -/
theorem exists_inComment (hp : progress d s ls = some p) (hmode : p.mode = .comment region) :
    ∃ before opener inner carried, ls = before ++ opener :: inner ∧
      InComment d s before opener inner carried := by
  -- backwards from the last line, up to the first one that was read outside of a comment
  induction ls using List.reverseRecOn generalizing p region with
  | nil =>
    obtain rfl : Progress.start s = p := Option.some.inj hp
    cases hmode
  | append_singleton ls raw ih =>
    obtain ⟨q, es, hq, hstep⟩ := exists_step_of_progress_concat hp
    by_cases hinside : ∃ region₀, q.mode = .comment region₀
    · obtain ⟨region₀, hregion⟩ := hinside
      obtain ⟨before, opener, inner, carried, rfl, h⟩ := ih hq hregion
      refine ⟨before, opener, inner ++ [raw], carried, by simp, h.outside, h.opened, ?_⟩
      have hraw : closesComment d raw = false := by
        rw [hregion, hmode] at hstep
        exact closesComment_of_step hstep
      intro raw' hraw'
      rcases List.mem_append.mp hraw' with hinner | hlast
      · exact h.inside raw' hinner
      · rw [List.mem_singleton.mp hlast]
        exact hraw
    · exact ⟨ls, raw, [], q.mode.waiting?, rfl, ⟨q, hq, not_exists.mp hinside, rfl⟩,
        ⟨p, region, hp, hmode⟩, by simp⟩

/-- The flags of a comment, by the commands that have been read in it. -/
theorem InComment.mode_eq (h : InComment d s before opener inner carried)
    (hp : progress d s (before ++ opener :: inner) = some p) :
    p.mode =
      .comment ((inner.filterMap (commandOf? d)).foldl Region.note { pending := carried }) := by
  obtain ⟨p₀, h₀, houtside, rfl⟩ := h.outside
  obtain ⟨p₁, region, h₁, hregion⟩ := h.opened
  -- the line that opens the comment
  obtain ⟨q, es, hq, hstep⟩ := exists_step_of_progress_concat h₁
  obtain rfl : p₀ = q := Option.some.inj (h₀.symm.trans hq)
  rw [hregion] at hstep
  obtain rfl := region_of_open houtside hstep
  -- the lines inside of it
  rw [List.append_cons] at hp
  obtain ⟨es', hrun⟩ := exists_run_of_progress_append h₁ hp
  rw [hregion] at hrun
  exact region_of_run h.inside hrun

/-- **Free text goes to the place that the commands before it give it, and changes nothing else.**
Let some lines of a file lead into a comment, and let the next line be free text.  Then one of the
lines has opened the comment, and none of those after it has ended it.  The free text is written as
it stands, up to the class commands of scripts: to the main page if a page command came before it in
the same comment; otherwise to the enum stream if an enum was announced before it in the same
comment, or was waiting for its table when the comment was opened; otherwise to the comments if any
other command than one on geometry came before it in the same comment; otherwise nowhere.  The mode,
the messages, and all fragments and streams but that one stay as they are. -/
theorem progress_of_freeText (hp : progress d s ls = some p) (hmode : p.mode = .comment region)
    (hraw : IsFreeText d raw) :
    (∃ before opener inner carried, ls = before ++ opener :: inner ∧
      InComment d s before opener inner carried) ∧
    ∀ before opener inner carried, ls = before ++ opener :: inner →
      InComment d s before opener inner carried →
        progress d s (ls ++ [raw]) =
          some (p.write (asFragment (normalise d raw))
            (destination carried (inner.filterMap (commandOf? d)))) := by
  refine ⟨exists_inComment hp hmode, ?_⟩
  rintro before opener inner carried rfl h
  have hflags := h.mode_eq hp
  have hstep := step_of_isFreeText hraw
    ((inner.filterMap (commandOf? d)).foldl Region.note { pending := carried })
  rw [← hflags] at hstep
  rw [progress_concat hp hstep, advance_freeText]

end Regions

/-- The lines of a script up to a comment that is opened while an enum waits for its table. -/
def shipBefore : List (List Char) :=
  ["--[[", "@luaenum T(0)", "--]]"].map String.toList

/-- The enum that waits for its table. -/
def shipEnum : EnumSpec := ⟨"T", 0, none, none⟩

/-- Lines of this comment: a registration, which takes the command and the closing after it, and a
command on geometry. -/
def shipInner : List (List Char) :=
  ["REGISTER_LUA_CLASS(A) @page --]]", "@geom square"].map String.toList

/-- The progress after these lines. -/
def shipProgress : Progress where
  mode := .comment { pending := some shipEnum }
  file :=
    { classes := [("A", { header := "class A \x7b \n public:\n", body := [] })]
      globals := []
      comments := ["/*!\n", "*/\n", "/*!\n", "\\par Geometry\nsquare\n"] }
  streams := { mainPage := [], enums := ["/**\n  * @defgroup TEnum T\n"] }
  notices := [.debug "enum T (value column 0)"]

/-- The progress after a page command on the next line. -/
def shipPageProgress : Progress :=
  { shipProgress with
    mode := .comment ⟨true, true, some shipEnum⟩
    streams := { shipProgress.streams with mainPage := ["@page p\n"] } }

/-- A line on which the command does not stand first. -/
def shipText : List Char := "see @luaclass Ship now".toList

theorem inComment_ship {inner : List (List Char)}
    (hinner : ∀ raw ∈ inner, closesComment .bracketed raw = false) :
    InComment .bracketed {} shipBefore "--[[".toList inner (some shipEnum) := by
  have hbefore : progress .bracketed {} shipBefore =
      some ((Progress.start {}).advance (.awaiting shipEnum)
        [.comment "/*!\n", .notice (.debug "enum T (value column 0)"),
          .enums "/**\n  * @defgroup TEnum T\n", .comment "*/\n"]) := by decide +kernel
  have hopen : (Mode.awaiting shipEnum).step .bracketed "--[[".toList =
      some (.comment { pending := some shipEnum }, [.comment "/*!\n"]) := by decide +kernel
  exact ⟨⟨_, hbefore, nofun, rfl⟩, ⟨_, _, progress_concat hbefore hopen, rfl⟩, hinner⟩

theorem progress_of_shipText :
    IsFreeText .bracketed shipText ∧
      progress .bracketed {} (shipBefore ++ "--[[".toList :: (shipInner ++ [shipText])) =
        some (shipProgress.write "see @luavclass Ship now\n" .enums) ∧
      progress .bracketed {}
          (shipBefore ++ "--[[".toList :: (shipInner ++ ["@page p".toList, shipText])) =
        some (shipPageProgress.write "see @luavclass Ship now\n" .mainPage) := by
  have htext : IsFreeText .bracketed shipText :=
    ⟨by decide +kernel, by decide +kernel, by decide +kernel⟩
  refine ⟨htext, ?_, ?_⟩
  · have hp : progress .bracketed {} (shipBefore ++ "--[[".toList :: shipInner) =
        some shipProgress := by decide +kernel
    have htold := (progress_of_freeText hp rfl htext).2 _ _ _ _ rfl
      (inComment_ship (by decide +kernel))
    rw [List.append_assoc, List.cons_append] at htold
    rw [htold]
    decide +kernel
  · have hp : progress .bracketed {}
        (shipBefore ++ "--[[".toList :: (shipInner ++ ["@page p".toList])) =
          some shipPageProgress := by decide +kernel
    have htold := (progress_of_freeText hp rfl htext).2 _ _ _ _ rfl
      (inComment_ship (by decide +kernel))
    rw [List.append_assoc, List.cons_append, List.append_assoc, List.singleton_append] at htold
    rw [htold]
    decide +kernel

end BindingDocs.Scan
