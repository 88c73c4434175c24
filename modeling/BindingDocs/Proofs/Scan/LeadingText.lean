import BindingDocs.Proofs.Scan.FreeText
import BindingDocs.Proofs.Scan.Refusal

/-!
# Text before the first command

A comment is documentation from its first command on; what stands before it is a remark for the
reader of the source.  The scanner drops such text, unless the comment was opened while an enum was
waiting for its table: there the open group of the enum takes all text that is no command.

## Main definitions

* `LeadingText` — text that no command comes before in its comment.
* `DropsLeadingText` — a file whose leading text is written nowhere.

## Main results

* `exists_progress_of_inComment` — lines without commands are all accepted.
* `enums_isPrefix_of_progress` — what has reached the enum stream stays in it.
* `dropsLeadingText_iff` — **the files whose leading text is dropped.**
-/

namespace BindingDocs.Scan

open Text

variable {d : Dialect} {s : Streams} {text : List Char}

/-- The lines of a text begin with `before`, `opener`, `inner` and `raw`.  The line `opener` opens a
comment, in which the other lines stand; none of them is read as a command, and `raw` is free text.
When the comment was opened, the enum `carried`, if there is one, was waiting for its table. -/
structure LeadingText (d : Dialect) (s : Streams) (text : List Char) (before : List (List Char))
    (opener : List Char) (inner : List (List Char)) (raw : List Char)
    (carried : Option EnumSpec) : Prop where
  inFile : before ++ opener :: (inner ++ [raw]) <+: lines text
  inComment : InComment d s before opener inner carried
  leading : ∀ line ∈ inner, commandOf? d line = none
  freeText : IsFreeText d raw

/-- No text before the first command of its comment reaches the comments, the main page or the enum
stream. -/
def DropsLeadingText (d : Dialect) (s : Streams) (text : List Char) : Prop :=
  ∀ before opener inner raw carried, LeadingText d s text before opener inner raw carried →
    ∀ p q, progress d s (before ++ opener :: inner) = some p →
      progress d s (before ++ opener :: inner ++ [raw]) = some q →
        q.file.comments = p.file.comments ∧ q.streams = p.streams

/-! ### Lines before the first command -/

/-- A line that is read as no command is accepted. -/
theorem step_ne_none_of_commandOf? {m : Mode} {raw : List Char} (h : commandOf? d raw = none) :
    m.step d raw ≠ none := by
  intro hstep
  obtain ⟨-, hline⟩ := step_eq_none_iff.mp hstep
  have hfunc := Tag.ofLine?_eq_func_iff.mpr ⟨hline.higher, hline.function⟩
  rw [commandOf?, if_pos hline.registration, hfunc] at h
  cases h

/-- **Lines without commands are all accepted.** -/
theorem exists_progress_of_inComment {before inner : List (List Char)} {opener : List Char}
    {carried : Option EnumSpec} (h : InComment d s before opener inner carried)
    (hinner : ∀ line ∈ inner, commandOf? d line = none) :
    ∃ p, progress d s (before ++ opener :: inner) = some p := by
  induction inner using List.reverseRecOn with
  | nil =>
    obtain ⟨p, region, hp, -⟩ := h.opened
    exact ⟨p, hp⟩
  | append_singleton inner raw ih =>
    have hbefore : InComment d s before opener inner carried :=
      ⟨h.outside, h.opened, fun line hline => h.inside line (List.mem_append_left _ hline)⟩
    obtain ⟨p, hp⟩ := ih hbefore fun line hline => hinner line (List.mem_append_left _ hline)
    have haccepted : p.mode.step d raw ≠ none :=
      step_ne_none_of_commandOf? (hinner raw (by simp))
    obtain ⟨⟨m, es⟩, hstep⟩ := Option.ne_none_iff_exists'.mp haccepted
    have hnext := progress_concat hp hstep
    rw [List.append_assoc, List.cons_append] at hnext
    exact ⟨_, hnext⟩

/-- **What has reached the enum stream stays in it** to the end of the scan, also if a later line is
refused. -/
theorem enums_isPrefix_of_progress {ls : List (List Char)} {p : Progress}
    (hp : progress d s ls = some p) (hls : ls <+: lines text) :
    p.streams.enums <+: (scan d s text).streams.enums := by
  obtain ⟨es, hrun, hp⟩ := progress_eq_some_iff.mp hp
  have hreached : p.streams = es.foldl Effect.onStreams s := congrArg Progress.streams hp.symm
  obtain ⟨rest, hrest⟩ := hls
  obtain ⟨later, hlater⟩ : ∃ later, (effects d text).1 = es ++ later := by
    rw [effects, ← hrest, runLines_append hrun]
    split
    · next es' m hall =>
      obtain ⟨rfl, -⟩ := Prod.mk.inj hall
      exact ⟨_ ++ m.finish, List.append_assoc ..⟩
    · next es' e hall =>
      obtain ⟨rfl, -⟩ := Prod.mk.inj hall
      exact ⟨_, rfl⟩
  have hstreams : (scan d s text).streams = (effects d text).1.foldl Effect.onStreams s := rfl
  rw [hstreams, hlater, List.foldl_append, ← hreached, Effect.foldl_onStreams]
  exact List.prefix_append ..

/-! ### Leading text -/

section LeadingText

variable {before inner : List (List Char)} {opener raw : List Char} {carried : Option EnumSpec}

/-- **Leading text goes to the open group of the enum that was waiting**, if there is one, and
nowhere otherwise. -/
theorem LeadingText.exists_progress (h : LeadingText d s text before opener inner raw carried) :
    ∃ p, progress d s (before ++ opener :: inner) = some p ∧
      progress d s (before ++ opener :: inner ++ [raw]) =
        some (p.write (asFragment (normalise d raw))
          (if carried.isSome then .enums else .nowhere)) := by
  obtain ⟨p, hp⟩ := exists_progress_of_inComment h.inComment h.leading
  refine ⟨p, hp, ?_⟩
  have hcommands : inner.filterMap (commandOf? d) = [] := List.filterMap_eq_nil_iff.mpr h.leading
  -- no flag has been set, so the comment is as it was when it was opened
  have hmode : p.mode = .comment { pending := carried } := by
    rw [h.inComment.mode_eq hp, hcommands, List.foldl_nil]
  have hstep := step_of_isFreeText h.freeText { pending := carried }
  rw [← hmode] at hstep
  have hplace : destination carried [] = if carried.isSome then .enums else .nowhere := by
    simp [destination]
  rw [progress_concat hp hstep, ← hplace]
  exact congrArg some (advance_freeText p carried [] (normalise d raw))

end LeadingText

/-- **The files whose leading text is dropped.**  Text before the first command of its comment
leaves everything as it is if no enum was waiting for its table when the comment was opened; with
such an enum it is written to the enum stream, where it stands after the scan, and nothing else is
changed.  So the leading text of a file is dropped exactly when all of it stands in comments that
are opened while no enum waits for its table. -/
theorem dropsLeadingText_iff (d : Dialect) (s : Streams) (text : List Char) :
    (∀ before opener inner raw, LeadingText d s text before opener inner raw none →
      ∃ p, progress d s (before ++ opener :: inner) = some p ∧
        progress d s (before ++ opener :: inner ++ [raw]) = some p) ∧
    (∀ before opener inner raw spec,
      LeadingText d s text before opener inner raw (some spec) →
        (∃ p, progress d s (before ++ opener :: inner) = some p ∧
          progress d s (before ++ opener :: inner ++ [raw]) =
            some (p.write (asFragment (normalise d raw)) .enums)) ∧
        asFragment (normalise d raw) ∈ (scan d s text).streams.enums) ∧
    (DropsLeadingText d s text ↔
      ∀ before opener inner raw carried,
        LeadingText d s text before opener inner raw carried → carried = none) := by
  refine ⟨fun before opener inner raw h => h.exists_progress, ?_, ?_⟩
  · intro before opener inner raw spec h
    obtain ⟨p, hp, hwritten⟩ := h.exists_progress
    refine ⟨⟨p, hp, hwritten⟩, ?_⟩
    have hfile : before ++ opener :: inner ++ [raw] <+: lines text := by
      rw [List.append_assoc, List.cons_append]
      exact h.inFile
    refine (enums_isPrefix_of_progress hwritten hfile).subset ?_
    simp [Progress.write]
  · constructor
    · intro hdrops before opener inner raw carried h
      obtain ⟨p, hp, hwritten⟩ := h.exists_progress
      by_contra hcarried
      rw [if_pos (Option.isSome_iff_ne_none.mpr hcarried)] at hwritten
      -- the enum stream has grown
      have henums := congrArg Streams.enums (hdrops _ _ _ _ _ h p _ hp hwritten).2
      simp [Progress.write] at henums
    · intro hnone before opener inner raw carried h p q hp hq
      obtain ⟨p', hp', hwritten⟩ := h.exists_progress
      obtain rfl := hnone _ _ _ _ _ h
      obtain rfl := Option.some.inj (hp.symm.trans hp')
      obtain rfl := Option.some.inj (hq.symm.trans hwritten)
      exact ⟨rfl, rfl⟩

/-- A file with a remark between the comment of an enum and its table. -/
def remarkFile : List Char :=
  "/**\n@luaenum T(0)\n*/\n/**\nTODO rename\n*/\n#define T \\\nITEM(a)\n".toList

theorem not_dropsLeadingText_remarkFile :
    ¬ DropsLeadingText .block {} remarkFile ∧
      (scan .block {} remarkFile).streams.enums =
        ["/**\n  * @defgroup TEnum T\n", "TODO rename\n", "@\x7b\n", "# T\n",
          " * * %T.%a <br>\n", "@\x7d\n", "*/\n\n"] := by
  have hbefore : progress .block {} (["/**", "@luaenum T(0)", "*/"].map String.toList) =
      some ((Progress.start {}).advance (.awaiting shipEnum)
        [.comment "/*!\n", .notice (.debug "enum T (value column 0)"),
          .enums "/**\n  * @defgroup TEnum T\n", .comment "*/\n"]) := by decide +kernel
  have hopen : (Mode.awaiting shipEnum).step .block "/**".toList =
      some (.comment { pending := some shipEnum }, [.comment "/*!\n"]) := by decide +kernel
  have hleading : LeadingText .block {} remarkFile
      (["/**", "@luaenum T(0)", "*/"].map String.toList) "/**".toList [] "TODO rename".toList
      (some shipEnum) :=
    ⟨by decide +kernel,
      ⟨⟨_, hbefore, nofun, rfl⟩, ⟨_, _, progress_concat hbefore hopen, rfl⟩, by simp⟩, by simp,
      ⟨by decide +kernel, by decide +kernel, by decide +kernel⟩⟩
  refine ⟨?_, by decide +kernel⟩
  rw [(dropsLeadingText_iff .block {} remarkFile).2.2]
  intro hnone
  cases hnone _ _ _ _ _ hleading

end BindingDocs.Scan
