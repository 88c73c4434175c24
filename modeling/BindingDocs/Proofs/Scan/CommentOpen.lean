import BindingDocs.Proofs.Scan.Progress
import BindingDocs.Proofs.Text.CommentEnd

/-!
# Where a comment begins

In the dialects with block comments a line of source text opens a documentation comment if it holds
`/**` and the comment does not end on the same line.  The end is looked for behind all three
characters of the opening.  Since the second star of an opening can be the star of a closing, a
comment that ends right there, `/**/`, is taken for one that goes on.

## Main definitions

* `LoneOpening` — a line of source text on which `/*` stands once.
* `EndsOnLine`, `BeginsDocumentation` — what a comment on such a line is by the rules of C.
* `EndsAtOnce` — a comment whose end is overlooked.
* `EntersComment` — a line takes the scanner into a comment.

## Main results

* `opensComment_iff` — what the scanner looks for on such a line.
* `entersComment_iff` — **which of these lines take the scanner into a comment.**
-/

namespace BindingDocs.Scan

open Text

/-! ### Openings and closings on a line -/

/-- A line of source text that can open a comment at one place only: no registration takes it, it
starts no method table, and `/*` stands on it once, after `before`. -/
structure LoneOpening (raw before : List Char) : Prop where
  registration : Registration.ofLine? raw = none
  methods : MethodKind.start? raw = none
  once : ∀ b, b ++ "/*".toList <+: raw ↔ b = before

/-- The comment that begins after `before` ends on the line: the star of a closing stands behind
both characters of the opening. -/
def EndsOnLine (raw before : List Char) : Prop :=
  ∃ b rest, raw = b ++ ("*/".toList ++ rest) ∧ before.length + 2 ≤ b.length

/-- The comment that begins after `before` is a documentation comment and does not end on the
line. -/
def BeginsDocumentation (raw before : List Char) : Prop :=
  before ++ "/**".toList <+: raw ∧ ¬ EndsOnLine raw before

/-- The comment that begins after `before` ends with the star it begins with, and no other closing
stands on the line. -/
def EndsAtOnce (raw before : List Char) : Prop :=
  ∃ rest, raw = before ++ ("/**/".toList ++ rest) ∧ StaysOpen rest

/-- What ends a comment stands in the text behind its opening. -/
theorem endsOnLine_iff {before opening after : List Char} (hopening : opening.length = 2) :
    EndsOnLine (before ++ (opening ++ after)) before ↔ ¬ StaysOpen after := by
  rw [StaysOpen, Classical.not_not]
  constructor
  · rintro ⟨b, rest, hline, hbehind⟩
    rw [← List.append_assoc] at hline
    rcases List.append_eq_append_iff.mp hline with ⟨c, -, hafter⟩ | ⟨c, hlead, hrest⟩
    · exact ⟨c, rest, by rw [hafter, List.append_assoc]⟩
    · -- the opening reaches up to the closing at most
      have hlength := congrArg List.length hlead
      simp only [List.length_append, hopening] at hlength
      obtain rfl : c = [] := List.length_eq_zero_iff.mp (by omega)
      exact ⟨[], rest, by simpa using hrest⟩
  · rintro ⟨b, rest, rfl⟩
    refine ⟨before ++ (opening ++ b), rest, by simp, ?_⟩
    simp only [List.length_append, hopening]
    omega

/-- A star in front of a text ends a comment with it exactly if the text begins with a slash. -/
theorem staysOpen_star_cons {s : List Char} :
    StaysOpen ('*' :: s) ↔ s.head? ≠ some '/' ∧ StaysOpen s := by
  have hhead : "*/".toList <+: '*' :: s ↔ s.head? = some '/' := by
    cases s <;> simp [eq_comm]
  rw [StaysOpen, List.infix_cons_iff, hhead, not_or, StaysOpen]

section Line

variable {d : Dialect} {raw before : List Char}

/-- **What the scanner looks for on a line with one opening**: the comment is a documentation
comment, and no closing stands behind the three characters that it begins with. -/
theorem opensComment_iff (hd : d ≠ .bracketed) (h : LoneOpening raw before) :
    opensComment d raw = true ↔
      ∃ rest, raw = before ++ ("/**".toList ++ rest) ∧ StaysOpen rest := by
  have htokens : d.opener = "/**" ∧ d.closer = "*/" := by
    cases d with
    | bracketed => exact absurd rfl hd
    | block | plain => exact ⟨rfl, rfl⟩
  rw [opensComment, htokens.1, htokens.2]
  constructor
  · intro hopens
    split at hopens
    · next b rest hsplit =>
      -- the first `/**` begins with the one `/*` of the line
      have hline := splitFirst?_eq_some hsplit
      obtain rfl := (h.once b).mp ⟨'*' :: rest, by simp [hline]⟩
      exact ⟨rest, hline, staysOpen_iff.mpr (by simpa using hopens)⟩
    · cases hopens
  · rintro ⟨rest, hline, hrest⟩
    have hfound := isSome_splitFirst?_append before "/**".toList rest
    rw [← hline, Option.isSome_iff_exists] at hfound
    obtain ⟨⟨b, rest'⟩, hsplit⟩ := hfound
    have hline' := splitFirst?_eq_some hsplit
    obtain rfl := (h.once b).mp ⟨'*' :: rest', by simp [hline']⟩
    rw [hline, List.append_cancel_left_eq, List.append_cancel_left_eq] at hline'
    subst hline'
    rw [hsplit]
    simpa using staysOpen_iff.mp hrest

/-- By the rules of C a documentation comment goes on if nothing behind `/*` ends it. -/
theorem beginsDocumentation_iff {rest : List Char} :
    BeginsDocumentation (before ++ ("/**".toList ++ rest)) before ↔ StaysOpen ('*' :: rest) := by
  have hends : EndsOnLine (before ++ ("/*".toList ++ '*' :: rest)) before ↔
      ¬ StaysOpen ('*' :: rest) := endsOnLine_iff rfl
  change EndsOnLine (before ++ ("/**".toList ++ rest)) before ↔ _ at hends
  have hbegins : before ++ "/**".toList <+: before ++ ("/**".toList ++ rest) := ⟨rest, by simp⟩
  rw [BeginsDocumentation, hends, Classical.not_not, and_iff_right hbegins]

/-- By the rules of C the line begins a documentation comment, or its end is overlooked. -/
theorem exists_staysOpen_iff :
    (∃ rest, raw = before ++ ("/**".toList ++ rest) ∧ StaysOpen rest) ↔
      BeginsDocumentation raw before ∨ EndsAtOnce raw before := by
  constructor
  · rintro ⟨rest, rfl, hrest⟩
    rw [beginsDocumentation_iff, staysOpen_star_cons, and_iff_left hrest]
    by_cases hslash : rest.head? = some '/'
    · obtain ⟨rest', rfl⟩ := List.head?_eq_some_iff.mp hslash
      exact Or.inr ⟨rest', by simp, staysOpen_of_isInfix (List.suffix_cons '/' rest').isInfix hrest⟩
    · exact Or.inl hslash
  · rintro (hbegins | ⟨rest, rfl, hrest⟩)
    · obtain ⟨rest, rfl⟩ := hbegins.1
      rw [List.append_assoc, beginsDocumentation_iff, staysOpen_star_cons] at hbegins
      exact ⟨rest, List.append_assoc .., hbegins.2⟩
    · refine ⟨'/' :: rest, by simp, staysOpen_append_of_left (s := ['/']) (by simp) ?_ hrest⟩
      exact staysOpen_of_not_mem (by simp)

/-- A comment whose end is overlooked does end on the line. -/
theorem EndsAtOnce.endsOnLine (h : EndsAtOnce raw before) : EndsOnLine raw before := by
  obtain ⟨rest, rfl, -⟩ := h
  exact ⟨before ++ "/*".toList, rest, by simp, by simp⟩

end Line

/-! ### Entering a comment -/

/-- The line `raw`, read after the lines `ls`, takes the scanner into a comment. -/
def EntersComment (d : Dialect) (s : Streams) (ls : List (List Char)) (raw : List Char) : Prop :=
  ∃ p region, progress d s (ls ++ [raw]) = some p ∧ p.mode = .comment region

/-- **Which lines with one opening take the scanner into a comment.**  Let a line of source text
hold `/*` once, and let no registration and no method table begin on it.  The line takes the scanner
into a comment, of which nothing is known yet, and opens a block; or it changes nothing.  The first
happens if the line begins a documentation comment that does not end on it, and also if the comment
is empty and ends with its second star.  So the rule that only a comment that goes on is entered
holds of the line exactly when its comment does not end at once. -/
theorem entersComment_iff {d : Dialect} (hd : d ≠ .bracketed) {s : Streams}
    {ls : List (List Char)} {p : Progress} {raw before : List Char}
    (hp : progress d s ls = some p) (hmode : p.mode = .code) (h : LoneOpening raw before) :
    (EntersComment d s ls raw →
      progress d s (ls ++ [raw]) = some (p.advance (.comment {}) [.comment blockOpen])) ∧
    (¬ EntersComment d s ls raw → progress d s (ls ++ [raw]) = some p) ∧
    (EntersComment d s ls raw ↔ BeginsDocumentation raw before ∨ EndsAtOnce raw before) ∧
    ((EntersComment d s ls raw ↔ BeginsDocumentation raw before) ↔ ¬ EndsAtOnce raw before) := by
  have hraw : normalise d raw = raw := if_neg hd
  have hstep : p.mode.step d raw =
      some (if opensComment d raw then (.comment {}, [.comment blockOpen]) else (.code, [])) := by
    simp [hmode, Mode.step, Mode.seesRegistration, hraw, h.registration, Mode.dispatch,
      Mode.codeLine, h.methods]
  have hnext : progress d s (ls ++ [raw]) =
      some (if opensComment d raw then p.advance (.comment {}) [.comment blockOpen] else p) := by
    by_cases hopens : opensComment d raw = true
    · rw [if_pos hopens] at hstep ⊢
      exact progress_concat hp hstep
    · rw [if_neg hopens] at hstep ⊢
      rw [progress_concat hp hstep, ← hmode]
      simp [Progress.advance]
  have henters : EntersComment d s ls raw ↔ opensComment d raw = true := by
    unfold EntersComment
    rw [hnext]
    split
    · next hopens => simp [hopens, Progress.advance]
    · next hopens => simp [hopens, hmode]
  have hiff := henters.trans ((opensComment_iff hd h).trans exists_staysOpen_iff)
  refine ⟨?_, ?_, hiff, ?_⟩
  · intro hopens
    rw [hnext, if_pos (henters.mp hopens)]
  · intro hopens
    rw [hnext, if_neg (mt henters.mpr hopens)]
  · rw [hiff]
    constructor
    · intro hrule hends
      exact (hrule.mp (Or.inr hends)).2 hends.endsOnLine
    · intro hends
      rw [or_iff_left hends]

/-- A file that begins with an empty comment. -/
def emptyCommentFile : List Char := "/**/\nint x;\n".toList

theorem not_beginsDocumentation_emptyComment :
    LoneOpening "/**/".toList [] ∧ ¬ BeginsDocumentation "/**/".toList [] ∧
      EntersComment .block {} [] "/**/".toList ∧
      (scan .block {} emptyCommentFile).result.toOption =
        some { comments := [blockOpen, blockClose] } := by
  have hopening : LoneOpening "/**/".toList [] := by
    refine ⟨by decide +kernel, by decide +kernel, ?_⟩
    intro b
    constructor
    · rintro ⟨rest, hrest⟩
      match b with
      | [] => rfl
      | [a] | [a, b] | [a, b, c] | a :: b :: c :: e :: b' => simp at hrest
    · rintro rfl
      exact ⟨"*/".toList, rfl⟩
  have hends : EndsAtOnce "/**/".toList [] := ⟨[], rfl, by decide⟩
  have hstart : progress .block {} [] = some (.start {}) := rfl
  obtain ⟨-, -, hiff, -⟩ := entersComment_iff (by decide) hstart rfl hopening
  exact ⟨hopening, fun h => h.2 hends.endsOnLine, hiff.mpr (Or.inr hends), by decide +kernel⟩

end BindingDocs.Scan
