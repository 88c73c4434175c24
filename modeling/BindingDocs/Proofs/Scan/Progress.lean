import BindingDocs.Proofs.Scan.Transition

/-!
# Where a scan stands between two lines

After some lines of a file the scanner is in a mode, and the effects of these lines have made some
fragments, have reached the streams and have led to messages.  This is all that the scan has come to
so far; the lines that follow only add to it, and the end of the file closes what is open.

## Main definitions

* `Progress` — the mode, the fragments, the streams and the messages.
* `progress` — the progress of a scan after some lines.
* `Progress.advance` — the progress after further effects.

## Main results

* `progress_append` — reading on.
* `scan_of_progress` — the progress after the last line gives the outcome of the scan.
-/

namespace BindingDocs.Scan

open Text

/-- Where a scan stands between two lines. -/
structure Progress where
  /-- What the scanner is inside of. -/
  mode : Mode
  /-- What the file has contributed to its header. -/
  file : FileFragments
  /-- The streams, with what the file has added to them. -/
  streams : Streams
  /-- The messages, in order. -/
  notices : List Notice
deriving DecidableEq

/-- The progress after further effects, which lead to the mode `m`. -/
def Progress.advance (p : Progress) (m : Mode) (es : List Effect) : Progress where
  mode := m
  file := es.foldl Effect.onFile p.file
  streams := es.foldl Effect.onStreams p.streams
  notices := p.notices ++ es.filterMap Effect.notice?

/-- The progress in the mode `m` with fragments added to the enum stream, and with nothing else
changed. -/
def Progress.addEnums (p : Progress) (m : Mode) (fragments : List String) : Progress :=
  { p with
    mode := m
    streams := { p.streams with enums := p.streams.enums ++ fragments } }

/-- The progress of a scan at the beginning of a file. -/
def Progress.start (s : Streams) : Progress := ⟨.code, {}, s, []⟩

/-- The progress of a scan after some lines, if they are all accepted. -/
def progress (d : Dialect) (s : Streams) (ls : List (List Char)) : Option Progress :=
  match runLines d 1 .code ls with
  | (es, .ok m) => some ((Progress.start s).advance m es)
  | (_, .error _) => none

section Progress

variable {d : Dialect} {s : Streams} {p : Progress} {m m' : Mode} {es es' : List Effect}

theorem Progress.advance_advance :
    (p.advance m es).advance m' es' = p.advance m' (es ++ es') := by
  simp [Progress.advance]

/-- Effects on the enum stream change nothing else. -/
theorem Progress.advance_enums (fragments : List String) :
    p.advance m (fragments.map .enums) = p.addEnums m fragments := by
  induction fragments generalizing p with
  | nil => simp [Progress.advance, Progress.addEnums]
  | cons fragment fragments ih =>
    have hfirst : p.advance m [.enums fragment] = p.addEnums m [fragment] := by
      simp [Progress.advance, Progress.addEnums, Effect.onFile, Effect.onStreams, Effect.notice?]
    have hsplit : p.advance m ((fragment :: fragments).map .enums) =
        (p.advance m [.enums fragment]).advance m (fragments.map .enums) := by
      rw [Progress.advance_advance]
      rfl
    rw [hsplit, ih, hfirst]
    simp [Progress.addEnums]

/-- The progress comes from a run over the lines. -/
theorem progress_eq_some_iff {ls : List (List Char)} :
    progress d s ls = some p ↔
      ∃ es, runLines d 1 .code ls = (es, .ok p.mode) ∧
        (Progress.start s).advance p.mode es = p := by
  unfold progress
  rcases runLines d 1 .code ls with ⟨es, e | m⟩
  · simp
  · simp only [Option.some.injEq, Prod.mk.injEq, Except.ok.injEq]
    constructor
    · rintro rfl
      exact ⟨es, ⟨rfl, rfl⟩, rfl⟩
    · rintro ⟨_, ⟨rfl, rfl⟩, hp⟩
      exact hp

/-- **Reading on** from where the lines before have led. -/
theorem progress_append {before after : List (List Char)} (hbefore : progress d s before = some p)
    (hafter : runLines d (1 + before.length) p.mode after = (es, .ok m)) :
    progress d s (before ++ after) = some (p.advance m es) := by
  obtain ⟨es₀, hrun, hp⟩ := progress_eq_some_iff.mp hbefore
  rw [progress, runLines_append hrun, hafter]
  simp only [← Progress.advance_advance (m := p.mode), hp]

/-- Reading a further line. -/
theorem progress_concat {before : List (List Char)} {raw : List Char}
    (hbefore : progress d s before = some p) (hstep : p.mode.step d raw = some (m, es)) :
    progress d s (before ++ [raw]) = some (p.advance m es) := by
  refine progress_append hbefore ?_
  simp [runLines, hstep]

/-- What follows lines that are all accepted begins where they have led. -/
theorem exists_run_of_progress_append {before after : List (List Char)} {q : Progress}
    (hbefore : progress d s before = some p) (h : progress d s (before ++ after) = some q) :
    ∃ es, runLines d (1 + before.length) p.mode after = (es, .ok q.mode) := by
  obtain ⟨es₀, hrun, -⟩ := progress_eq_some_iff.mp hbefore
  obtain ⟨es, hall, -⟩ := progress_eq_some_iff.mp h
  rw [runLines_append hrun] at hall
  exact ⟨_, Prod.ext rfl (Prod.mk.inj hall).2⟩

/-- Lines that are accepted begin with lines that are accepted. -/
theorem exists_run_of_append {n : Nat} {before after : List (List Char)}
    (h : runLines d n m (before ++ after) = (es, .ok m')) :
    ∃ m₁ es₁, runLines d n m before = (es₁, .ok m₁) := by
  induction before generalizing n m es with
  | nil => exact ⟨m, [], rfl⟩
  | cons raw before ih =>
    obtain ⟨m₁, es₁, es₂, hstep, hrest, -⟩ := runLines_cons_ok h
    obtain ⟨m₂, es₃, hrun⟩ := ih hrest
    exact ⟨m₂, es₁ ++ es₃, by rw [runLines, hstep]; simp only [hrun]⟩

/-- The last line has been read where the lines before it have led. -/
theorem exists_step_of_progress_concat {before : List (List Char)} {raw : List Char}
    {q : Progress} (h : progress d s (before ++ [raw]) = some q) :
    ∃ p es, progress d s before = some p ∧ p.mode.step d raw = some (q.mode, es) := by
  obtain ⟨es, hall, -⟩ := progress_eq_some_iff.mp h
  obtain ⟨m₁, es₁, hrun⟩ := exists_run_of_append hall
  have hbefore : progress d s before = some ((Progress.start s).advance m₁ es₁) :=
    progress_eq_some_iff.mpr ⟨es₁, hrun, rfl⟩
  obtain ⟨es', hlast⟩ := exists_run_of_progress_append hbefore h
  obtain ⟨m₂, es₂, es₃, hstep, hend, -⟩ := runLines_cons_ok hlast
  obtain ⟨-, rfl⟩ : es₃ = [] ∧ m₂ = q.mode := by simpa [runLines, eq_comm] using hend
  exact ⟨_, es₂, hbefore, hstep⟩

/-- **The progress after the last line gives the outcome of the scan**, once what is open has been
closed. -/
theorem scan_of_progress {text : List Char} (h : progress d s (lines text) = some p) :
    (scan d s text).result = .ok (p.advance p.mode p.mode.finish).file ∧
      (scan d s text).streams = (p.advance p.mode p.mode.finish).streams ∧
      (scan d s text).notices = (p.advance p.mode p.mode.finish).notices := by
  obtain ⟨es, hrun, hp⟩ := progress_eq_some_iff.mp h
  rw [← hp, Progress.advance_advance]
  simp only [Progress.advance, scan, effects, hrun]
  exact ⟨rfl, rfl, rfl⟩

end Progress

end BindingDocs.Scan
