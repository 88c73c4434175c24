import BindingDocs.Proofs.Scan.Transition
import BindingDocs.Proofs.Text.Reader
import Mathlib.Control.Monad.Basic

/-!
# Where a scan fails

The only line that is refused is a function annotation that names no method, and an annotation is
looked at only inside a comment, on a line that no registration, no closing and no command of higher
rank has taken.  The lines before it were all accepted, so their effects have reached the streams;
the line itself and everything after it has no effect, not even that of closing what is open.

## Main definitions

* `NamesNoMethod` — the lines that are refused inside a comment.
* `RefusedAfter` — a line that is refused after lines that were all accepted.

## Main results

* `step_eq_none_iff` — the lines that a mode refuses.
* `runLines_refused` — what is read up to a refused line, whatever follows it.
* `scan_eq_error_iff` — **when a scan fails, and what it leaves behind.**
-/

namespace BindingDocs.Scan

open Text

/-! ### One line -/

/-- A function command counts when no command of higher rank stands on its line. -/
theorem Tag.ofLine?_eq_func_iff {line : List Char} :
    Tag.ofLine? line = some .func ↔
      (Tag.isPage line = false ∧ Tag.isPar line = false ∧ EnumSpec.parse? line = none ∧
        Tag.geom? line = none ∧ Tag.listing? line = none) ∧ Tag.isFunc line = true := by
  unfold Tag.ofLine?
  cases Tag.isPage line with
  | true => simp
  | false =>
    cases Tag.isPar line with
    | true => simp
    | false =>
      simp only [Bool.false_eq_true, if_false, orElse_eq_some_iff, Option.map_eq_some_iff,
        Option.map_eq_none_iff]
      cases Tag.isFunc line <;> simp

/-- A line, as the scanner takes it, that is refused inside a comment: it documents a function, and
nothing on it comes before that, but no method is named. -/
structure NamesNoMethod (d : Dialect) (line : List Char) : Prop where
  /-- No registration takes the line. -/
  registration : Registration.ofLine? line = none
  /-- The line does not close the comment. -/
  closer : contains d.closer.toList line = false
  /-- No command of higher rank takes the line. -/
  higher : Tag.isPage line = false ∧ Tag.isPar line = false ∧ EnumSpec.parse? line = none ∧
    Tag.geom? line = none ∧ Tag.listing? line = none
  /-- The line is a function annotation. -/
  function : Tag.isFunc line = true
  /-- The annotation cannot be read. -/
  nameless : Signature.parse? d line = none

variable {d : Dialect}

/-- The lines of a comment that are refused. -/
theorem tagLine_eq_none_iff {region : Region} {line : List Char} :
    Mode.tagLine d region line = none ↔
      Tag.ofLine? line = some .func ∧ Signature.parse? d line = none := by
  unfold Mode.tagLine
  split
  case h_6 htag => simp [htag]
  all_goals next htag => simp [htag]

/-- **The lines that a mode refuses**: in a comment those that name no method, elsewhere none. -/
theorem step_eq_none_iff {m : Mode} {raw : List Char} :
    m.step d raw = none ↔ (∃ region, m = .comment region) ∧ NamesNoMethod d (normalise d raw) := by
  constructor
  · intro h
    simp only [Mode.step] at h
    split at h
    · cases h
    · next hreg =>
      cases m with
      | comment region =>
        replace hreg : Registration.ofLine? (normalise d raw) = none := by
          simpa [Mode.seesRegistration] using hreg
        simp only [Mode.dispatch, Mode.commentLine] at h
        split at h
        · cases h
        · next hclose =>
          rw [Option.map_eq_none_iff, tagLine_eq_none_iff, Tag.ofLine?_eq_func_iff] at h
          obtain ⟨⟨hhigher, hfunction⟩, hnameless⟩ := h
          exact ⟨⟨region, rfl⟩, hreg, by simpa using hclose, hhigher, hfunction, hnameless⟩
      | _ => cases h
  · rintro ⟨⟨region, rfl⟩, hreg, hclose, hhigher, hfunction, hnameless⟩
    have htag := Tag.ofLine?_eq_func_iff.mpr ⟨hhigher, hfunction⟩
    have hline : Mode.tagLine d region (normalise d raw) = none :=
      tagLine_eq_none_iff.mpr ⟨htag, hnameless⟩
    simp [Mode.step, Mode.seesRegistration, hreg, Mode.dispatch, Mode.commentLine, hclose, hline]

/-! ### Runs -/

/-- The error of a refused line with the number `n`. -/
def refusal (d : Dialect) (n : Nat) (raw : List Char) : ScanError :=
  ⟨n, String.ofList (trim (normalise d raw))⟩

/-- What is read up to a refused line: the effects of the lines before it, whatever follows it. -/
theorem runLines_refused {n : Nat} {m m' : Mode} {before : List (List Char)} {raw : List Char}
    {es : List Effect} (hbefore : runLines d n m before = (es, .ok m'))
    (hraw : m'.step d raw = none) (after : List (List Char)) :
    runLines d n m (before ++ raw :: after) = (es, .error (refusal d (n + before.length) raw)) := by
  rw [runLines_append hbefore, runLines, hraw]
  simp [refusal]

/-- Where the reading stops with an error, a line was refused. -/
theorem exists_refused_of_runLines {n : Nat} {m : Mode} {ls : List (List Char)} {es : List Effect}
    {e : ScanError} (h : runLines d n m ls = (es, .error e)) :
    ∃ before raw after m', ls = before ++ raw :: after ∧
      runLines d n m before = (es, .ok m') ∧ m'.step d raw = none ∧
      e = refusal d (n + before.length) raw := by
  induction ls generalizing n m es with
  | nil => cases h
  | cons raw ls ih =>
    rw [runLines] at h
    split at h
    · next hstep =>
      cases h
      exact ⟨[], raw, ls, m, rfl, rfl, hstep, rfl⟩
    · next m₁ es₁ hstep =>
      simp only [Prod.mk.injEq] at h
      obtain ⟨rfl, herror⟩ := h
      obtain ⟨before, raw', after, m', rfl, hbefore, hraw', rfl⟩ := ih (Prod.ext rfl herror)
      refine ⟨raw :: before, raw', after, m', rfl, ?_, hraw', ?_⟩
      · simp only [runLines, hstep, hbefore]
      · rw [List.length_cons, Nat.add_assoc, Nat.add_comm 1]

/-! ### Whole files -/

/-- The lines `before` of a file are all accepted and lead into a comment, and the line `raw` is
refused there. -/
def RefusedAfter (d : Dialect) (before : List (List Char)) (raw : List Char) : Prop :=
  (∃ es region, runLines d 1 .code before = (es, .ok (.comment region))) ∧
    NamesNoMethod d (normalise d raw)

/-- The effects of a file up to the line that is refused. -/
theorem effects_of_refusedAfter {text : List Char} {before : List (List Char)} {raw : List Char}
    (hraw : RefusedAfter d before raw) (htext : before ++ [raw] <+: lines text) :
    effects d text =
      ((runLines d 1 .code before).1, some (refusal d (before.length + 1) raw)) := by
  obtain ⟨⟨es, region, hbefore⟩, hnameless⟩ := hraw
  obtain ⟨after, hafter⟩ := htext
  have hstep := step_eq_none_iff.mpr ⟨⟨region, rfl⟩, hnameless⟩
  have hrun := runLines_refused hbefore hstep after
  rw [effects, ← hafter, List.append_assoc, List.singleton_append, hrun, hbefore, Nat.add_comm 1]

/-- A file has an error exactly when one of its lines is refused after lines that were accepted. -/
theorem effects_eq_some_iff {text : List Char} {e : ScanError} :
    (effects d text).2 = some e ↔
      ∃ before raw after, lines text = before ++ raw :: after ∧ RefusedAfter d before raw ∧
        e = refusal d (before.length + 1) raw := by
  constructor
  · intro h
    rw [effects] at h
    split at h
    · cases h
    · next es e' hrun =>
      cases h
      obtain ⟨before, raw, after, m', hlines, hbefore, hraw, rfl⟩ := exists_refused_of_runLines hrun
      obtain ⟨⟨region, rfl⟩, hnameless⟩ := step_eq_none_iff.mp hraw
      rw [Nat.add_comm 1]
      exact ⟨before, raw, after, hlines, ⟨⟨es, region, hbefore⟩, hnameless⟩, rfl⟩
  · rintro ⟨before, raw, after, hlines, hraw, rfl⟩
    rw [effects_of_refusedAfter hraw ⟨after, by simp [hlines]⟩]

/-- **When a scan fails, and what it leaves behind.**  A scan fails with an error exactly when one
of the lines of the file is refused after lines that were all accepted: it is read inside a comment,
no registration, no closing and no command of higher rank stands on it, and it is a function
annotation that cannot be read.  The error gives the number of this line, counted from one, and the
line as the scanner takes it, without blanks at its ends.  The streams then hold what they held
before and what the earlier lines added to them, and nothing else; both the error and the streams
are the same for all files that begin with these lines. -/
theorem scan_eq_error_iff (d : Dialect) (s : Streams) (text : List Char) :
    (∀ e, (scan d s text).result = .error e ↔
      ∃ before raw after, lines text = before ++ raw :: after ∧ RefusedAfter d before raw ∧
        e = ⟨before.length + 1, String.ofList (trim (normalise d raw))⟩) ∧
    ∀ before raw after, lines text = before ++ raw :: after → RefusedAfter d before raw →
      (scan d s text).streams =
        { mainPage := s.mainPage ++
            (runLines d 1 .code before).1.filterMap Effect.mainPageText?
          enums := s.enums ++ (runLines d 1 .code before).1.filterMap Effect.enumText? } ∧
      ∀ text', before ++ [raw] <+: lines text' →
        (scan d s text').result = (scan d s text).result ∧
          (scan d s text').streams = (scan d s text).streams := by
  constructor
  · intro e
    have hresult : (scan d s text).result = .error e ↔ (effects d text).2 = some e := by
      simp only [scan]
      cases (effects d text).2 <;> simp
    rw [hresult, effects_eq_some_iff]
    rfl
  · intro before raw after hlines hraw
    have htext : before ++ [raw] <+: lines text := ⟨after, by simp [hlines]⟩
    have heffects := effects_of_refusedAfter hraw htext
    refine ⟨?_, ?_⟩
    · rw [scan_streams heffects, Effect.foldl_onStreams]
    · intro text' htext'
      have heffects' := effects_of_refusedAfter hraw htext'
      exact ⟨by simp [scan, heffects, heffects'], by
        rw [scan_streams heffects, scan_streams heffects']⟩

/-- A script whose function annotation has a class command in the place of the method.  An enum is
open at that line, and so is the comment. -/
def namelessScript : List Char :=
  "--[[\n@luaenum Team(1)\nTeams.\n  @luafunc @luaclass \nmore\n--]]\n".toList

/-- The lines before the annotation. -/
def namelessBefore : List (List Char) := ["--[[", "@luaenum Team(1)", "Teams."].map String.toList

theorem scan_eq_error_namelessScript :
    (scan .bracketed {} namelessScript).result = .error ⟨4, "@luafunc @luavclass"⟩ ∧
      (scan .bracketed {} namelessScript).streams =
        ⟨[], ["/**\n  * @defgroup TeamEnum Team\n", "Teams.\n"]⟩ ∧
      (scan .bracketed {} "--[[\r\n@luaenum Team(1)\nTeams.\n  @luafunc @luaclass ".toList).result =
        .error ⟨4, "@luafunc @luavclass"⟩ := by
  obtain ⟨hfails, hleaves⟩ := scan_eq_error_iff .bracketed {} namelessScript
  have hraw : RefusedAfter .bracketed namelessBefore "  @luafunc @luaclass ".toList := by
    refine ⟨⟨(runLines .bracketed 1 .code namelessBefore).1,
      { hasCommand := true, pending := some ⟨"Team", 1, none, none⟩ }, by decide +kernel⟩, ?_⟩
    constructor <;> decide +kernel
  have hlines : lines namelessScript = namelessBefore ++ "  @luafunc @luaclass ".toList ::
      ["more".toList, "--]]".toList] := by decide +kernel
  have herror := (hfails ⟨4, "@luafunc @luavclass"⟩).mpr
    ⟨namelessBefore, "  @luafunc @luaclass ".toList, _, hlines, hraw, by decide +kernel⟩
  obtain ⟨hstreams, hsame⟩ := hleaves _ _ _ hlines hraw
  have hshorter := hsame "--[[\r\n@luaenum Team(1)\nTeams.\n  @luafunc @luaclass ".toList
    (by decide +kernel)
  refine ⟨herror, ?_, hshorter.1.trans herror⟩
  rw [hstreams]
  decide +kernel

end BindingDocs.Scan
