import BindingDocs.Proofs.Scan.Transition
import BindingDocs.Proofs.Text.CommentEnd
import BindingDocs.Proofs.Text.Replace
import Mathlib.Control.Monad.Basic

/-!
# Where a comment ends

A line inside a comment that holds the closing of the dialect ends the comment, unless a
registration stands on it: the registration takes the whole line, and the comment goes on with the
lines that follow, up to one that holds a closing and no registration.

## Main definitions

* `closesComment` — the lines that end a comment.

## Main results

* `contains_closer_normalise` — a closing is found on a line as it stands in the file.
* `runLines_inside` — lines that do not end a comment stay inside of it.
* `left_iff_of_closer` — **when a line with a closing ends the comment.**
-/

namespace BindingDocs.Scan

open Text

variable {d : Dialect} {raw : List Char}

/-! ### Lines with a closing -/

/-- Reading class commands of a script as commands for virtual classes neither makes nor breaks a
closing. -/
theorem contains_closer_normalise (d : Dialect) (raw : List Char) :
    contains d.closer.toList (normalise d raw) = contains d.closer.toList raw := by
  cases d with
  | bracketed =>
    -- the closing of a script has no character in common with the commands
    rw [Bool.eq_iff_iff, contains_iff_isInfix, contains_iff_isInfix]
    exact isInfix_replace_iff (a := '@') (c := '@') (w := "luaclass".toList)
      (v := "luavclass".toList) (b := '-') (t := "-]]".toList) (by decide) (by decide) (by decide)
      (by decide) raw
  | block => rfl
  | plain => rfl

/-- Whether a line ends the comment that it is read in: it holds the closing and no registration. -/
def closesComment (d : Dialect) (raw : List Char) : Bool :=
  contains d.closer.toList raw && (Registration.ofLine? (normalise d raw)).isNone

theorem closesComment_iff :
    closesComment d raw = true ↔
      contains d.closer.toList raw = true ∧ Registration.ofLine? (normalise d raw) = none := by
  rw [closesComment, Bool.and_eq_true, Option.isNone_iff_eq_none]

/-! ### One line -/

/-- A line that ends the comment closes the block and leads back to the source text, or to an enum
that waits for its table. -/
theorem step_of_closesComment (h : closesComment d raw = true) (region : Region) :
    (Mode.comment region).step d raw =
      some (.resume region.pending, [.comment blockClose]) := by
  obtain ⟨hcloser, hreg⟩ := closesComment_iff.mp h
  rw [← contains_closer_normalise] at hcloser
  simp [Mode.step, Mode.seesRegistration, hreg, Mode.dispatch, Mode.commentLine, hcloser]

/-- A registration takes the line, whatever else stands on it. -/
theorem step_of_registration {reg : Registration} {m : Mode} (hm : m.seesRegistration = true)
    (h : Registration.ofLine? (normalise d raw) = some reg) :
    m.step d raw = some (m, [.register reg]) := by
  simp [Mode.step, hm, h]

/-- A line that does not end the comment stays inside of it. -/
theorem step_inside {region : Region} {m' : Mode} {es : List Effect}
    (h : closesComment d raw = false) (hstep : (Mode.comment region).step d raw = some (m', es)) :
    ∃ region', m' = .comment region' := by
  cases Mode.transition_of_step hstep with
  | register hm hreg => exact ⟨region, rfl⟩
  | @tag _ region' _ hreg hclose ht => exact ⟨region', rfl⟩
  | closeBlock hreg hclose =>
    rw [contains_closer_normalise] at hclose
    rw [closesComment_iff.mpr ⟨hclose, hreg⟩] at h
    cases h

/-! ### Runs -/

theorem runLines_singleton {n : Nat} {m m' : Mode} {es : List Effect}
    (h : m.step d raw = some (m', es)) : runLines d n m [raw] = (es, .ok m') := by
  simp [runLines, h]

/-- **Lines that do not end a comment stay inside of it.** -/
theorem runLines_inside {n : Nat} {region : Region} {ls : List (List Char)} {m' : Mode}
    {es : List Effect} (h : ∀ raw ∈ ls, closesComment d raw = false)
    (hrun : runLines d n (.comment region) ls = (es, .ok m')) :
    ∃ region', m' = .comment region' := by
  induction ls generalizing n region es with
  | nil =>
    cases hrun
    exact ⟨region, rfl⟩
  | cons raw ls ih =>
    obtain ⟨m₁, es₁, es₂, hstep, hrest, -⟩ := runLines_cons_ok hrun
    obtain ⟨region₁, rfl⟩ := step_inside (h raw List.mem_cons_self) hstep
    exact ih (fun raw' hraw' => h raw' (List.mem_cons_of_mem _ hraw')) hrest

/-- **When a line with a closing ends the comment.**  Let the lines `before` of a file lead into a
comment, and let the closing of the dialect stand on the next line.  This line ends the comment, in
that it closes the block and leads back to the source text or to the enum that waits for its table,
exactly when no registration stands on it.  A registration is the only effect of its line; the
scanner is still inside the comment then, and stays there with all lines that follow up to the next
one with a closing and without a registration. -/
theorem left_iff_of_closer {before : List (List Char)} {region : Region} {es : List Effect}
    (hbefore : runLines d 1 .code before = (es, .ok (.comment region)))
    (hcloser : contains d.closer.toList raw = true) :
    (runLines d 1 .code (before ++ [raw]) =
        (es ++ [.comment blockClose], .ok (.resume region.pending)) ↔
      Registration.ofLine? (normalise d raw) = none) ∧
    ∀ reg, Registration.ofLine? (normalise d raw) = some reg →
      runLines d 1 .code (before ++ [raw]) = (es ++ [.register reg], .ok (.comment region)) ∧
      ∀ more es' m', (∀ line ∈ more, closesComment d line = false) →
        runLines d 1 .code (before ++ [raw] ++ more) = (es', .ok m') →
          ∃ region', m' = .comment region' := by
  have hstays : ∀ reg, Registration.ofLine? (normalise d raw) = some reg →
      runLines d 1 .code (before ++ [raw]) = (es ++ [.register reg], .ok (.comment region)) := by
    intro reg hreg
    have hstep := step_of_registration (d := d) (m := .comment region) rfl hreg
    rw [runLines_append hbefore, runLines_singleton hstep]
  constructor
  · constructor
    · intro hleft
      cases hreg : Registration.ofLine? (normalise d raw) with
      | none => rfl
      | some reg =>
        -- the effects differ in their last one
        rw [hstays reg hreg] at hleft
        simp at hleft
    · intro hreg
      have hstep := step_of_closesComment (closesComment_iff.mpr ⟨hcloser, hreg⟩) region
      rw [runLines_append hbefore, runLines_singleton hstep]
  · intro reg hreg
    refine ⟨hstays reg hreg, ?_⟩
    intro more es' m' hmore hrun
    rw [runLines_append (hstays reg hreg)] at hrun
    exact runLines_inside hmore (Prod.ext rfl (Prod.mk.inj hrun).2)

/-- The lines of a file up to a comment with a registration in it. -/
def strayLines : List (List Char) := ["/**".toList, "@luaclass Ship".toList]

/-- A registration that has been commented out, at the end of the comment. -/
def strayLine : List Char := "REGISTER_LUA_CLASS(Ship) */".toList

/-- The effects of these lines. -/
def strayEffects : List Effect := [.comment "/*!\n", .comment " \\class Ship\n"]

theorem not_left_strayLine :
    runLines .block 1 .code strayLines =
        (strayEffects, .ok (.comment { hasCommand := true })) ∧
      runLines .block 1 .code (strayLines ++ [strayLine]) ≠
        (strayEffects ++ [.comment blockClose], .ok .code) ∧
      runLines .block 1 .code (strayLines ++ [strayLine] ++ ["int x;".toList]) =
        (strayEffects ++ [.register ⟨"Ship", none⟩, .comment "int x;\n"],
          .ok (.comment { hasCommand := true })) := by
  have hbefore : runLines .block 1 .code strayLines =
      (strayEffects, .ok (.comment { hasCommand := true })) := by decide +kernel
  have hregistered : Registration.ofLine? (normalise .block strayLine) ≠ none := by decide +kernel
  have hcloser : contains Dialect.block.closer.toList strayLine = true := by decide +kernel
  obtain ⟨hleft, -⟩ := left_iff_of_closer hbefore hcloser
  exact ⟨hbefore, fun h => hregistered (hleft.mp h), by decide +kernel⟩

end BindingDocs.Scan
