import BindingDocs.Proofs.Scan.Transition
import Mathlib.Control.Monad.Basic

/-!
# Files with nothing to say

A file gets no header if it has no classes, no functions and no comments.  Such a file has no part
in the common page either: the main page and the enum groups are written from inside a comment or
after one, and whoever enters a comment opens a block of the comment stream first.  Nothing is ever
taken out of that stream, so a file that adds to the common page also has a header.

## Main definitions

* `Mode.IsFresh` — the modes that a file can be in before its first comment.

## Main results

* `silent_or_opens` — a line read before the first comment writes nothing or opens a block.
* `silent_or_opens_of_effects` — so does a file.
* `streams_of_isEmpty` — **a file without a header leaves the common page as it is.**
-/

namespace BindingDocs.Scan

open Text

/-- The modes that a file can be in before its first comment: no enum is waiting for its table. -/
def Mode.IsFresh : Mode → Prop
  | .code => True
  | .methods _ _ pending => pending = none
  | _ => False

/-- The effects write nothing on the common page. -/
def Silent (es : List Effect) : Prop :=
  es.filterMap Effect.mainPageText? = [] ∧ es.filterMap Effect.enumText? = []

/-- The comments that the effects write begin with the opening of a block. -/
def OpensBlock (es : List Effect) : Prop :=
  (es.filterMap Effect.commentText?).head? = some blockOpen

section Invariant

variable {d : Dialect} {line : List Char} {m m' : Mode} {es rest : List Effect}

theorem Silent.append (h : Silent es) (hrest : Silent rest) : Silent (es ++ rest) := by
  simp only [Silent, List.filterMap_append, h.1, h.2, hrest.1, hrest.2, List.append_nil, and_self]

/-- **A line read before the first comment** is silent and leads to a mode of the same kind, or it
opens a block. -/
theorem silent_or_opens (ht : Transition d line m m' es) (hm : m.IsFresh) :
    (m'.IsFresh ∧ Silent es ∧ es.filterMap Effect.commentText? = []) ∨
      es = [.comment blockOpen] := by
  cases ht with
  | register hsees hreg => exact Or.inl ⟨hm, ⟨rfl, rfl⟩, rfl⟩
  | startTable hreg hstart => exact Or.inl ⟨rfl, ⟨rfl, rfl⟩, rfl⟩
  | openBlock hreg hstart hopen => exact Or.inr rfl
  | passCode hreg hstart hopen => exact Or.inl ⟨hm, ⟨rfl, rfl⟩, rfl⟩
  | @endTable kind names pending owner hreg howner =>
    -- the table leads back to the source text, since no enum was waiting when it began
    obtain rfl : pending = none := hm
    cases kind <;> exact Or.inl ⟨trivial, ⟨rfl, rfl⟩, rfl⟩
  | listMethod hreg howner => exact Or.inl ⟨hm, ⟨rfl, rfl⟩, rfl⟩
  | closeBlock | tag | interruptByTable | interruptByBlock | startRows | passAwaiting | row
  | lastRow => exact hm.elim

/-- The end of a file is silent before the first comment. -/
theorem silent_finish (hm : m.IsFresh) : Silent m.finish := by
  cases m with
  | code => exact ⟨rfl, rfl⟩
  | methods kind names pending =>
    obtain rfl : pending = none := hm
    exact ⟨rfl, rfl⟩
  | comment | awaiting | rows => exact hm.elim

/-- **A file that is scanned to its end is silent or opens a block**, before all other comments. -/
theorem silent_or_opens_of_effects {text : List Char} (h : effects d text = (es, none)) :
    Silent es ∨ OpensBlock es := by
  refine effects_induction (P := fun m es => m.IsFresh → Silent es ∨ OpensBlock es)
    (fun m hm => Or.inl (silent_finish hm)) ?_ h trivial
  intro raw hraw m m' es rest hstep hrest hm
  rcases silent_or_opens (Mode.transition_of_step hstep) hm with ⟨hm', hsilent, hcomments⟩ | rfl
  · -- nothing is written by this line, so the rest decides
    rcases hrest hm' with hlater | hopens
    · exact Or.inl (hsilent.append hlater)
    · refine Or.inr ?_
      rw [OpensBlock, List.filterMap_append, hcomments, List.nil_append]
      exact hopens
  · exact Or.inr rfl

end Invariant

/-- **A file without a header leaves the common page as it is.**  Let a file be scanned to its end.
If it has no classes, no functions outside of every class and no comments, then both streams are
what they were before.  So a file that adds to one of the streams is not empty; in fact its comments
begin with the opening of a block. -/
theorem streams_of_isEmpty {d : Dialect} {s : Streams} {text : List Char} {f : FileFragments}
    (h : (scan d s text).result = .ok f) :
    (f.isEmpty = true → (scan d s text).streams = s) ∧
      ((scan d s text).streams ≠ s → f.isEmpty = false ∧ f.comments.head? = some blockOpen) := by
  obtain ⟨es, hes, rfl⟩ := scan_result_eq_ok.mp h
  have hcomments : (es.foldl Effect.onFile {}).comments = es.filterMap Effect.commentText? := by
    rw [Effect.comments_foldl_onFile, List.nil_append]
  have hstreams : Silent es → (scan d s text).streams = s := by
    rintro ⟨hmainPage, henums⟩
    rw [scan_streams hes, Effect.foldl_onStreams, hmainPage, henums, List.append_nil,
      List.append_nil]
  have hchanged : (scan d s text).streams ≠ s →
      (es.foldl Effect.onFile {}).comments.head? = some blockOpen := by
    intro hne
    rw [hcomments]
    exact (silent_or_opens_of_effects hes).resolve_left fun hsilent => hne (hstreams hsilent)
  have hproductive : (scan d s text).streams ≠ s →
      (es.foldl Effect.onFile {}).isEmpty = false := by
    intro hne
    obtain ⟨rest, hrest⟩ := List.head?_eq_some_iff.mp (hchanged hne)
    simp [FileFragments.isEmpty, hrest]
  refine ⟨?_, fun hne => ⟨hproductive hne, hchanged hne⟩⟩
  intro hempty
  by_contra hne
  rw [hproductive hne] at hempty
  cases hempty

/-- A file whose commands stand outside of every documentation comment, and whose method table has
no end. -/
def idleFile : List Char :=
  ("/** @page p */\n// @luaenum T(0)\n" ++
    "#define LUA_METHODS(CLASS, METHOD) \\\nMETHOD(CLASS, f, 0)\n").toList

/-- A file whose only contribution is an enum without a table. -/
def enumFile : List Char := "/**\n@luaenum T(0)\n*/\n".toList

theorem streams_of_idleFile :
    (scan .block ⟨["a\n"], ["b\n"]⟩ idleFile).streams = ⟨["a\n"], ["b\n"]⟩ ∧
      (scan .block ⟨["a\n"], ["b\n"]⟩ enumFile).streams =
        ⟨["a\n"], ["b\n", "/**\n  * @defgroup TEnum T\n", "*/\n\n"]⟩ ∧
      ∃ f, (scan .block ⟨["a\n"], ["b\n"]⟩ enumFile).result = .ok f ∧ f.isEmpty = false := by
  have hidle : (scan .block ⟨["a\n"], ["b\n"]⟩ idleFile).result = .ok {} := by decide +kernel
  have henum : (scan .block ⟨["a\n"], ["b\n"]⟩ enumFile).result =
      .ok ⟨[], [], ["/*!\n", "*/\n"]⟩ := by decide +kernel
  have hadded : (scan .block ⟨["a\n"], ["b\n"]⟩ enumFile).streams =
      ⟨["a\n"], ["b\n", "/**\n  * @defgroup TEnum T\n", "*/\n\n"]⟩ := by decide +kernel
  refine ⟨(streams_of_isEmpty hidle).1 rfl, hadded, _, henum, ?_⟩
  exact ((streams_of_isEmpty henum).2 (by rw [hadded]; decide)).1

end BindingDocs.Scan
