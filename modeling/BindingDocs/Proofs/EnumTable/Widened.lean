import BindingDocs.Proofs.EnumTable.Row
import BindingDocs.Proofs.Text.CommentEnd
import BindingDocs.Proofs.Text.Replace
import Mathlib.Data.List.Forall2

/-!
# Lines of scripts in an enum table

The class commands on the lines of a script are rewritten before anything else is looked at.  This
puts one letter between two others, which is of no consequence for the table of an enum: comments,
quotes, brackets, commas and the end of the line stay where they were, and no cell starts or ceases
to say that its row is hidden.

## Main definitions

* `Widened` — a text and the same text with the letter put in.

## Main results

* `Widened.stripComments`, `Widened.splitColumns` — comments and columns of a widened text.
* `Widened.continues_iff`, `Widened.listsValue_iff` — **a widened line goes on and lists a value
  exactly when the line did.**
-/

namespace BindingDocs

open Text

/-! ### Comments on a line -/

section Comments

variable {s : List Char}

/-- The first end of a comment, one character further on. -/
theorem splitFirst?_commentEnd_cons (c : Char) (s : List Char) :
    splitFirst? "*/".toList (c :: s) =
      if c = '*' ∧ s.head? = some '/' then some ([], s.tail)
      else (splitFirst? "*/".toList s).map fun (body, rest) => (c :: body, rest) := by
  rw [splitFirst?]
  cases hafter : after? "*/".toList (c :: s) with
  | some rest =>
    have hsplit : c :: s = '*' :: '/' :: rest := after?_eq_some_iff.mp hafter
    obtain ⟨rfl, rfl⟩ := List.cons.inj hsplit
    simp
  | none =>
    have hnot : ¬ (c = '*' ∧ s.head? = some '/') := by
      rintro ⟨rfl, hhead⟩
      obtain ⟨rest, rfl⟩ := List.head?_eq_some_iff.mp hhead
      have hfound : after? "*/".toList ('*' :: '/' :: rest) = some rest :=
        after?_eq_some_iff.mpr rfl
      rw [hafter] at hfound
      cases hfound
    simp [hnot]

/-- A comment opens and closes at the beginning of the text, and `after` follows it. -/
def BeginsCommentBefore (s after : List Char) : Prop :=
  ∃ rest body, s = '/' :: '*' :: rest ∧ splitFirst? "*/".toList rest = some (body, after) ∧
    body.all inLine = true

/-- A comment is found with its length. -/
theorem exists_enclosed? {after : List Char} (h : BeginsCommentBefore s after) :
    ∃ n, enclosed? "/*" "*/" s = some (n + 1) ∧ s.drop (n + 1) = after := by
  obtain ⟨rest, body, rfl, hsplit, hline⟩ := h
  have hrest : after? "/*".toList ('/' :: '*' :: rest) = some rest := after?_eq_some_iff.mpr rfl
  have hlength : "/*".length + body.length + "*/".length = body.length + 3 + 1 := by
    show 2 + body.length + 2 = body.length + 3 + 1
    omega
  refine ⟨body.length + 3, ?_, ?_⟩
  · simp only [enclosed?, lit, hrest, Option.bind_some, hsplit, hline, hlength, if_true]
  · have hcut : '/' :: '*' :: rest = '/' :: '*' :: (body ++ "*/".toList) ++ after := by
      simp [splitFirst?_eq_some hsplit]
    have hcount : ('/' :: '*' :: (body ++ "*/".toList)).length = body.length + 3 + 1 := by simp
    rw [hcut, ← hcount, List.drop_left]

/-- Nothing else is found. -/
theorem exists_beginsCommentBefore {n : Nat} (h : enclosed? "/*" "*/" s = some n) :
    ∃ after, BeginsCommentBefore s after := by
  obtain ⟨rest, hrest, h⟩ := Option.bind_eq_some_iff.mp h
  split at h
  · next body after hsplit =>
    exact ⟨after, rest, body, after?_eq_some_iff.mp hrest, hsplit,
      (Option.ite_none_right_eq_some.mp h).1⟩
  · cases h

theorem BeginsCommentBefore.length_lt {after : List Char} (h : BeginsCommentBefore s after) :
    after.length < s.length := by
  obtain ⟨rest, body, rfl, hsplit, -⟩ := h
  have hlength := congrArg List.length (splitFirst?_eq_some hsplit)
  simp only [List.length_append, List.length_cons] at hlength ⊢
  omega

/-- A comment is taken out whole. -/
theorem BeginsCommentBefore.stripComments {after : List Char} (h : BeginsCommentBefore s after) :
    BindingDocs.stripComments s = BindingDocs.stripComments after := by
  obtain ⟨n, hfound, rfl⟩ := exists_enclosed? h
  cases s with
  | nil => rfl
  | cons c s =>
    rw [BindingDocs.stripComments, substitute, substituteFrom, hfound]
    exact substituteFrom_eq_drop _ n s

/-- A character at which no comment begins is kept. -/
theorem stripComments_cons {c : Char} (h : ∀ after, ¬ BeginsCommentBefore (c :: s) after) :
    stripComments (c :: s) = c :: stripComments s := by
  have hnone : enclosed? "/*" "*/" (c :: s) = none := by
    refine Option.eq_none_iff_forall_ne_some.mpr fun n hn => ?_
    obtain ⟨after, hafter⟩ := exists_beginsCommentBefore hn
    exact h after hafter
  rw [stripComments, substitute, substituteFrom, hnone]
  rfl

theorem stripComments_of_ne {c : Char} (hc : c ≠ '/') :
    stripComments (c :: s) = c :: stripComments s := by
  refine stripComments_cons ?_
  rintro after ⟨rest, body, hs, -⟩
  exact hc (List.cons.inj hs).1

end Comments

/-! ### Widened lines -/

/-- The second text is the first one with the letter `v` put between some letters `a` and `c`. -/
inductive Widened : List Char → List Char → Prop
  | nil : Widened [] []
  | cons (c : Char) {s t : List Char} (h : Widened s t) : Widened (c :: s) (c :: t)
  | insert {s t : List Char} (h : Widened s t) :
    Widened ('a' :: 'c' :: s) ('a' :: 'v' :: 'c' :: t)

namespace Widened

variable {s t : List Char}

theorem refl (s : List Char) : Widened s s := by
  induction s with
  | nil => exact nil
  | cons c s ih => exact cons c ih

/-- Class commands read as commands for virtual classes widen a text. -/
theorem replace (s : List Char) :
    Widened s (Text.replace "@luaclass".toList "@luavclass".toList s) := by
  have hne : "@luaclass".toList ≠ [] := by decide
  induction s using replace_induction hne with
  | hnil => rw [replace_nil hne]; exact nil
  | hoccurs s ih =>
    rw [replace_append hne]
    exact cons '@' (cons 'l' (cons 'u' (insert (cons 'l' (cons 'a' (cons 's' (cons 's' ih)))))))
  | hkeep c s hbegins ih => rw [replace_cons hbegins]; exact cons c ih

theorem head?_eq (h : Widened s t) : s.head? = t.head? := by cases h <;> rfl

/-- A text that is changed holds the letter after the gap, and afterwards the letter in it. -/
theorem eq_or_mem (h : Widened s t) : s = t ∨ ('c' ∈ s ∧ 'v' ∈ t) := by
  induction h with
  | nil => exact Or.inl rfl
  | cons c h ih =>
    rcases ih with rfl | ⟨hs, ht⟩
    · exact Or.inl rfl
    · exact Or.inr ⟨List.mem_cons_of_mem c hs, List.mem_cons_of_mem c ht⟩
  | insert h ih => exact Or.inr ⟨by simp, by simp⟩

/-- The rest behind a character other than the letter before the gap. -/
theorem of_cons {c : Char} (hc : c ≠ 'a') (h : Widened (c :: s) t) :
    ∃ t', t = c :: t' ∧ Widened s t' := by
  cases h with
  | cons _ h => exact ⟨_, rfl, h⟩
  | insert h => exact absurd rfl hc

/-- The same, seen from the widened text. -/
theorem of_cons_right {c : Char} (hc : c ≠ 'a') (h : Widened s (c :: t)) :
    ∃ s', s = c :: s' ∧ Widened s' t := by
  cases h with
  | cons _ h => exact ⟨_, rfl, h⟩
  | insert h => exact absurd rfl hc

theorem exists_isWord_iff (h : Widened s t) :
    (∃ c ∈ s, isWord c = true) ↔ ∃ c ∈ t, isWord c = true := by
  induction h with
  | nil => rfl
  | cons c h ih => simp only [List.exists_mem_cons_iff, ih]
  | insert h ih =>
    have hletter : isWord 'a' = true := by decide
    simp [hletter]

theorem forall_isBlank_iff (h : Widened s t) :
    (∀ c ∈ s, isBlank c = true) ↔ ∀ c ∈ t, isBlank c = true := by
  induction h with
  | nil => rfl
  | cons c h ih => simp only [List.forall_mem_cons, ih]
  | insert h ih =>
    have hletter : isBlank 'a' = false := by decide
    simp [hletter]

theorem endsInBackslash_iff (h : Widened s t) : EndsInBackslash s ↔ EndsInBackslash t := by
  induction h with
  | nil => rfl
  | cons c h ih => rw [endsInBackslash_cons, endsInBackslash_cons, ih, h.forall_isBlank_iff]
  | insert h ih => simp [endsInBackslash_cons, ih]

theorem beginsWithComment_iff (h : Widened s t) : BeginsWithComment s ↔ BeginsWithComment t := by
  induction h with
  | nil => rfl
  | cons c h ih => rw [beginsWithComment_cons, beginsWithComment_cons, ih, h.head?_eq]
  | insert h ih =>
    have hletter : isBlank 'a' = false := by decide
    simp [beginsWithComment_cons, hletter]

/-! ### Comments on a widened line -/

/-- The ends of comments stand where they stood. -/
theorem splitFirst? (h : Widened s t) :
    (Text.splitFirst? "*/".toList s = none ∧ Text.splitFirst? "*/".toList t = none) ∨
      ∃ body rest body' rest', Text.splitFirst? "*/".toList s = some (body, rest) ∧
        Text.splitFirst? "*/".toList t = some (body', rest') ∧ Widened rest rest' ∧
        body.all inLine = body'.all inLine := by
  induction h with
  | nil => exact Or.inl ⟨rfl, rfl⟩
  | @cons c s t h ih =>
    rw [splitFirst?_commentEnd_cons, splitFirst?_commentEnd_cons, ← h.head?_eq]
    by_cases hend : c = '*' ∧ s.head? = some '/'
    · rw [if_pos hend, if_pos hend]
      obtain ⟨rest, rfl⟩ := List.head?_eq_some_iff.mp hend.2
      obtain ⟨rest', rfl, hrest⟩ := h.of_cons (by decide)
      exact Or.inr ⟨[], rest, [], rest', rfl, rfl, hrest, rfl⟩
    · rw [if_neg hend, if_neg hend]
      rcases ih with ⟨hs, ht⟩ | ⟨body, rest, body', rest', hs, ht, hrest, hline⟩
      · exact Or.inl ⟨by rw [hs]; rfl, by rw [ht]; rfl⟩
      · refine Or.inr ⟨c :: body, rest, c :: body', rest', by rw [hs]; rfl, by rw [ht]; rfl,
          hrest, ?_⟩
        rw [List.all_cons, List.all_cons, hline]
  | @insert s t h ih =>
    -- no letter is part of the end of a comment
    simp only [splitFirst?_commentEnd_cons, Char.reduceEq, false_and, if_false]
    rcases ih with ⟨hs, ht⟩ | ⟨body, rest, body', rest', hs, ht, hrest, hline⟩
    · exact Or.inl ⟨by rw [hs]; rfl, by rw [ht]; rfl⟩
    · refine Or.inr ⟨'a' :: 'c' :: body, rest, 'a' :: 'v' :: 'c' :: body', rest',
        by rw [hs]; rfl, by rw [ht]; rfl, hrest, ?_⟩
      have hletters : inLine 'a' = true ∧ inLine 'v' = true ∧ inLine 'c' = true := by decide
      simp [hletters, hline]

/-- A comment begins a widened text where it began the text, and what follows it is widened. -/
theorem beginsCommentBefore (h : Widened s t) {after : List Char}
    (hs : BeginsCommentBefore s after) :
    ∃ after', BeginsCommentBefore t after' ∧ Widened after after' := by
  obtain ⟨rest, body, rfl, hsplit, hline⟩ := hs
  obtain ⟨t', rfl, ht'⟩ := h.of_cons (by decide)
  obtain ⟨rest', rfl, hrest⟩ := ht'.of_cons (by decide)
  rcases hrest.splitFirst? with ⟨hnone, -⟩ | ⟨_, _, body', after', hsplit₁, hsplit', hafter, hall⟩
  · rw [hsplit] at hnone
    cases hnone
  · cases hsplit.symm.trans hsplit₁
    exact ⟨after', ⟨rest', body', rfl, hsplit', hall ▸ hline⟩, hafter⟩

/-- No other comment begins it. -/
theorem beginsCommentBefore_right (h : Widened s t) {after' : List Char}
    (ht : BeginsCommentBefore t after') : ∃ after, BeginsCommentBefore s after := by
  obtain ⟨rest', body', rfl, hsplit', hline⟩ := ht
  obtain ⟨s', rfl, hs'⟩ := h.of_cons_right (by decide)
  obtain ⟨rest, rfl, hrest⟩ := hs'.of_cons_right (by decide)
  rcases hrest.splitFirst? with ⟨-, hnone⟩ | ⟨body, after, _, _, hsplit, hsplit₁, -, hall⟩
  · rw [hsplit'] at hnone
    cases hnone
  · cases hsplit'.symm.trans hsplit₁
    exact ⟨after, rest, body, rfl, hsplit, hall ▸ hline⟩

/-- **Comments of a widened text**: what is left without them is widened too. -/
theorem stripComments (h : Widened s t) :
    Widened (BindingDocs.stripComments s) (BindingDocs.stripComments t) := by
  -- a comment is skipped at once, so the induction is on the length
  induction hn : s.length using Nat.strongRecOn generalizing s t with
  | _ n ih =>
    by_cases hcomment : ∃ after, BeginsCommentBefore s after
    · obtain ⟨after, hs⟩ := hcomment
      obtain ⟨after', ht, hafter⟩ := h.beginsCommentBefore hs
      rw [hs.stripComments, ht.stripComments]
      exact ih after.length (hn ▸ hs.length_lt) hafter rfl
    · have hs : ∀ after, ¬ BeginsCommentBefore s after := not_exists.mp hcomment
      have ht : ∀ after, ¬ BeginsCommentBefore t after :=
        fun after hafter => hcomment (h.beginsCommentBefore_right hafter)
      cases h with
      | nil => exact nil
      | @cons c s t h =>
        rw [stripComments_cons hs, stripComments_cons ht]
        rw [List.length_cons] at hn
        exact cons c (ih s.length (by omega) h rfl)
      | @insert s t h =>
        rw [stripComments_cons hs, stripComments_cons ht, stripComments_of_ne (by decide),
          stripComments_of_ne (by decide), stripComments_of_ne (by decide)]
        rw [List.length_cons, List.length_cons] at hn
        exact insert (ih s.length (by omega) h rfl)

/-! ### Columns of a widened line -/

/-- The first parenthesis stands where it stood. -/
theorem afterParen? (h : Widened s t) (quoted : Bool) :
    (BindingDocs.afterParen? quoted s = none ∧ BindingDocs.afterParen? quoted t = none) ∨
      ∃ u v, BindingDocs.afterParen? quoted s = some u ∧
        BindingDocs.afterParen? quoted t = some v ∧ Widened u v := by
  induction h generalizing quoted with
  | nil => exact Or.inl ⟨rfl, rfl⟩
  | @cons c s t h ih =>
    rw [BindingDocs.afterParen?, BindingDocs.afterParen?]
    split
    · exact ih (!quoted)
    · split
      · exact Or.inr ⟨s, t, rfl, rfl, h⟩
      · exact ih quoted
  | insert h ih => simpa [BindingDocs.afterParen?] using ih quoted

theorem consColumn {xs ys : List (List Char)} (c : Char) (h : List.Forall₂ Widened xs ys) :
    List.Forall₂ Widened (BindingDocs.consColumn c xs) (BindingDocs.consColumn c ys) := by
  cases h with
  | nil => exact .cons (refl [c]) .nil
  | cons hfirst hrest => exact .cons (cons c hfirst) hrest

theorem insertColumn {xs ys : List (List Char)} (h : List.Forall₂ Widened xs ys) :
    List.Forall₂ Widened (BindingDocs.consColumn 'a' (BindingDocs.consColumn 'c' xs))
      (BindingDocs.consColumn 'a'
        (BindingDocs.consColumn 'v' (BindingDocs.consColumn 'c' ys))) := by
  cases h with
  | nil => exact .cons (insert nil) .nil
  | cons hfirst hrest => exact .cons (insert hfirst) hrest

/-- The columns are widened one by one. -/
theorem columnsFrom (h : Widened s t) (quoted : Bool) (depth : Nat) :
    List.Forall₂ Widened (BindingDocs.columnsFrom quoted depth s)
      (BindingDocs.columnsFrom quoted depth t) := by
  induction h generalizing quoted depth with
  | nil => exact .cons nil .nil
  | @cons c s t h ih =>
    cases quoted with
    | true => exact consColumn c (ih (c != '"') depth)
    | false =>
      simp only [BindingDocs.columnsFrom]
      split
      · exact consColumn c (ih true depth)
      split
      · exact consColumn c (ih false (depth + 1))
      split
      · cases depth with
        | zero => exact .cons nil .nil
        | succ depth => exact consColumn c (ih false depth)
      split
      · exact .cons nil (ih false depth)
      · exact consColumn c (ih false depth)
  | @insert s t h ih =>
    -- the three letters belong to one column
    have hletters (c : Char) (hc : c ∈ ['a', 'v', 'c']) (u : List Char) :
        BindingDocs.columnsFrom quoted depth (c :: u) =
          BindingDocs.consColumn c (BindingDocs.columnsFrom quoted depth u) := by
      cases quoted <;> rcases hc with _ | ⟨_, _ | ⟨_, _ | ⟨_, ⟨⟩⟩⟩⟩ <;>
        simp [BindingDocs.columnsFrom]
    rw [hletters 'a' (by simp), hletters 'c' (by simp), hletters 'a' (by simp),
      hletters 'v' (by simp), hletters 'c' (by simp)]
    exact insertColumn (ih quoted depth)

theorem splitColumns (h : Widened s t) :
    List.Forall₂ Widened (BindingDocs.splitColumns s) (BindingDocs.splitColumns t) := by
  rw [BindingDocs.splitColumns, BindingDocs.splitColumns]
  rcases h.afterParen? false with ⟨hs, ht⟩ | ⟨u, v, hs, ht, huv⟩
  · rw [hs, ht]
    exact h.columnsFrom false 0
  · rw [hs, ht]
    exact huv.columnsFrom false 0

/-- The cells of a column; an absent one is empty in both. -/
theorem getD {xs ys : List (List Char)} (h : List.Forall₂ Widened xs ys) (i : Nat) :
    Widened (xs.getD i []) (ys.getD i []) := by
  induction h generalizing i with
  | nil => exact nil
  | cons hfirst hrest ih =>
    cases i with
    | zero => exact hfirst
    | succ i => exact ih i

/-- What is not junk is still there when a cell has been cleaned. -/
theorem mem_trimBy {p : Char → Bool} {c : Char} (hc : c ∈ s) (hp : p c = false) :
    c ∈ trimBy p s := by
  have hkeep {u : List Char} (hu : c ∈ u) : c ∈ u.dropWhile p := by
    rw [← List.takeWhile_append_dropWhile (p := p) (l := u), List.mem_append] at hu
    refine hu.resolve_left fun htake => ?_
    rw [List.all_eq_true.mp List.all_takeWhile c htake] at hp
    cases hp
  rw [trimBy, trimEndBy, List.mem_reverse]
  exact hkeep (List.mem_reverse.mpr (hkeep hc))

/-- A cell says that a value is hidden exactly when it said so before. -/
theorem trimBy_eq_false_iff (h : Widened s t) :
    trimBy isJunk s = "false".toList ↔ trimBy isJunk t = "false".toList := by
  rcases h.eq_or_mem with rfl | ⟨hs, ht⟩
  · rfl
  · -- neither word has the letter that the cell holds
    have hs' := mem_trimBy (p := isJunk) hs (by decide)
    have ht' := mem_trimBy (p := isJunk) ht (by decide)
    constructor
    · intro heq
      rw [heq] at hs'
      exact absurd hs' (by decide)
    · intro heq
      rw [heq] at ht'
      exact absurd ht' (by decide)

/-! ### The three questions -/

/-- **Widening a line does not change whether the table goes on.** -/
theorem continues_iff (h : Widened s t) : Continues s ↔ Continues t :=
  h.stripComments.endsInBackslash_iff

/-- **Widening a line does not change whether it lists a value.** -/
theorem listsValue_iff (h : Widened s t) (spec : EnumSpec) :
    spec.ListsValue s ↔ spec.ListsValue t := by
  have hstripped := h.stripComments
  have hcell (i : Nat) := (getD hstripped.splitColumns i).trimBy_eq_false_iff
  have hvisible : (∃ c ∈ BindingDocs.stripComments s, isBlank c = false) ↔
      ∃ c ∈ BindingDocs.stripComments t, isBlank c = false := by
    simpa using not_congr hstripped.forall_isBlank_iff
  constructor
  · rintro ⟨hsubstance, hvis, huncommented, hshown⟩
    refine ⟨?_, hvisible.mp hvis, ?_, ?_⟩
    · rwa [← hstripped.exists_isWord_iff, ← h.continues_iff]
    · rwa [← hstripped.beginsWithComment_iff]
    · intro i hi
      rw [Ne, ← hcell i]
      exact hshown i hi
  · rintro ⟨hsubstance, hvis, huncommented, hshown⟩
    refine ⟨?_, hvisible.mpr hvis, ?_, ?_⟩
    · rwa [hstripped.exists_isWord_iff, h.continues_iff]
    · rwa [hstripped.beginsWithComment_iff]
    · intro i hi
      rw [Ne, hcell i]
      exact hshown i hi

end Widened

end BindingDocs
