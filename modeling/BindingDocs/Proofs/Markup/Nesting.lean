import BindingDocs.Markup.WellFormed
import BindingDocs.Proofs.Markup.References
import Mathlib.Data.List.Induction

/-!
# Nested tags

The check of a page keeps the open tags beside those that the reader keeps, and drops one at every
end tag without a look at its name.  That is enough, since the reader gives no end tag that does not
match the innermost open tag.  So a page has no defect exactly when every event is sound and the
tags are nested, and the defect of any other page is the first one.

Nothing else about the reader matters: the results hold of every reader that keeps to this.

## Main definitions

* `Nested` — events whose tags are nested, with equal names at both ends of an element.
* `LeavesOpen` — the innermost tag that some events leave open.
* `EventReader` — readers that give only end tags that match; `strictReader` is ours.
* `FirstDefect` — the defect that comes first.

## Main results

* `Opens.of_stops` — the stack of the open tags mirrors the nesting of the events.
* `EventReader.check_cases` — **the well-formed pages, and the defects of the others.**
-/

namespace BindingDocs.Markup

/-! ### Nested events -/

/-- Start tags and end tags. -/
def Event.isTag : Event → Bool
  | .start _ => true
  | .stop _ => true
  | _ => false

/-- The tags are nested, and those of an element have equal names.  Events of other kinds stand
anywhere. -/
inductive Nested : List Event → Prop
  | nil : Nested []
  | other {e : Event} {es : List Event} (he : e.isTag = false) (hes : Nested es) : Nested (e :: es)
  | element {name : List Char} {inner rest : List Event} (hinner : Nested inner)
      (hrest : Nested rest) : Nested (.start name :: (inner ++ .stop name :: rest))

/-- The innermost tag that is left open: all tags behind it are closed, but it is not. -/
def LeavesOpen (es : List Event) (name : List Char) : Prop :=
  ∃ before after, es = before ++ .start name :: after ∧ Nested after

section Nested

variable {es before after : List Event} {opened : List (List Char)} {name : List Char}

theorem Nested.append (hbefore : Nested before) (hafter : Nested after) :
    Nested (before ++ after) := by
  induction hbefore with
  | nil => exact hafter
  | other he _ ih => exact .other he ih
  | @element name inner rest hinner _ _ ih =>
    rw [List.cons_append, List.append_assoc, List.cons_append]
    exact .element hinner ih

theorem Event.track_of_isTag_eq_false {e : Event} (he : e.isTag = false)
    (opened : List (List Char)) : e.track opened = opened := by
  cases e with
  | start => cases he
  | stop => cases he
  | _ => rfl

/-- In the end the same tags are open as before. -/
theorem Nested.foldl_track (h : Nested es) (opened : List (List Char)) :
    es.foldl Event.track opened = opened := by
  induction h generalizing opened with
  | nil => rfl
  | other he _ ih => rw [List.foldl_cons, Event.track_of_isTag_eq_false he, ih]
  | @element name inner rest _ _ ihinner ihrest =>
    calc (Event.start name :: (inner ++ .stop name :: rest)).foldl Event.track opened
        = rest.foldl Event.track ((inner.foldl Event.track (name :: opened)).tail) := by
          rw [List.foldl_cons, List.foldl_append]; rfl
      _ = opened := by rw [ihinner, List.tail_cons, ihrest]

theorem LeavesOpen.head?_foldl_track (h : LeavesOpen es name) (opened : List (List Char)) :
    (es.foldl Event.track opened).head? = some name := by
  obtain ⟨before, after, rfl, hafter⟩ := h
  rw [List.foldl_append, List.foldl_cons, hafter.foldl_track]
  rfl

end Nested

/-! ### Open tags -/

/-- The tags that are left open, the innermost first.  The rest of the tags is nested between
them. -/
inductive Opens : List (List Char) → List Event → Prop
  | nested {es : List Event} (h : Nested es) : Opens [] es
  | start {name : List Char} {outer : List (List Char)} {before after : List Event}
      (houter : Opens outer before) (hafter : Nested after) :
      Opens (name :: outer) (before ++ .start name :: after)

section Opens

variable {es after : List Event} {opened : List (List Char)} {name : List Char}

theorem Opens.append (h : Opens opened es) (hafter : Nested after) :
    Opens opened (es ++ after) := by
  cases h with
  | nested h => exact .nested (h.append hafter)
  | start houter h =>
    rw [List.append_assoc, List.cons_append]
    exact .start houter (h.append hafter)

theorem Opens.leavesOpen (h : Opens (name :: opened) es) : LeavesOpen es name := by
  cases h with
  | start _ hafter => exact ⟨_, _, rfl, hafter⟩

/-- An end tag closes the innermost open tag. -/
theorem Opens.stop (h : Opens (name :: opened) es) : Opens opened (es ++ [.stop name]) := by
  cases h with
  | start houter hafter =>
    rw [List.append_assoc, List.cons_append]
    exact houter.append (.element hafter .nil)

/-- The stack of the open tags mirrors the nesting of the events, if every end tag has the name of
the innermost open tag. -/
theorem Opens.of_stops (hes : ∀ before name after, es = before ++ .stop name :: after →
    (before.foldl Event.track []).head? = some name) : Opens (es.foldl Event.track []) es := by
  -- the events are taken in from the left, so the induction adds them at the end
  induction es using List.reverseRecOn with
  | nil => exact .nested .nil
  | append_singleton es e ih =>
    have hopens := ih fun before name after h => hes before name (after ++ [e]) (by rw [h]; simp)
    rw [List.foldl_append, List.foldl_cons, List.foldl_nil]
    cases e with
    | start name => exact .start hopens .nil
    | stop name =>
      obtain ⟨outer, houter⟩ := List.head?_eq_some_iff.mp (hes es name [] rfl)
      rw [houter] at hopens ⊢
      exact hopens.stop
    | _ => exact hopens.append (.other rfl .nil)

end Opens

/-! ### Readers -/

/-- A reader of events that reports every end tag that does not match the innermost open tag as a
fault. -/
structure EventReader where
  /-- The events of a page, in their order. -/
  read : List Char → List Event
  leavesOpen_of_stop : ∀ page before name after,
    read page = before ++ .stop name :: after → LeavesOpen before name

/-- The first defect of a page that is read by this reader. -/
def EventReader.check (r : EventReader) (page : List Char) : Option Defect :=
  checkEvents [] (r.read page)

/-- The open tags are those that the reader's events leave open. -/
theorem EventReader.opens (r : EventReader) (page : List Char) :
    Opens ((r.read page).foldl Event.track []) (r.read page) :=
  .of_stops fun before name after h =>
    (r.leavesOpen_of_stop page before name after h).head?_foldl_track []

theorem readStop_eq_ok {opened : List (List Char)} {name : List Char} {e : Event}
    (h : readStop opened name = .ok e) : e = .stop name ∧ opened.head? = some name := by
  unfold readStop at h
  split at h
  · cases h
  · split at h
    · next htop =>
      cases h
      exact ⟨rfl, by rw [htop]; rfl⟩
    · cases h

theorem readDeclaration_ne_stop (s name : List Char) :
    (readDeclaration s).1 ≠ .ok (.stop name) := by
  unfold readDeclaration
  -- a comment, a character data section or a document type, each with or without its end
  split
  · split
    · split <;> simp
    · simp
  · split
    · split <;> simp
    · simp
  · split
    · split
      · split <;> simp
      · simp
    · simp

/-- Only an end tag that matches the innermost open tag is read. -/
theorem head?_of_readMarkup {opened : List (List Char)} {s name : List Char}
    (h : (readMarkup opened s).1 = .ok (.stop name)) : opened.head? = some name := by
  unfold readMarkup at h
  split at h
  · exact absurd h (readDeclaration_ne_stop _ _)
  · split at h
    · obtain ⟨hname, htop⟩ := readStop_eq_ok h
      cases hname
      exact htop
    · cases h
  · split at h
    · dsimp only at h
      split at h <;> cases h
    · cases h
  · split at h
    · next body rest _ =>
      have hstart : readStart body ≠ .stop name := by
        unfold readStart
        split <;> simp
      exact absurd (Except.ok.inj h) hstart
    · cases h

theorem eq_stop_of_singleton {e : Event} {name : List Char} {before after : List Event}
    (h : [e] = before ++ .stop name :: after) : before = [] ∧ e = .stop name := by
  rcases List.cons_eq_append_iff.mp h with ⟨rfl, h⟩ | ⟨_, -, h⟩
  · exact ⟨rfl, (List.cons.inj h).1⟩
  · simp at h

/-- The reader's own stack holds the open tags. -/
theorem head?_of_eventsFrom {total fuel : Nat} {opened : List (List Char)} {s name : List Char}
    {before after : List Event}
    (h : eventsFrom total fuel opened s = before ++ .stop name :: after) :
    (before.foldl Event.track opened).head? = some name := by
  induction fuel, opened, s using eventsFrom.induct generalizing before with
  | case1 => simp [eventsFrom] at h
  | case2 => simp [eventsFrom] at h
  | case3 fuel opened s hno =>
    rw [eventsFrom, if_pos hno] at h
    cases (eq_stop_of_singleton h).2
  | case4 fuel opened s hno event rest hread ih =>
    rw [eventsFrom, if_neg hno, hread, List.cons_eq_append_iff] at h
    rcases h with ⟨rfl, h⟩ | ⟨before, rfl, h⟩
    · obtain ⟨rfl, -⟩ := List.cons.inj h
      exact head?_of_readMarkup (congrArg Prod.fst hread)
    · exact ih h
  | case5 fuel opened s hno event hread =>
    rw [eventsFrom, if_neg hno, hread] at h
    obtain ⟨rfl, rfl⟩ := eq_stop_of_singleton h
    exact head?_of_readMarkup (congrArg Prod.fst hread)
  | case6 fuel opened s hno cause rest hread =>
    rw [eventsFrom, if_neg hno, hread] at h
    cases (eq_stop_of_singleton h).2
  | case7 fuel opened s hne hno ih =>
    rw [eventsFrom, List.cons_eq_append_iff] at h
    · rcases h with ⟨-, h⟩ | ⟨before, rfl, h⟩
      · cases h
      · have htop := ih h
        exact htop
    · exact hne
    · exact hno

/-- Our reader of markup. -/
def strictReader : EventReader where
  read := events
  leavesOpen_of_stop page before name after h := by
    have hstops : ∀ b n a, before = b ++ .stop n :: a →
        (b.foldl Event.track []).head? = some n := by
      rintro b n a rfl
      rw [List.append_assoc, List.cons_append] at h
      exact head?_of_eventsFrom h
    have hopens := Opens.of_stops hstops
    obtain ⟨outer, houter⟩ := List.head?_eq_some_iff.mp (head?_of_eventsFrom h)
    rw [houter] at hopens
    exact hopens.leavesOpen

theorem strictReader_check (page : List Char) : strictReader.check page = check page := rfl

/-! ### The first defect -/

/-- An event without a defect of its own. -/
def Event.IsSound : Event → Prop
  | .text _ content => Referenced content
  | .fault _ _ => False
  | _ => True

/-- The defect of an event itself. -/
inductive Event.HasDefect : Event → Defect → Prop
  | text {offset : Nat} {content : List Char} {fault : TextFault} (h : FirstFault content fault) :
      HasDefect (.text offset content) (.text offset fault)
  | fault {offset : Nat} {cause : MarkupFault} :
      HasDefect (.fault offset cause) (.markup offset cause)

/-- The defect that comes first: that of the first event that is not sound, or else that of the
innermost tag that is still open at the end. -/
inductive FirstDefect (es : List Event) : Defect → Prop
  | event {before after : List Event} {e : Event} {d : Defect} (hes : es = before ++ e :: after)
      (hbefore : ∀ b ∈ before, b.IsSound) (he : e.HasDefect d) : FirstDefect es d
  | neverClosed {tag : List Char} (hes : ∀ e ∈ es, e.IsSound) (htag : LeavesOpen es tag) :
      FirstDefect es (.neverClosed (String.ofList tag))

section Check

variable {es before : List Event} {e : Event} {d : Defect}

theorem Event.isSound_or_hasDefect (e : Event) : e.IsSound ∨ ∃ d, e.HasDefect d := by
  cases e with
  | text offset content =>
    rcases referenced_or_fault content with h | ⟨fault, h⟩
    · exact Or.inl h
    · exact Or.inr ⟨_, .text h⟩
  | fault offset cause => exact Or.inr ⟨_, .fault⟩
  | _ => exact Or.inl trivial

theorem forall_isSound_or_exists_hasDefect (es : List Event) :
    (∀ e ∈ es, e.IsSound) ∨ ∃ before e after d, es = before ++ e :: after ∧
      (∀ b ∈ before, b.IsSound) ∧ e.HasDefect d := by
  induction es with
  | nil => exact Or.inl nofun
  | cons e es ih =>
    rcases e.isSound_or_hasDefect with he | ⟨d, he⟩
    · rcases ih with h | ⟨before, e', after, d, rfl, hbefore, he'⟩
      · exact Or.inl (List.forall_mem_cons.mpr ⟨he, h⟩)
      · exact Or.inr ⟨e :: before, e', after, d, rfl, List.forall_mem_cons.mpr ⟨he, hbefore⟩, he'⟩
    · exact Or.inr ⟨[], e, es, d, rfl, nofun, he⟩

/-- Sound events only change the open tags. -/
theorem checkEvents_append (hbefore : ∀ b ∈ before, b.IsSound) (opened : List (List Char))
    (es : List Event) :
    checkEvents opened (before ++ es) = checkEvents (before.foldl Event.track opened) es := by
  induction before generalizing opened with
  | nil => rfl
  | cons e before ih =>
    obtain ⟨he, hbefore⟩ := List.forall_mem_cons.mp hbefore
    rw [List.cons_append, List.foldl_cons, ← ih hbefore]
    cases e with
    | text offset content =>
      rw [checkEvents, checkText_eq_none_iff.mpr he]
      rfl
    | fault offset cause => exact he.elim
    | start name => rw [checkEvents, Event.track]
    | stop name => rw [checkEvents, Event.track]
    | other =>
      rw [checkEvents]
      rfl

theorem Event.HasDefect.checkEvents (he : e.HasDefect d) (opened : List (List Char))
    (es : List Event) : checkEvents opened (e :: es) = some d := by
  cases he with
  | text h => rw [Markup.checkEvents, h.checkText]
  | fault => rw [Markup.checkEvents]

theorem checkEvents_nil (opened : List (List Char)) :
    checkEvents opened [] = opened.head?.map fun tag => .neverClosed (String.ofList tag) := by
  cases opened <;> rfl

theorem checkEvents_of_isSound (hes : ∀ e ∈ es, e.IsSound) (opened : List (List Char)) :
    checkEvents opened es = (es.foldl Event.track opened).head?.map
      fun tag => .neverClosed (String.ofList tag) := by
  rw [← checkEvents_nil, ← checkEvents_append hes, List.append_nil]

theorem forall_isSound_iff : (∀ e ∈ es, e.IsSound) ↔
    (∀ offset cause, .fault offset cause ∉ es) ∧
      ∀ offset content, .text offset content ∈ es → Referenced content := by
  constructor
  · exact fun h => ⟨fun _ _ hmem => h _ hmem, fun _ _ hmem => h _ hmem⟩
  · rintro ⟨hfault, htext⟩ e he
    cases e with
    | text offset content => exact htext _ _ he
    | fault offset cause => exact hfault _ _ he
    | _ => trivial

end Check

namespace EventReader

variable (r : EventReader) {page : List Char} {d : Defect}

theorem nested_iff : Nested (r.read page) ↔ (r.read page).foldl Event.track [] = [] := by
  constructor
  · exact fun h => h.foldl_track []
  · intro h
    have hopens := r.opens page
    rw [h] at hopens
    cases hopens with
    | nested h => exact h

theorem leavesOpen_iff {tag : List Char} : LeavesOpen (r.read page) tag ↔
    ((r.read page).foldl Event.track []).head? = some tag := by
  constructor
  · exact fun h => h.head?_foldl_track []
  · intro h
    have hopens := r.opens page
    obtain ⟨outer, houter⟩ := List.head?_eq_some_iff.mp h
    rw [houter] at hopens
    exact hopens.leavesOpen

theorem check_of_isSound (h : ∀ e ∈ r.read page, e.IsSound) :
    r.check page = ((r.read page).foldl Event.track []).head?.map
      fun tag => .neverClosed (String.ofList tag) :=
  checkEvents_of_isSound h []

variable {r} in
theorem check_of_firstDefect (h : FirstDefect (r.read page) d) : r.check page = some d := by
  cases h with
  | event hes hbefore he => rw [check, hes, checkEvents_append hbefore, he.checkEvents]
  | neverClosed hes htag => rw [r.check_of_isSound hes, r.leavesOpen_iff.mp htag, Option.map_some]

/-- **The well-formed pages**: the reader reports no fault, all texts are texts with references, and
the tags are nested. -/
theorem check_eq_none_iff : r.check page = none ↔
    (∀ e ∈ r.read page, e.IsSound) ∧ Nested (r.read page) := by
  rw [r.nested_iff]
  constructor
  · intro hnone
    rcases forall_isSound_or_exists_hasDefect (r.read page) with h | ⟨_, _, _, d, hes, hb, he⟩
    · rw [r.check_of_isSound h, Option.map_eq_none_iff, List.head?_eq_none_iff] at hnone
      exact ⟨h, hnone⟩
    · rw [check_of_firstDefect (.event hes hb he)] at hnone
      cases hnone
  · rintro ⟨h, hopened⟩
    rw [r.check_of_isSound h, hopened]
    rfl

/-- **The defect of any other page** is the first. -/
theorem check_eq_some_iff : r.check page = some d ↔ FirstDefect (r.read page) d := by
  refine ⟨fun hsome => ?_, check_of_firstDefect⟩
  rcases forall_isSound_or_exists_hasDefect (r.read page) with h | ⟨_, _, _, d', hes, hb, he⟩
  · rw [r.check_of_isSound h, Option.map_eq_some_iff] at hsome
    obtain ⟨tag, htag, rfl⟩ := hsome
    exact .neverClosed h (r.leavesOpen_iff.mpr htag)
  · have hfirst : FirstDefect (r.read page) d' := .event hes hb he
    rw [check_of_firstDefect hfirst, Option.some.injEq] at hsome
    exact hsome ▸ hfirst

/-- **The well-formed pages, and the defects of the others**, for a reader that reports every end
tag without a match. -/
theorem check_cases (r : EventReader) (page : List Char) :
    (r.check page = none ↔
      (∀ offset cause, .fault offset cause ∉ r.read page) ∧
      (∀ offset content, .text offset content ∈ r.read page → Referenced content) ∧
      Nested (r.read page)) ∧
    ∀ d, r.check page = some d ↔ FirstDefect (r.read page) d := by
  refine ⟨?_, fun d => r.check_eq_some_iff⟩
  rw [r.check_eq_none_iff, forall_isSound_iff, and_assoc]

/-- A faulty reference stands before a tag that is not open. -/
theorem check_cases_faultyReference :
    strictReader.check "<a>&b;</c>".toList = some (.text 3 (.unknownEntity 1 2 "b")) ∧
      FirstDefect (strictReader.read "<a>&b;</c>".toList)
        (.text 3 (.unknownEntity 1 2 "b")) := by
  have hcheck : strictReader.check "<a>&b;</c>".toList =
      some (.text 3 (.unknownEntity 1 2 "b")) := by decide
  exact ⟨hcheck, ((check_cases strictReader "<a>&b;</c>".toList).2 _).mp hcheck⟩

end EventReader

end BindingDocs.Markup
