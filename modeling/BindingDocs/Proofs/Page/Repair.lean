import BindingDocs.Page.Repair
import BindingDocs.Proofs.Markup.Replace
import BindingDocs.Proofs.Text.Reader
import Mathlib.Data.Bool.AllAny

/-!
# Repaired pages in chunks

Repairing a page replaces references, drops spaces before the end of a cell, and takes licence
comments out.  The first two leave a page in sound chunks in sound chunks.  A space that is dropped
is a chunk or stands inside of one, and the end tag behind it stays.

## Main definitions

* `Trims` — a text and the same text after some spaces have been dropped.
* `Usable` — the references that a page may use before it is mended.

## Main results

* `exists_chunks_of_trims` — the chunks after spaces have been dropped.
* `trims_repair` — a page without licence comments is mended by these two steps.
* `check_repair_eq_none`, `countP_isStop_of_check_repair` — **which mended pages are well formed.**
-/

namespace BindingDocs.Page

open Text Markup

/-! ### Dropping spaces -/

/-- The space that is dropped before the end of a cell. -/
def droppedSpace : List Char := "&#160;</".toList

/-- The second text is the first without some of the no-break spaces before end tags. -/
inductive Trims : List Char → List Char → Prop
  | nil : Trims [] []
  | keep (c : Char) {s t : List Char} (h : Trims s t) : Trims (c :: s) (c :: t)
  | drop {s t : List Char} (h : Trims ("</".toList ++ s) t) : Trims (droppedSpace ++ s) t

namespace Trims

variable {a b s t : List Char}

theorem refl (s : List Char) : Trims s s := by
  induction s with
  | nil => exact nil
  | cons c s ih => exact keep c ih

theorem append (h : Trims a b) (h' : Trims s t) : Trims (a ++ s) (b ++ t) := by
  induction h with
  | nil => exact h'
  | keep c h ih => exact keep c ih
  | drop h ih =>
    rw [List.append_assoc] at ih ⊢
    exact drop ih

theorem flatMap {α : Type} {f g : α → List Char} {xs : List α} (h : ∀ x ∈ xs, Trims (f x) (g x)) :
    Trims (xs.flatMap f) (xs.flatMap g) := by
  induction xs with
  | nil => exact nil
  | cons x xs ih =>
    obtain ⟨hx, hxs⟩ := List.forall_mem_cons.mp h
    exact hx.append (ih hxs)

/-- A text without ampersands is kept. -/
theorem of_append {u : List Char} (hu : '&' ∉ u) (h : Trims (u ++ s) t) :
    ∃ t', t = u ++ t' ∧ Trims s t' := by
  induction u generalizing t with
  | nil => exact ⟨t, rfl, h⟩
  | cons c u ih =>
    rw [List.mem_cons, not_or] at hu
    generalize hx : c :: u ++ s = x at h
    cases h with
    | nil => cases hx
    | keep d h =>
      obtain ⟨rfl, rfl⟩ := List.cons.inj hx
      obtain ⟨t', rfl, ht'⟩ := ih hu.2 h
      exact ⟨t', rfl, ht'⟩
    | drop h => exact absurd (List.cons.inj hx).1 (Ne.symm hu.1)

/-- A character that no dropped space holds keeps what is before it and what is after it apart. -/
theorem split {c : Char} (hc : c ∉ droppedSpace) (h : Trims (a ++ c :: s) t) :
    ∃ b t', t = b ++ c :: t' ∧ Trims a b ∧ Trims s t' := by
  generalize hx : a ++ c :: s = x at h
  induction h generalizing a with
  | nil => simp at hx
  | @keep d x t h ih =>
    cases a with
    | nil =>
      obtain ⟨rfl, rfl⟩ := List.cons.inj hx
      exact ⟨[], t, rfl, nil, h⟩
    | cons e a =>
      obtain ⟨rfl, rfl⟩ := List.cons.inj hx
      obtain ⟨b, t', rfl, hb, ht'⟩ := ih rfl
      exact ⟨e :: b, t', rfl, keep e hb, ht'⟩
  | @drop x t h ih =>
    obtain ⟨a', rfl, rfl⟩ := append_cons_eq_append hc hx.symm
    obtain ⟨b, t', rfl, hb, ht'⟩ := ih (a := "</".toList ++ a') (List.append_assoc _ _ _)
    exact ⟨b, t', rfl, drop hb, ht'⟩

/-- Spaces are dropped before end tags only. -/
theorem eq_of_not_mem {c : Char} (hc : c ∈ "</".toList) (h : Trims s t) (hs : c ∉ s) : t = s := by
  induction h with
  | nil => rfl
  | keep d h ih => rw [ih fun hmem => hs (List.mem_cons_of_mem d hmem)]
  | drop h ih =>
    refine absurd (List.mem_append_left _ ?_) hs
    simp only [String.reduceToList, List.mem_cons, List.not_mem_nil, or_false] at hc
    rcases hc with rfl | rfl <;> decide

/-- The name of a start tag is kept. -/
theorem of_name {n r : List Char} (hn : '/' ∉ n) (hr : IsTagRest r) (h : Trims (n ++ r) t) :
    ∃ r', t = n ++ r' ∧ Trims r r' := by
  induction n generalizing t with
  | nil => exact ⟨t, rfl, h⟩
  | cons c n ih =>
    generalize hx : c :: n ++ r = x at h
    cases h with
    | nil => cases hx
    | keep d h =>
      obtain ⟨rfl, rfl⟩ := List.cons.inj hx
      obtain ⟨r', rfl, hr'⟩ := ih (fun hmem => hn (List.mem_cons_of_mem c hmem)) h
      exact ⟨r', rfl, hr'⟩
    | @drop x h =>
      -- the slash would stand in the name, or a character before it between name and attributes
      refine absurd ?_ hn
      rcases List.append_eq_append_iff.mp hx with ⟨a, ha, rfl⟩ | ⟨a, ha, -⟩
      · rcases a with _ | ⟨d, a⟩
        · rw [List.append_nil] at ha
          rw [← ha]
          decide
        · obtain rfl : d = ' ' := by
            rcases hr with hr | ⟨r, hr⟩
            · cases hr
            · exact (List.cons.inj hr).1
          have hmem : ' ' ∈ droppedSpace := by rw [ha]; simp
          exact absurd hmem (by decide)
      · rw [ha]
        exact List.mem_append_left a (by decide)

theorem endsTag (h : Trims s t) {quote : Option Char} (hquote : IsQuote quote)
    (hs : EndsTag quote s) : EndsTag quote t := by
  induction h generalizing quote with
  | nil => exact hs
  | keep c h ih =>
    obtain ⟨quote', hquote', hrest, hall⟩ := endsTag_cons hquote hs
    exact hall _ (ih hquote' hrest)
  | @drop x t h ih =>
    have hspace : ∀ c ∈ droppedSpace, c ∉ ['>', '"', Char.ofNat 39] :=
      List.all_iff_forall_prop.mp (by decide)
    have hend : ∀ c ∈ "</".toList, c ∉ ['>', '"', Char.ofNat 39] :=
      List.all_iff_forall_prop.mp (by decide)
    refine ih hquote ?_
    rw [endsTag_append_iff hend hquote]
    rwa [endsTag_append_iff hspace hquote] at hs

theorem isPrefix {u : List Char} (hu : '<' ∉ u) (h : Trims s t) (hbegins : u <+: t) : u <+: s := by
  induction h generalizing u with
  | nil => exact hbegins
  | keep c h ih =>
    cases u with
    | nil => exact List.nil_prefix
    | cons d u =>
      obtain ⟨rfl, hrest⟩ := List.cons_prefix_cons.mp hbegins
      have hu' : '<' ∉ u := fun hmem => hu (List.mem_cons_of_mem d hmem)
      exact List.cons_prefix_cons.mpr ⟨rfl, ih hu' hrest⟩
  | drop h ih =>
    cases u with
    | nil => exact List.nil_prefix
    | cons d u =>
      obtain ⟨rfl, -⟩ := List.cons_prefix_cons.mp (ih hu hbegins)
      exact absurd List.mem_cons_self hu

/-- What is found in a text from which spaces were dropped was found before. -/
theorem isInfix {u : List Char} (hu : '<' ∉ u) (h : Trims s t) (hfound : u <:+: t) : u <:+: s := by
  induction h with
  | nil => exact hfound
  | keep c h ih =>
    rcases List.infix_cons_iff.mp hfound with hbegins | hrest
    · exact (isPrefix hu (keep c h) hbegins).isInfix
    · exact (ih hrest).trans (List.suffix_cons c _).isInfix
  | @drop x t h ih => exact (ih hfound).trans (List.suffix_append "&#160;".toList _).isInfix

theorem isTagRest (h : Trims s t) (hs : IsTagRest s) : IsTagRest t := by
  rcases hs with rfl | ⟨r, rfl⟩
  · cases h
    exact Or.inl rfl
  · obtain ⟨t, rfl, h'⟩ := of_append (u := [' ']) (by decide) h
    obtain ⟨b, t, rfl, -, ht⟩ := Trims.split (c := '"') (by decide) h'
    cases ht
    exact Or.inr ⟨b, rfl⟩

end Trims

/-- **A page in sound chunks keeps its tags when spaces are dropped.** -/
theorem exists_chunks_of_trims {P : List Char → Prop} {cs : List Chunk}
    (hcs : ∀ c ∈ cs, c.Sound P) {t : List Char} (h : Trims (render cs) t) :
    ∃ cs', t = render cs' ∧ (∀ c ∈ cs', c.Sound P) ∧
      ∀ opened, TagsBalanced opened cs' ↔ TagsBalanced opened cs := by
  induction cs generalizing t with
  | nil =>
    cases h
    exact ⟨[], rfl, hcs, fun _ => Iff.rfl⟩
  | cons c cs ih =>
    obtain ⟨hc, hcs⟩ := List.forall_mem_cons.mp hcs
    replace ih := fun {t} h => @ih hcs t h
    cases c with
    | char c =>
      have hamp : '&' ∉ [c] := by simpa using hc.2.symm
      obtain ⟨t, rfl, ht⟩ := Trims.of_append hamp h
      obtain ⟨cs', rfl, hcs', hbalanced⟩ := ih ht
      exact ⟨.char c :: cs', rfl, List.forall_mem_cons.mpr ⟨hc, hcs'⟩, hbalanced⟩
    | ref n =>
      generalize hx : render (.ref n :: cs) = x at h
      rw [render_cons, Chunk.render_ref, List.cons_append, List.append_assoc,
        List.singleton_append] at hx
      cases h with
      | nil => cases hx
      | keep d h =>
        obtain ⟨rfl, rfl⟩ := List.cons.inj hx
        have hamp : '&' ∉ n ++ [';'] := by simpa using fun h => (hc.1 _ h).1 rfl
        rw [← List.singleton_append, ← List.append_assoc] at h
        obtain ⟨t, rfl, ht⟩ := Trims.of_append hamp h
        obtain ⟨cs', rfl, hcs', hbalanced⟩ := ih ht
        exact ⟨.ref n :: cs', by simp, List.forall_mem_cons.mpr ⟨hc, hcs'⟩, hbalanced⟩
      | @drop s t h =>
        -- the whole reference goes, and the end tag after it stays
        have hrest : n ++ ';' :: render cs = "#160".toList ++ ';' :: ("</".toList ++ s) :=
          (List.cons.inj hx).2
        obtain ⟨a, ha, hrest⟩ := append_cons_eq_append (fun h => (hc.1 _ h).2.1 rfl) hrest
        cases a with
        | nil =>
          rw [← (List.cons.inj hrest).2] at h
          exact ih h
        | cons d a =>
          obtain ⟨rfl, -⟩ := List.cons.inj hrest
          have hmem : ';' ∈ "#160".toList := by rw [ha]; simp
          exact absurd hmem (by decide)
    | start n r =>
      obtain ⟨hname, hrest, hend⟩ := hc
      have hsplit : render (.start n r :: cs) = ['<'] ++ ((n ++ r) ++ '>' :: render cs) := by simp
      rw [hsplit] at h
      obtain ⟨t, rfl, h'⟩ := Trims.of_append (by decide) h
      obtain ⟨b, t, rfl, hb, ht⟩ := h'.split (c := '>') (by decide)
      obtain ⟨r', rfl, hr'⟩ := Trims.of_name (fun hmem => (hname.2.2.2.1 _ hmem).2 rfl) hrest hb
      obtain ⟨cs', rfl, hcs', hbalanced⟩ := ih ht
      refine ⟨.start n r' :: cs', by simp, List.forall_mem_cons.mpr ⟨⟨hname, ?_, ?_⟩, hcs'⟩, ?_⟩
      · exact hr'.isTagRest hrest
      · exact hb.endsTag (by simp [IsQuote]) hend
      · exact fun opened => hbalanced (n :: opened)
    | stop n =>
      have hsplit : render (.stop n :: cs) = ['<', '/'] ++ (n ++ '>' :: render cs) := by simp
      rw [hsplit] at h
      obtain ⟨t, rfl, h'⟩ := Trims.of_append (by decide) h
      obtain ⟨b, t, rfl, hb, ht⟩ := h'.split (c := '>') (by decide)
      obtain rfl := hb.eq_of_not_mem (c := '/') (by decide) fun hmem => (hc.2.2.2.1 _ hmem).2 rfl
      obtain ⟨cs', rfl, hcs', hbalanced⟩ := ih ht
      refine ⟨.stop b :: cs', by simp, List.forall_mem_cons.mpr ⟨hc, hcs'⟩, ?_⟩
      intro opened
      simp only [TagsBalanced, hbalanced]
    | comment u =>
      have hsplit : render (.comment u :: cs) =
          "<!--".toList ++ (u ++ '-' :: ("->".toList ++ render cs)) := by
        rw [render_cons, Chunk.render_comment]
        simp
      rw [hsplit] at h
      obtain ⟨t, rfl, h'⟩ := Trims.of_append (by decide) h
      obtain ⟨b, t, rfl, hb, h''⟩ := h'.split (c := '-') (by decide)
      obtain ⟨t, rfl, ht⟩ := Trims.of_append (by decide) h''
      obtain ⟨cs', rfl, hcs', hbalanced⟩ := ih ht
      refine ⟨.comment b :: cs', ?_, List.forall_mem_cons.mpr ⟨?_, hcs'⟩, hbalanced⟩
      · rw [render_cons, Chunk.render_comment]
        simp
      · exact fun hfound => hc (hb.isInfix (by decide) hfound)
    | doctype n =>
      have hsplit : render (.doctype n :: cs) =
          "<!DOCTYPE ".toList ++ (n ++ '>' :: render cs) := by
        rw [render_cons, Chunk.render_doctype]
        simp
      rw [hsplit] at h
      obtain ⟨t, rfl, h'⟩ := Trims.of_append (by decide) h
      obtain ⟨b, t, rfl, hb, ht⟩ := h'.split (c := '>') (by decide)
      obtain rfl := hb.eq_of_not_mem (c := '<') (by decide) hc.1
      obtain ⟨cs', rfl, hcs', hbalanced⟩ := ih ht
      refine ⟨.doctype b :: cs', ?_, List.forall_mem_cons.mpr ⟨hc, hcs'⟩, hbalanced⟩
      rw [render_cons, Chunk.render_doctype]
      simp

/-! ### Mending a page -/

/-- The beginning of a licence comment. -/
def licence : List Char := "/* @license".toList

/-- A text after its named spaces and dashes have been replaced. -/
def mendReferences (s : List Char) : List Char :=
  replaceRef "ndash".toList (.char (Char.ofNat 0x2013))
    (replaceRef "nbsp".toList (.ref "#160".toList) s)

theorem trims_of_shortenCell? {s t : List Char} (h : shortenCell? s = some t) : Trims s t := by
  obtain ⟨⟨body, rest⟩, hcell, rfl⟩ := Option.map_eq_some_iff.mp h
  obtain ⟨u, rfl, hrun⟩ := lit_eq_some.mp hcell
  obtain ⟨-, u, rfl, -, hend⟩ := run1_eq_some hrun
  obtain ⟨u, rfl, hrest⟩ := lit_eq_some.mp hend
  obtain rfl := Option.some.inj hrest
  have hdrop : Trims ("&#160;</td>".toList ++ u) ("</td>".toList ++ u) :=
    .drop (s := "td>".toList ++ u) (.refl _)
  change Trims _ (typeCell.toList ++ body ++ "</td>".toList ++ u)
  rw [← List.append_assoc, List.append_assoc _ "</td>".toList]
  exact (Trims.refl _).append hdrop

theorem trims_shortenFirst (s : List Char) : Trims s (shortenFirst s) := by
  induction s with
  | nil => exact .nil
  | cons c s ih =>
    rw [shortenFirst]
    split
    · next t h => exact trims_of_shortenCell? h
    · exact .keep c ih

/-- Without its beginning there is no licence comment. -/
theorem substitute_licence {s : List Char} (h : ¬ licence <:+: s) :
    substitute (enclosed? "/* @license" "*/") [] s = s := by
  refine substitute_eq_self fun t ht => ?_
  rcases hfound : enclosed? "/* @license" "*/" t with _ | n
  · rfl
  · obtain ⟨u, rfl, -⟩ := lit_eq_some.mp hfound
    exact absurd ((List.prefix_append licence u).isInfix.trans ht.isInfix) h

theorem isInfix_of_isInfix_mendReferences {s : List Char} (h : licence <:+: mendReferences s) :
    licence <:+: s := by
  have hdash : ∀ c ∈ licence, c ∉ [Char.ofNat 0x2013] := List.all_iff_forall_prop.mp (by decide)
  have hspace : ∀ c ∈ licence, c ∉ "&#160;".toList := List.all_iff_forall_prop.mp (by decide)
  rw [mendReferences, replaceRef] at h
  have hafter := isInfix_of_isInfix_replace (by decide) (by decide) hdash h
  exact isInfix_of_isInfix_replace (by decide) (by decide) hspace hafter

/-- Without licence comments there are two steps. -/
theorem repairLine_eq {line : List Char} (h : ¬ licence <:+: line) :
    repairLine line = shortenFirst (mendReferences line) := by
  refine substitute_licence fun hlicence => h (isInfix_of_isInfix_mendReferences ?_)
  exact (trims_shortenFirst _).isInfix (by decide) hlicence

/-- A line without licence comments is mended in two steps. -/
theorem trims_repairLine {line : List Char} (h : ¬ licence <:+: line) :
    Trims (mendReferences line) (repairLine line) := by
  rw [repairLine_eq h]
  exact trims_shortenFirst _

theorem pieces_mendReferences (page : List Char) :
    pieces (mendReferences page) = (pieces page).map mendReferences := by
  rw [mendReferences, replaceRef, pieces_replace (by decide) (by decide) (by decide) (by decide),
    replaceRef, pieces_replace (by decide) (by decide) (by decide) (by decide), List.map_map]
  rfl

/-- **A page without licence comments is mended in two steps**: references are replaced, and spaces
are dropped. -/
theorem trims_repair {page : List Char} (h : ¬ licence <:+: page) :
    Trims (mendReferences page) (repair page) := by
  rw [← flatten_pieces (mendReferences page), pieces_mendReferences, ← List.flatMap_def, repair]
  refine Trims.flatMap fun line hline => trims_repairLine fun hlicence => h ?_
  rw [← flatten_pieces page]
  exact hlicence.trans (List.infix_of_mem_flatten hline)

/-! ### The chunks of a mended page -/

/-- A reference that is known, or is replaced when the page is mended. -/
def Usable (n : List Char) : Prop := Known n ∨ n = "nbsp".toList ∨ n = "ndash".toList

instance : DecidablePred Usable := fun _ => inferInstanceAs (Decidable (_ ∨ _ ∨ _))

/-- A chunk after named spaces have been replaced. -/
def mendSpace : Chunk → Chunk := mapRef "nbsp".toList (.ref "#160".toList)

/-- A chunk after named dashes have been replaced. -/
def mendDash : Chunk → Chunk := mapRef "ndash".toList (.char (Char.ofNat 0x2013))

/-- A chunk after named spaces and dashes have been replaced. -/
def mendChunk (c : Chunk) : Chunk := mendDash (mendSpace c)

theorem sound_mendSpace {c : Chunk} (h : c.Sound Usable) :
    (mendSpace c).Sound fun n => Known n ∨ n = "ndash".toList := by
  refine sound_mapRef (by decide) (by decide) ?_ ?_ h
  · exact ⟨by decide, Or.inl (by decide)⟩
  · rintro n hn (hknown | rfl | rfl)
    · exact Or.inl hknown
    · exact absurd rfl hn
    · exact Or.inr rfl

theorem sound_mendChunk {c : Chunk} (h : c.Sound Usable) : (mendChunk c).Sound Known := by
  refine sound_mapRef (by decide) (by decide) (by decide) ?_ (sound_mendSpace h)
  rintro n hn (hknown | rfl)
  · exact hknown
  · exact absurd rfl hn

theorem mendReferences_render {cs : List Chunk} (h : ∀ c ∈ cs, c.Sound Usable) :
    mendReferences (render cs) = render (cs.map mendChunk) := by
  have hspace : ∀ c ∈ cs.map mendSpace, c.Sound fun n => Known n ∨ n = "ndash".toList :=
    List.forall_mem_map.mpr fun c hc => sound_mendSpace (h c hc)
  rw [mendReferences, replaceRef_render (by decide) (by decide) h, ← mendSpace,
    replaceRef_render (by decide) (by decide) hspace, List.map_map]
  rfl

theorem balanced_map_mendChunk {cs : List Chunk} (h : TagsBalanced [] cs) :
    TagsBalanced [] (cs.map mendChunk) := by
  have hspace : TagsBalanced [] (cs.map mendSpace) := balanced_map_mapRef rfl rfl h
  have hdash : TagsBalanced [] ((cs.map mendSpace).map mendDash) :=
    balanced_map_mapRef rfl rfl hspace
  rwa [List.map_map] at hdash

theorem isStart_mendChunk (c : Chunk) :
    (mendChunk c).isStart = c.isStart ∧ (mendChunk c).isStop = c.isStop := by
  obtain ⟨hstart, hstop⟩ : (mendSpace c).isStart = c.isStart ∧ (mendSpace c).isStop = c.isStop :=
    isStart_mapRef rfl rfl c
  rw [← hstart, ← hstop]
  exact isStart_mapRef rfl rfl (mendSpace c)

section Mended

variable {cs : List Chunk} (hcs : ∀ c ∈ cs, c.Sound Usable) (hlicence : ¬ licence <:+: render cs)
include hcs hlicence

/-- Whether a mended page is well formed depends on its tags. -/
theorem check_repair_iff :
    check (repair (render cs)) = none ↔ TagsBalanced [] (cs.map mendChunk) := by
  have hsound : ∀ c ∈ cs.map mendChunk, c.Sound Known :=
    List.forall_mem_map.mpr fun c hc => sound_mendChunk (hcs c hc)
  have htrims := trims_repair hlicence
  rw [mendReferences_render hcs] at htrims
  obtain ⟨cs', hrender, hcs', hbalanced⟩ := exists_chunks_of_trims hsound htrims
  rw [hrender, check_render_iff hcs', hbalanced]

/-- **A page with balanced tags is well formed after it was mended.** -/
theorem check_repair_eq_none (h : TagsBalanced [] cs) : check (repair (render cs)) = none :=
  (check_repair_iff hcs hlicence).mpr (balanced_map_mendChunk h)

/-- **A page that is well formed after it was mended closes every tag.** -/
theorem countP_isStop_of_check_repair (h : check (repair (render cs)) = none) :
    cs.countP Chunk.isStop = cs.countP Chunk.isStart := by
  have hcount := ((check_repair_iff hcs hlicence).mp h).countP_isStop
  rw [List.countP_map, List.countP_map] at hcount
  have hstart : Chunk.isStart ∘ mendChunk = Chunk.isStart :=
    funext fun c => (isStart_mendChunk c).1
  have hstop : Chunk.isStop ∘ mendChunk = Chunk.isStop := funext fun c => (isStart_mendChunk c).2
  simpa [hstart, hstop] using hcount

end Mended

end BindingDocs.Page
