import BindingDocs.Proofs.Markup.Chunk
import BindingDocs.Proofs.Text.Replace

/-!
# Replacing a reference in a page

A reference is replaced wherever it is written, also in names, values and comments.  In a page in
sound chunks it is a chunk or stands inside of one, and a replacement that has no part in the markup
leaves the chunks sound: no tag, comment or document type ends elsewhere than before.

## Main definitions

* `Neutral` — a text that has no part in the markup.
* `mapRef` — a chunk after a reference has been replaced.

## Main results

* `replaceRef_render` — a page is replaced chunk by chunk.
* `sound_mapRef`, `balanced_map_mapRef` — chunks stay sound, and tags stay balanced.
-/

namespace BindingDocs.Markup

open Text

/-! ### Texts without part in the markup -/

/-- A text that does not end a tag, a quote or a name, wherever it stands. -/
def Neutral (s : List Char) : Prop :=
  s ≠ [] ∧ ∀ c ∈ s, c ∉ ['<', '>', '/', '-', '!', '?', '"', Char.ofNat 39] ∧
    isMarkupBlank c = false

instance (s : List Char) : Decidable (Neutral s) :=
  @instDecidableAnd _ _ inferInstance (List.decidableBAll _ s)

theorem Neutral.not_mem {s : List Char} (h : Neutral s) {c : Char}
    (hc : c ∈ ['<', '>', '/', '-', '!', '?', '"', Char.ofNat 39]) : c ∉ s :=
  fun hmem => (h.2 c hmem).1 hc

theorem Neutral.not_mem_of_isMarkupBlank {s : List Char} (h : Neutral s) {c : Char}
    (hc : isMarkupBlank c = true) : c ∉ s := by
  intro hmem
  simp [(h.2 c hmem).2] at hc

/-- The state of a reader inside a tag: outside quotes, or inside a quote. -/
def IsQuote (quote : Option Char) : Prop := ∀ q ∈ quote, q = '"' ∨ q = Char.ofNat 39

/-- A neutral text has no part in where a tag ends. -/
theorem endsTag_append_iff {u s : List Char} (hu : ∀ c ∈ u, c ∉ ['>', '"', Char.ofNat 39])
    {quote : Option Char} (hquote : IsQuote quote) :
    EndsTag quote (u ++ s) ↔ EndsTag quote s := by
  induction u with
  | nil => rfl
  | cons c u ih =>
    obtain ⟨hc, hrest⟩ := List.forall_mem_cons.mp hu
    simp only [List.mem_cons, List.not_mem_nil, or_false, not_or] at hc
    rw [List.cons_append, ← ih hrest]
    cases quote with
    | none => simp [EndsTag, hc]
    | some q =>
      have hne : c ≠ q := by
        rcases hquote q rfl with rfl | rfl
        · exact hc.2.1
        · exact hc.2.2
      rw [EndsTag, if_neg hne]

/-- Reading a character inside a tag. -/
theorem endsTag_cons {c : Char} {s : List Char} {quote : Option Char} (hquote : IsQuote quote)
    (h : EndsTag quote (c :: s)) : ∃ quote', IsQuote quote' ∧ EndsTag quote' s ∧
      ∀ t, EndsTag quote' t → EndsTag quote (c :: t) := by
  cases quote with
  | none =>
    refine ⟨_, ?_, h.2, fun t ht => ⟨h.1, ht⟩⟩
    intro q hq
    split at hq
    · next hc =>
      cases hq
      exact hc
    · cases hq
  | some q =>
    refine ⟨_, ?_, h, fun t ht => ht⟩
    intro r hr
    split at hr
    · cases hr
    · cases hr
      exact hquote q rfl

/-! ### Replacing a reference -/

section Replace

variable {name : List Char} {new : Chunk} {P Q : List Char → Prop}

/-- A text after the reference `name` has been replaced. -/
def replaceRef (name : List Char) (new : Chunk) (s : List Char) : List Char :=
  replace (Chunk.ref name).render new.render s

/-- The chunk after the reference `name` has been replaced. -/
def mapRef (name : List Char) (new : Chunk) : Chunk → Chunk
  | .char c => .char c
  | .ref n => if n = name then new else .ref n
  | .start n r => .start (replaceRef name new n) (replaceRef name new r)
  | .stop n => .stop (replaceRef name new n)
  | .comment t => .comment (replaceRef name new t)
  | .doctype n => .doctype (replaceRef name new n)

theorem ref_render_ne_nil (name : List Char) : (Chunk.ref name).render ≠ [] := by simp

theorem endsTag_replaceRef (hw : Neutral (Chunk.ref name).render) (hv : Neutral new.render)
    {quote : Option Char} (hquote : IsQuote quote) {s : List Char} (h : EndsTag quote s) :
    EndsTag quote (replaceRef name new s) := by
  unfold replaceRef
  have hplain {u : List Char} (hu : Neutral u) : ∀ c ∈ u, c ∉ ['>', '"', Char.ofNat 39] := by
    intro c hc
    have hnot := (hu.2 c hc).1
    simp only [List.mem_cons, List.not_mem_nil, or_false, not_or] at hnot ⊢
    exact ⟨hnot.2.1, hnot.2.2.2.2.2.2.1, hnot.2.2.2.2.2.2.2⟩
  have hne := ref_render_ne_nil name
  induction s using replace_induction hne generalizing quote with
  | hnil => rwa [replace_nil hne]
  | hoccurs s ih =>
    rw [endsTag_append_iff (hplain hw) hquote] at h
    rw [replace_append hne, endsTag_append_iff (hplain hv) hquote]
    exact ih hquote h
  | hkeep c s hbegins ih =>
    obtain ⟨quote', hquote', hs, hall⟩ := endsTag_cons hquote h
    rw [replace_cons hbegins]
    exact hall _ (ih hquote' hs)

/-- What is before and after a character of markup is replaced apart. -/
theorem replaceRef_append_cons {c : Char} (hc : c ∉ (Chunk.ref name).render) (s t : List Char) :
    replaceRef name new (s ++ c :: t) = replaceRef name new s ++ c :: replaceRef name new t :=
  replace_append_cons (ref_render_ne_nil name) hc s t

/-- A text without ampersands is kept. -/
theorem replaceRef_append_of_not_mem {u : List Char} (hu : '&' ∉ u) (s : List Char) :
    replaceRef name new (u ++ s) = u ++ replaceRef name new s := replace_append_of_not_mem hu s

theorem replaceRef_nil : replaceRef name new [] = [] := replace_nil (ref_render_ne_nil name)

/-- The attributes of a tag stay attributes. -/
theorem replaceRef_attributes (hw : Neutral (Chunk.ref name).render) (r : List Char) :
    replaceRef name new (' ' :: (r ++ ['"'])) = ' ' :: (replaceRef name new r ++ ['"']) := by
  have hblank := hw.not_mem_of_isMarkupBlank (c := ' ') rfl
  have hquote := hw.not_mem (c := '"') (by decide)
  have hrest : replaceRef name new ([] ++ ' ' :: (r ++ ['"'])) = _ :=
    replaceRef_append_cons hblank [] (r ++ ['"'])
  rw [replaceRef_append_cons hquote, replaceRef_nil, List.nil_append, List.nil_append] at hrest
  exact hrest

/-- The parts of a start tag are replaced apart. -/
theorem replaceRef_tag (hw : Neutral (Chunk.ref name).render) {n r : List Char}
    (hr : IsTagRest r) :
    replaceRef name new (n ++ r) = replaceRef name new n ++ replaceRef name new r := by
  rcases hr with rfl | ⟨r, rfl⟩
  · rw [replaceRef_nil, List.append_nil, List.append_nil]
  · have hblank := hw.not_mem_of_isMarkupBlank (c := ' ') rfl
    have hquote := hw.not_mem (c := '"') (by decide)
    rw [replaceRef_attributes hw, replaceRef_append_cons hblank, replaceRef_append_cons hquote,
      replaceRef_nil]

/-- **A chunk is replaced on its own.** -/
theorem replaceRef_chunk (hw : Neutral (Chunk.ref name).render) (hname : IsReferenceName name)
    {c : Chunk} (hc : c.Sound P) (s : List Char) :
    replaceRef name new (c.render ++ s) =
      (mapRef name new c).render ++ replaceRef name new s := by
  have hclose := hw.not_mem (c := '>') (by decide)
  have hhyphen := hw.not_mem (c := '-') (by decide)
  cases c with
  | char c =>
    have hamp : '&' ∉ [c] := by simpa using hc.2.symm
    exact replaceRef_append_of_not_mem hamp s
  | ref n =>
    by_cases hn : n = name
    · subst hn
      rw [mapRef, if_pos rfl]
      exact replace_append (ref_render_ne_nil n) s
    · have hnot : ¬ (Chunk.ref name).render <+: '&' :: (n ++ ';' :: s) := by
        rintro ⟨t, ht⟩
        -- up to its semicolon another reference has another name
        have heq : name ++ ';' :: t = n ++ ';' :: s := by simpa using ht
        obtain ⟨a, rfl, ha⟩ := append_cons_eq_append (fun h => (hname _ h).2.1 rfl) heq
        cases a with
        | nil => exact hn (List.append_nil name)
        | cons d a =>
          obtain ⟨rfl, -⟩ := List.cons.inj ha
          exact (hc.1 ';' (by simp)).2.1 rfl
      have hamp : '&' ∉ n ++ [';'] := by simpa using fun h => (hc.1 _ h).1 rfl
      have hrest : replaceRef name new ((n ++ [';']) ++ s) = _ :=
        replaceRef_append_of_not_mem hamp s
      have hsplit : (Chunk.ref n).render ++ s = '&' :: (n ++ ';' :: s) := by simp
      rw [List.append_assoc, List.singleton_append] at hrest
      rw [hsplit, mapRef, if_neg hn, replaceRef, replace_cons hnot, ← replaceRef, hrest]
      simp
  | start n r =>
    have hopen : '&' ∉ ['<'] := by decide
    have hsplit : (Chunk.start n r).render ++ s = ['<'] ++ ((n ++ r) ++ '>' :: s) := by simp
    rw [hsplit, replaceRef_append_of_not_mem hopen, replaceRef_append_cons hclose,
      replaceRef_tag hw hc.2.1]
    simp [mapRef]
  | stop n =>
    have hopen : '&' ∉ ['<', '/'] := by decide
    have hsplit : (Chunk.stop n).render ++ s = ['<', '/'] ++ (n ++ '>' :: s) := by simp
    rw [hsplit, replaceRef_append_of_not_mem hopen, replaceRef_append_cons hclose]
    simp [mapRef]
  | comment t =>
    have hopen : '&' ∉ "<!--".toList := by decide
    have hend : '&' ∉ "->".toList := by decide
    have hsplit : (Chunk.comment t).render ++ s =
        "<!--".toList ++ (t ++ '-' :: ("->".toList ++ s)) := by
      rw [Chunk.render_comment]
      simp
    rw [hsplit, replaceRef_append_of_not_mem hopen, replaceRef_append_cons hhyphen,
      replaceRef_append_of_not_mem hend, mapRef, Chunk.render_comment]
    simp
  | doctype n =>
    have hopen : '&' ∉ "<!DOCTYPE ".toList := by decide
    have hsplit : (Chunk.doctype n).render ++ s = "<!DOCTYPE ".toList ++ (n ++ '>' :: s) := by
      rw [Chunk.render_doctype]
      simp
    rw [hsplit, replaceRef_append_of_not_mem hopen, replaceRef_append_cons hclose, mapRef,
      Chunk.render_doctype]
    simp

/-- **A page is replaced chunk by chunk.** -/
theorem replaceRef_render (hw : Neutral (Chunk.ref name).render) (hname : IsReferenceName name)
    {cs : List Chunk} (hcs : ∀ c ∈ cs, c.Sound P) :
    replaceRef name new (render cs) = render (cs.map (mapRef name new)) := by
  induction cs with
  | nil => exact replaceRef_nil
  | cons c cs ih =>
    obtain ⟨hc, hcs⟩ := List.forall_mem_cons.mp hcs
    rw [render_cons, replaceRef_chunk hw hname hc, ih hcs]
    rfl

theorem isTagName_replaceRef (hw : Neutral (Chunk.ref name).render) (hv : Neutral new.render)
    {n : List Char} (h : IsTagName n) : IsTagName (replaceRef name new n) := by
  obtain ⟨hne, hbang, hquestion, hchars, hend⟩ := h
  have hwne := ref_render_ne_nil name
  refine ⟨fun hnil => hne (replace_eq_nil hwne hv.1 hnil), ?_, ?_, ?_, ?_⟩
  · exact fun hhead => (head?_replace hwne hv.1 hhead).elim (hv.not_mem (by decide)) hbang
  · exact fun hhead => (head?_replace hwne hv.1 hhead).elim (hv.not_mem (by decide)) hquestion
  · intro c hc
    rcases mem_replace hwne hc with hc | hc
    · refine ⟨(hv.2 c hc).2, ?_⟩
      rintro rfl
      exact hv.not_mem (by decide) hc
    · exact hchars c hc
  · exact endsTag_replaceRef hw hv (by simp [IsQuote]) hend

/-- **A replacement keeps chunks sound**, and the reference that was replaced is gone. -/
theorem sound_mapRef (hw : Neutral (Chunk.ref name).render) (hv : Neutral new.render)
    (hnew : new.Sound Q) (hP : ∀ n, n ≠ name → P n → Q n) {c : Chunk} (hc : c.Sound P) :
    (mapRef name new c).Sound Q := by
  have hwne := ref_render_ne_nil name
  cases c with
  | char c => exact hc
  | ref n =>
    by_cases hn : n = name
    · rwa [mapRef, if_pos hn]
    · rw [mapRef, if_neg hn]
      exact ⟨hc.1, hP n hn hc.2⟩
  | start n r =>
    obtain ⟨hname, hrest, hend⟩ := hc
    refine ⟨isTagName_replaceRef hw hv hname, ?_, ?_⟩
    · rcases hrest with rfl | ⟨r, rfl⟩
      · exact Or.inl replaceRef_nil
      · exact Or.inr ⟨_, replaceRef_attributes hw r⟩
    · rw [← replaceRef_tag hw hrest]
      exact endsTag_replaceRef hw hv (by simp [IsQuote]) hend
  | stop n => exact isTagName_replaceRef hw hv hc
  | comment t =>
    have hdisjoint : ∀ c ∈ "-->".toList, c ∉ new.render := by
      intro c hc
      simp only [String.reduceToList, List.mem_cons, List.not_mem_nil, or_false] at hc
      rcases hc with rfl | rfl | rfl <;> exact hv.not_mem (by decide)
    exact fun h => hc (isInfix_of_isInfix_replace hwne hv.1 hdisjoint h)
  | doctype n =>
    obtain ⟨hopen, hclose, hblank⟩ := hc
    refine ⟨?_, ?_, ?_⟩
    · exact fun h => (mem_replace hwne h).elim (hv.not_mem (by decide)) hopen
    · exact fun h => (mem_replace hwne h).elim (hv.not_mem (by decide)) hclose
    · obtain ⟨c, hc⟩ := List.exists_mem_of_ne_nil _ hv.1
      rw [List.all_eq_false] at hblank ⊢
      refine exists_mem_replace hwne ⟨c, hc, ?_⟩ hblank
      simp [(hv.2 c hc).2]

/-- Tags stay tags, and nothing else becomes one. -/
theorem isStart_mapRef (hstart : new.isStart = false) (hstop : new.isStop = false) (c : Chunk) :
    (mapRef name new c).isStart = c.isStart ∧ (mapRef name new c).isStop = c.isStop := by
  cases c with
  | ref n =>
    by_cases hn : n = name
    · rw [mapRef, if_pos hn, hstart, hstop]
      exact ⟨rfl, rfl⟩
    · rw [mapRef, if_neg hn]
      exact ⟨rfl, rfl⟩
  | _ => exact ⟨rfl, rfl⟩

/-- Tags stay balanced: the same names are replaced in start tags and in end tags. -/
theorem balanced_map_mapRef (hstart : new.isStart = false) (hstop : new.isStop = false)
    {opened : List (List Char)} {cs : List Chunk} (h : TagsBalanced opened cs) :
    TagsBalanced (opened.map (replaceRef name new)) (cs.map (mapRef name new)) := by
  induction cs generalizing opened with
  | nil =>
    cases h
    rfl
  | cons c cs ih =>
    rw [List.map_cons]
    cases c with
    | start n r => exact ih h
    | stop n =>
      obtain ⟨outer, rfl, houter⟩ := h
      exact ⟨_, rfl, ih houter⟩
    | _ =>
      exact (balanced_cons_iff (isStart_mapRef hstart hstop _).1
        (isStart_mapRef hstart hstop _).2).mpr (ih h)

end Replace

end BindingDocs.Markup
