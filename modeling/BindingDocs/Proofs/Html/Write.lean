import BindingDocs.Html.Write
import BindingDocs.Proofs.Page.Repair

/-!
# Written pages in chunks

What is written for a forest is a page in chunks: escaped texts are characters and references, raw
texts are cut where references are written in them, and every other item has chunks of its own.
Every start tag is closed by its end tag, except those of void elements, which have none.

## Main definitions

* `textChunks` — a text as strict markup reads it.
* `chunks` — the chunks of a forest.
* `voids` — the number of void elements that are written.
* `isReadable` — what is written for a forest is read as it is meant.

## Main results

* `render_chunks` — the chunks are what is written.
* `endsTag_startTag` — no value of an attribute ends a start tag.
* `sound_chunks` — the chunks are sound where what is written is read as it is meant.
* `countP_isStart_chunks`, `balanced_chunks` — tags are closed except those of void elements.
* `check_repair_write_iff` — **the written pages that are well formed after they are mended.**
-/

namespace BindingDocs.Html

open Markup
open Page (Forest Item Element Attr)

/-! ### Texts -/

/-- A character of an escaped text. -/
def escapeChunk (c : Char) : Chunk :=
  if c = '&' then .ref "amp".toList
  else if c.toNat = 0xA0 then .ref "nbsp".toList
  else if c = '<' then .ref "lt".toList
  else if c = '>' then .ref "gt".toList
  else .char c

theorem render_escapeChunk (c : Char) : (escapeChunk c).render = escapeChar false c := by
  simp only [escapeChunk, escapeChar, Bool.false_eq_true, and_false, if_false, Bool.not_false,
    and_true]
  split_ifs <;> rfl

theorem render_map_escapeChunk (s : List Char) :
    render (s.map escapeChunk) = s.flatMap (escapeChar false) := by
  rw [render, List.flatMap_map]
  exact congrArg (s.flatMap ·) (funext render_escapeChunk)

/-- A text that is written as it is, cut where references are written in it; `open?` is the reversal
of what has been read of a reference. -/
def textChunks : (open? : Option (List Char)) → List Char → List Chunk
  | none, [] => []
  | some n, [] => .char '&' :: n.reverse.map .char
  | none, c :: s => if c = '&' then textChunks (some []) s else .char c :: textChunks none s
  | some n, c :: s =>
    if c = ';' then .ref n.reverse :: textChunks none s else textChunks (some (c :: n)) s

theorem render_map_char (s : List Char) : render (s.map .char) = s := by
  simp [render, List.flatMap_map]

theorem render_textChunks (open? : Option (List Char)) (s : List Char) :
    render (textChunks open? s) = (open?.elim [] fun n => '&' :: n.reverse) ++ s := by
  induction s generalizing open? with
  | nil => cases open? <;> simp [textChunks, render_map_char, -List.map_reverse]
  | cons c s ih =>
    cases open? with
    | none =>
      by_cases hc : c = '&'
      · simp [textChunks, hc, ih]
      · simp [textChunks, hc, ih]
    | some n =>
      by_cases hc : c = ';'
      · simp [textChunks, hc, ih]
      · simp [textChunks, hc, ih]

/-! ### Start tags -/

/-- What is written of an element between its name and the end of its start tag. -/
def tagRest (e : Element) : List Char := e.attrs.flatMap fun a => (writeAttr a).toList

theorem toList_startTag (e : Element) :
    (startTag e).toList = (Chunk.start e.name.toList (tagRest e)).render := by
  simp [startTag, tagRest, List.flatMap_map]

theorem toList_endTag (e : Element) : (endTag e).toList = (Chunk.stop e.name.toList).render := by
  simp [endTag]

theorem toList_writeAttr (a : Attr) : ∃ r, (writeAttr a).toList = ' ' :: (r ++ ['"']) :=
  ⟨(attrQualifier a ++ a.name ++ "=\"" ++ escape true a.value).toList, by simp [writeAttr]⟩

theorem isTagRest_tagRest (e : Element) : IsTagRest (tagRest e) := by
  unfold tagRest
  induction e.attrs with
  | nil => exact Or.inl rfl
  | cons a attrs ih =>
    obtain ⟨r, hr⟩ := toList_writeAttr a
    rw [List.flatMap_cons, hr]
    rcases ih with hnil | ⟨r', hr'⟩
    · exact Or.inr ⟨r, by rw [hnil, List.append_nil]⟩
    · exact Or.inr ⟨r ++ '"' :: ' ' :: r', by simp [hr']⟩

/-- Quotes are written by name in a value. -/
theorem not_mem_escape (value : String) : '"' ∉ (escape true value).toList := by
  rw [escape, String.toList_ofList, List.mem_flatMap]
  rintro ⟨c, -, hc⟩
  unfold escapeChar at hc
  split_ifs at hc with hamp hspace hquote hlt hgt
  · exact absurd hc (by decide)
  · exact absurd hc (by decide)
  · exact absurd hc (by decide)
  · simp at hlt
  · simp at hgt
  · exact hquote ⟨(List.mem_singleton.mp hc).symm, rfl⟩

theorem endsTag_attrQualifier (a : Attr) : EndsTag none (attrQualifier a).toList := by
  unfold attrQualifier
  split
  · decide
  · decide
  · split <;> decide
  · decide

/-- A value in quotes ends no tag. -/
theorem endsTag_attribute {q n v : List Char} (hq : EndsTag none q) (hn : EndsTag none n)
    (hv : '"' ∉ v) : EndsTag none (' ' :: (q ++ (n ++ '=' :: '"' :: (v ++ ['"'])))) := by
  have hvalue : EndsTag (some '"') (v ++ ['"']) := endsTag_quoted hv trivial
  have hquoted : EndsTag none ('=' :: '"' :: (v ++ ['"'])) := ⟨by decide, by decide, hvalue⟩
  exact ⟨by decide, hq.append (hn.append hquoted)⟩

theorem endsTag_writeAttr {a : Attr} (h : EndsTag none a.name.toList) :
    EndsTag none (writeAttr a).toList := by
  have hsplit : (writeAttr a).toList = ' ' :: ((attrQualifier a).toList ++
      (a.name.toList ++ '=' :: '"' :: ((escape true a.value).toList ++ ['"']))) := by
    simp [writeAttr]
  rw [hsplit]
  exact endsTag_attribute (endsTag_attrQualifier a) h (not_mem_escape a.value)

/-- **A start tag ends at its own bracket if its names allow it**; the values do not matter. -/
theorem endsTag_startTag {e : Element} (hname : EndsTag none e.name.toList)
    (hattrs : ∀ a ∈ e.attrs, EndsTag none a.name.toList) :
    EndsTag none (e.name.toList ++ tagRest e) := by
  refine hname.append ?_
  unfold tagRest
  generalize e.attrs = attrs at hattrs
  induction attrs with
  | nil => exact trivial
  | cons a attrs ih =>
    obtain ⟨ha, hrest⟩ := List.forall_mem_cons.mp hattrs
    exact (endsTag_writeAttr ha).append (ih hrest)

/-! ### Forests -/

/-- The chunks of an item that is no element. -/
def itemChunks (raw : Bool) : Item → List Chunk
  | .text s => if raw then textChunks none s.toList else s.toList.map escapeChunk
  | .comment s => [.comment s.toList]
  | .doctype name => [.doctype name.toList]
  | .element _ | .document | .contents => []

/-- The chunks of a forest, as it is written. -/
def chunks (raw silent : Bool) : Forest → List Chunk
  | .nil => []
  | .cons _ (.element e) below next =>
    let inner := chunks (isRaw e) (silent || isVoid e) below
    let here :=
      if silent then inner
      else if isVoid e then .start e.name.toList (tagRest e) :: inner
      else .start e.name.toList (tagRest e) :: (inner ++ [.stop e.name.toList])
    here ++ chunks raw silent next
  | .cons _ item _ next => itemChunks raw item ++ chunks raw silent next

/-- The number of void elements that are written with a tag. -/
def voids : Forest → Nat
  | .nil => 0
  | .cons _ (.element e) below next => (if isVoid e then 1 else voids below) + voids next
  | .cons _ _ _ next => voids next

section Chunks

variable {raw silent : Bool} {l : Nat} {item : Item} {e : Element} {below next : Forest}

theorem chunks_of_not_isElement (h : item.isElement = false) :
    chunks raw silent (.cons l item below next) =
      itemChunks raw item ++ chunks raw silent next := by
  cases item with
  | element e => cases h
  | _ => rfl

theorem voids_of_not_isElement (h : item.isElement = false) :
    voids (.cons l item below next) = voids next := by
  cases item with
  | element e => cases h
  | _ => rfl

theorem chunks_silent : chunks raw true (.cons l (.element e) below next) =
    chunks (isRaw e) true below ++ chunks raw true next := rfl

theorem chunks_void (h : isVoid e = true) : chunks raw false (.cons l (.element e) below next) =
    .start e.name.toList (tagRest e) ::
      (chunks (isRaw e) true below ++ chunks raw false next) := by
  simp [chunks, h]

theorem chunks_element (h : isVoid e = false) :
    chunks raw false (.cons l (.element e) below next) =
      .start e.name.toList (tagRest e) ::
        (chunks (isRaw e) false below ++ .stop e.name.toList :: chunks raw false next) := by
  simp [chunks, h]

end Chunks

/-- **What is written is the text of the chunks.** -/
theorem render_chunks (raw silent : Bool) (f : Forest) :
    render (chunks raw silent f) = (write raw silent f).toList := by
  induction f generalizing raw silent with
  | nil => rfl
  | cons l item below next hbelow hnext =>
    cases item with
    | element e =>
      cases silent with
      | true => simp [chunks_silent, write, hbelow, hnext]
      | false =>
        by_cases hvoid : isVoid e = true
        · simp [chunks_void hvoid, write, hvoid, hbelow, hnext, toList_startTag]
        · rw [Bool.not_eq_true] at hvoid
          simp [chunks_element hvoid, write, hvoid, hbelow, hnext, toList_startTag, toList_endTag]
    | text s =>
      rw [chunks_of_not_isElement rfl, render_append, hnext, write, String.toList_append]
      congr 1
      cases raw with
      | true => exact render_textChunks none s.toList
      | false => simpa [escape, itemChunks] using render_map_escapeChunk s.toList
    | comment s =>
      rw [chunks_of_not_isElement rfl]
      simp [itemChunks, write, hnext, Chunk.render_comment]
    | doctype name =>
      rw [chunks_of_not_isElement rfl]
      simp [itemChunks, write, hnext, Chunk.render_doctype]
    | document =>
      rw [chunks_of_not_isElement rfl]
      simp [itemChunks, write, hnext]
    | contents =>
      rw [chunks_of_not_isElement rfl]
      simp [itemChunks, write, hnext]

/-! ### Soundness -/

/-- Whether what is written for an item is read as it is meant.  An escaped text always is. -/
def ItemReadable (raw silent : Bool) : Item → Prop
  | .element e =>
    silent = true ∨ IsTagName e.name.toList ∧ EndsTag none (e.name.toList ++ tagRest e)
  | .text s => raw = true → ∀ c ∈ textChunks none s.toList, c.Sound Page.Usable
  | .comment s => ¬ "-->".toList <:+: s.toList
  | .doctype name => '<' ∉ name.toList ∧ '>' ∉ name.toList ∧ name.toList.all isMarkupBlank = false
  | .document | .contents => True

instance (raw silent : Bool) (item : Item) : Decidable (ItemReadable raw silent item) :=
  match item with
  | .element _ => inferInstanceAs (Decidable (_ ∨ _))
  | .text _ => inferInstanceAs (Decidable (raw = true → ∀ _ ∈ _, _))
  | .comment _ => inferInstanceAs (Decidable (¬ _))
  | .doctype _ => inferInstanceAs (Decidable (_ ∧ _))
  | .document => .isTrue trivial
  | .contents => .isTrue trivial

/-- Whether what is written for a forest is read as it is meant. -/
def isReadable (raw silent : Bool) : Forest → Bool
  | .nil => true
  | .cons _ item below next =>
    let inner := match item with
      | .element e => isReadable (isRaw e) (silent || isVoid e) below
      | _ => true
    ItemReadable raw silent item && inner && isReadable raw silent next

theorem isReadable_cons {raw silent : Bool} {l : Nat} {item : Item} {below next : Forest} :
    isReadable raw silent (.cons l item below next) = true ↔
      ItemReadable raw silent item ∧
        (∀ e, item = .element e → isReadable (isRaw e) (silent || isVoid e) below = true) ∧
        isReadable raw silent next = true := by
  cases item <;> simp [isReadable, and_assoc]

theorem sound_escapeChunk (c : Char) : (escapeChunk c).Sound Page.Usable := by
  unfold escapeChunk
  split_ifs with hamp hspace hlt hgt
  · exact ⟨by decide, Or.inl (by decide)⟩
  · exact ⟨by decide, Or.inr (Or.inl rfl)⟩
  · exact ⟨by decide, Or.inl (by decide)⟩
  · exact ⟨by decide, Or.inl (by decide)⟩
  · exact ⟨hlt, hamp⟩

theorem sound_itemChunks {raw silent : Bool} {item : Item} (h : ItemReadable raw silent item) :
    ∀ c ∈ itemChunks raw item, c.Sound Page.Usable := by
  cases item with
  | text s =>
    cases raw with
    | true => exact h rfl
    | false => exact List.forall_mem_map.mpr fun c _ => sound_escapeChunk c
  | comment s => exact List.forall_mem_singleton.mpr h
  | doctype name => exact List.forall_mem_singleton.mpr h
  | _ => exact fun c hc => nomatch hc

/-- **The chunks are sound where what is written is read as it is meant.** -/
theorem sound_chunks {raw silent : Bool} {f : Forest} (h : isReadable raw silent f = true) :
    ∀ c ∈ chunks raw silent f, c.Sound Page.Usable := by
  induction f generalizing raw silent with
  | nil => exact fun c hc => nomatch hc
  | cons l item below next hbelow hnext =>
    obtain ⟨hitem, hinner, hrest⟩ := isReadable_cons.mp h
    cases item with
    | element e =>
      replace hinner := hbelow (hinner e rfl)
      cases silent with
      | true => exact List.forall_mem_append.mpr ⟨hinner, hnext hrest⟩
      | false =>
        obtain ⟨hname, hend⟩ := hitem.resolve_left Bool.false_ne_true
        have hstart : (Chunk.start e.name.toList (tagRest e)).Sound Page.Usable :=
          ⟨hname, isTagRest_tagRest e, hend⟩
        cases hvoid : isVoid e with
        | true =>
          rw [hvoid] at hinner
          rw [chunks_void hvoid, List.forall_mem_cons, List.forall_mem_append]
          exact ⟨hstart, hinner, hnext hrest⟩
        | false =>
          rw [hvoid] at hinner
          rw [chunks_element hvoid, List.forall_mem_cons, List.forall_mem_append,
            List.forall_mem_cons]
          exact ⟨hstart, hinner, hname, hnext hrest⟩
    | _ =>
      rw [chunks_of_not_isElement rfl, List.forall_mem_append]
      exact ⟨sound_itemChunks hitem, hnext hrest⟩

/-! ### Tags -/

/-- Chunks that are no tags. -/
def IsText (cs : List Chunk) : Prop := ∀ c ∈ cs, c.isStart = false ∧ c.isStop = false

theorem IsText.balanced_append_iff {t : List Chunk} (h : IsText t) {opened : List (List Char)}
    {cs : List Chunk} : TagsBalanced opened (t ++ cs) ↔ TagsBalanced opened cs := by
  induction t with
  | nil => rfl
  | cons c t ih =>
    obtain ⟨⟨hstart, hstop⟩, ht⟩ := List.forall_mem_cons.mp h
    rw [List.cons_append, balanced_cons_iff hstart hstop, ih ht]

theorem IsText.countP_isStart {t : List Chunk} (h : IsText t) : t.countP Chunk.isStart = 0 :=
  List.countP_eq_zero.mpr fun c hc => by simp [(h c hc).1]

theorem IsText.countP_isStop {t : List Chunk} (h : IsText t) : t.countP Chunk.isStop = 0 :=
  List.countP_eq_zero.mpr fun c hc => by simp [(h c hc).2]

theorem IsText.append {t u : List Chunk} (ht : IsText t) (hu : IsText u) : IsText (t ++ u) :=
  List.forall_mem_append.mpr ⟨ht, hu⟩

theorem isText_map_escapeChunk (s : List Char) : IsText (s.map escapeChunk) := by
  refine List.forall_mem_map.mpr fun c _ => ?_
  unfold escapeChunk
  split_ifs <;> exact ⟨rfl, rfl⟩

theorem isText_textChunks (open? : Option (List Char)) (s : List Char) :
    IsText (textChunks open? s) := by
  induction s generalizing open? with
  | nil =>
    cases open? with
    | none => simp [textChunks, IsText]
    | some n => simp [textChunks, IsText, Chunk.isStart, Chunk.isStop]
  | cons c s ih =>
    cases open? with
    | none =>
      rw [textChunks]
      split
      · exact ih _
      · exact List.forall_mem_cons.mpr ⟨⟨rfl, rfl⟩, ih _⟩
    | some n =>
      rw [textChunks]
      split
      · exact List.forall_mem_cons.mpr ⟨⟨rfl, rfl⟩, ih _⟩
      · exact ih _

/-- An item that is no element has no tags. -/
theorem isText_itemChunks (raw : Bool) (item : Item) : IsText (itemChunks raw item) := by
  cases item with
  | text s =>
    cases raw with
    | true => exact isText_textChunks none s.toList
    | false => exact isText_map_escapeChunk s.toList
  | _ => simp [IsText, itemChunks, Chunk.isStart, Chunk.isStop]

/-- Inside a void element no tags are written. -/
theorem isText_chunks_silent (raw : Bool) (f : Forest) : IsText (chunks raw true f) := by
  induction f generalizing raw with
  | nil => simp [chunks, IsText]
  | cons l item below next hbelow hnext =>
    cases item with
    | element e => exact (hbelow _).append (hnext raw)
    | _ =>
      rw [chunks_of_not_isElement rfl]
      exact (isText_itemChunks raw _).append (hnext raw)

/-- **Every start tag has its end tag, except those of void elements.** -/
theorem countP_isStart_chunks (raw : Bool) (f : Forest) :
    (chunks raw false f).countP Chunk.isStart =
      (chunks raw false f).countP Chunk.isStop + voids f := by
  induction f generalizing raw with
  | nil => rfl
  | cons l item below next hbelow hnext =>
    cases item with
    | element e =>
      cases hvoid : isVoid e with
      | true =>
        have hinner := isText_chunks_silent (isRaw e) below
        simp only [chunks_void hvoid, voids, hvoid, if_true, List.countP_cons, List.countP_append,
          Chunk.isStart, Chunk.isStop, hinner.countP_isStart, hinner.countP_isStop, hnext raw]
        simp only [Bool.false_eq_true, if_false]
        omega
      | false =>
        simp only [chunks_element hvoid, voids, hvoid, List.countP_cons, List.countP_append,
          Chunk.isStart, Chunk.isStop, hbelow (isRaw e), hnext raw]
        simp only [Bool.false_eq_true, if_false, if_true]
        omega
    | _ =>
      rw [chunks_of_not_isElement rfl, List.countP_append, List.countP_append,
        (isText_itemChunks raw _).countP_isStart, (isText_itemChunks raw _).countP_isStop,
        hnext raw, voids_of_not_isElement rfl, Nat.zero_add, Nat.zero_add]

/-- **Without void elements all tags are balanced.** -/
theorem balanced_chunks {f : Forest} (h : voids f = 0) (raw : Bool) {opened : List (List Char)}
    {cs : List Chunk} :
    TagsBalanced opened (chunks raw false f ++ cs) ↔ TagsBalanced opened cs := by
  induction f generalizing raw opened cs with
  | nil => rfl
  | cons l item below next hbelow hnext =>
    cases item with
    | element e =>
      rw [voids, Nat.add_eq_zero_iff] at h
      cases hvoid : isVoid e with
      | true => simp [hvoid] at h
      | false =>
        have hinner : voids below = 0 := by simpa [hvoid] using h.1
        rw [chunks_element hvoid, List.cons_append, List.append_assoc, TagsBalanced,
          hbelow hinner, List.cons_append]
        simp [TagsBalanced, hnext h.2]
    | _ =>
      rw [voids_of_not_isElement rfl] at h
      rw [chunks_of_not_isElement rfl, List.append_assoc,
        (isText_itemChunks raw _).balanced_append_iff, hnext h]

/-- **The written pages that are well formed after they are mended** have no void elements,
provided that what is written is read as it is meant and no licence comment begins in it. -/
theorem check_repair_write_iff {f : Forest} (hreadable : isReadable false false f = true)
    (hlicence : ¬ Page.licence <:+: (write false false f).toList) :
    check (Page.repair (write false false f).toList) = none ↔ voids f = 0 := by
  have hsound := sound_chunks hreadable
  rw [← render_chunks] at hlicence ⊢
  constructor
  · intro hcheck
    have hclosed := Page.countP_isStop_of_check_repair hsound hlicence hcheck
    have hcount := countP_isStart_chunks false f
    omega
  · intro hvoids
    have hbalanced : TagsBalanced [] (chunks false false f ++ []) :=
      (balanced_chunks hvoids false).mpr rfl
    rw [List.append_nil] at hbalanced
    exact Page.check_repair_eq_none hsound hlicence hbalanced

end BindingDocs.Html
