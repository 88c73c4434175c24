import BindingDocs.Markup.WellFormed
import BindingDocs.Proofs.Markup.References
import BindingDocs.Proofs.Text.Search
import Mathlib.Data.List.Infix

/-!
# Pages in chunks

A page that was put together from characters, references, tags, comments and document types is read
in the same chunks, provided that each of them is sound: it can be read, and it ends where it was
meant to end.  Such a page is well formed exactly when its tags are balanced.

The reader takes all characters and references between two pieces of markup as one text.  So the
proof goes through the chunks with a text still pending, whose references are all known.

## Main definitions

* `Chunk`, `render` — a page in chunks, and its text.
* `Chunk.Sound` — chunks that are read as they are meant.
* `TagsBalanced` — every end tag has the name of the innermost open tag, and none stays open.

## Main results

* `check_render_iff` — **the well-formed pages in sound chunks.**
-/

namespace BindingDocs.Markup

open Text

/-! ### Chunks -/

/-- A piece of a page. -/
inductive Chunk where
  /-- A character that stands for itself. -/
  | char (c : Char)
  /-- A reference with this name. -/
  | ref (name : List Char)
  /-- A start tag: its name, and what follows up to the end of the tag. -/
  | start (name rest : List Char)
  /-- An end tag. -/
  | stop (name : List Char)
  | comment (text : List Char)
  | doctype (name : List Char)
deriving DecidableEq, Repr

/-- The text of a chunk. -/
def Chunk.render : Chunk → List Char
  | .char c => [c]
  | .ref name => '&' :: (name ++ [';'])
  | .start name rest => '<' :: (name ++ (rest ++ ['>']))
  | .stop name => '<' :: '/' :: (name ++ ['>'])
  | .comment text => "<!--".toList ++ (text ++ "-->".toList)
  | .doctype name => "<!DOCTYPE ".toList ++ (name ++ ['>'])

namespace Chunk

@[simp] theorem render_char (c : Char) : (char c).render = [c] := rfl

@[simp] theorem render_ref (n : List Char) : (ref n).render = '&' :: (n ++ [';']) := rfl

@[simp] theorem render_start (n r : List Char) :
    (start n r).render = '<' :: (n ++ (r ++ ['>'])) := rfl

@[simp] theorem render_stop (n : List Char) : (stop n).render = '<' :: '/' :: (n ++ ['>']) := rfl

theorem render_comment (t : List Char) :
    (comment t).render = '<' :: ("!--".toList ++ (t ++ "-->".toList)) := rfl

theorem render_doctype (n : List Char) :
    (doctype n).render = '<' :: ("!DOCTYPE ".toList ++ (n ++ ['>'])) := rfl

end Chunk

/-- The text of a page. -/
def render (cs : List Chunk) : List Char := cs.flatMap Chunk.render

@[simp] theorem render_nil : render [] = [] := rfl

@[simp] theorem render_cons (c : Chunk) (cs : List Chunk) :
    render (c :: cs) = c.render ++ render cs := rfl

@[simp] theorem render_append (a b : List Chunk) : render (a ++ b) = render a ++ render b :=
  List.flatMap_append

/-- Every end tag has the name of the innermost open tag, and in the end no tag is open. -/
def TagsBalanced : (opened : List (List Char)) → List Chunk → Prop
  | opened, [] => opened = []
  | opened, .start name _ :: cs => TagsBalanced (name :: opened) cs
  | opened, .stop name :: cs => ∃ outer, opened = name :: outer ∧ TagsBalanced outer cs
  | opened, _ :: cs => TagsBalanced opened cs

/-! ### Sound chunks -/

/-- No angle bracket closes the tag before its end, where all quotes are closed. -/
def EndsTag : (quote : Option Char) → List Char → Prop
  | none, [] => True
  | some _, [] => False
  | none, c :: s => c ≠ '>' ∧ EndsTag (if c = '"' ∨ c = Char.ofNat 39 then some c else none) s
  | some q, c :: s => EndsTag (if c = q then none else some q) s

/-- The name of a tag.  The first character tells it from other markup. -/
def IsTagName (n : List Char) : Prop :=
  n ≠ [] ∧ n.head? ≠ some '!' ∧ n.head? ≠ some '?' ∧
    (∀ c ∈ n, isMarkupBlank c = false ∧ c ≠ '/') ∧ EndsTag none n

/-- What stands between the name and the end of a start tag: nothing, or attributes with values. -/
def IsTagRest (rest : List Char) : Prop := rest = [] ∨ ∃ r, rest = ' ' :: (r ++ ['"'])

theorem isTagRest_iff {rest : List Char} :
    IsTagRest rest ↔ rest = [] ∨ rest.head? = some ' ' ∧ rest.tail.getLast? = some '"' := by
  cases rest with
  | nil => simp [IsTagRest]
  | cons c rest => simp [IsTagRest, List.getLast?_eq_some_iff]

/-- A name that can stand between an ampersand and a semicolon. -/
def IsReferenceName (n : List Char) : Prop := ∀ c ∈ n, c ≠ '&' ∧ c ≠ ';' ∧ c ≠ '<'

/-- A reference that strict markup knows. -/
def Known (n : List Char) : Prop := checkReference 0 0 n = none

/-- Chunks that are read as they are meant; `P` holds of the references that may be used. -/
def Chunk.Sound (P : List Char → Prop) : Chunk → Prop
  | .char c => c ≠ '<' ∧ c ≠ '&'
  | .ref name => IsReferenceName name ∧ P name
  | .start name rest => IsTagName name ∧ IsTagRest rest ∧ EndsTag none (name ++ rest)
  | .stop name => IsTagName name
  | .comment text => ¬ "-->".toList <:+: text
  | .doctype name => '<' ∉ name ∧ '>' ∉ name ∧ name.all isMarkupBlank = false

instance (quote : Option Char) (s : List Char) : Decidable (EndsTag quote s) :=
  decidableEndsTag quote s
where
  decidableEndsTag : (quote : Option Char) → (s : List Char) → Decidable (EndsTag quote s)
    | none, [] => .isTrue trivial
    | some _, [] => .isFalse id
    | none, _ :: s => @instDecidableAnd _ _ inferInstance (decidableEndsTag _ s)
    | some _, _ :: s => decidableEndsTag _ s

-- the characters of a name are checked, not all characters that there are
instance (n : List Char) : Decidable (IsTagName n) :=
  haveI := List.decidableBAll (fun c => isMarkupBlank c = false ∧ c ≠ '/') n
  inferInstanceAs (Decidable (_ ∧ _ ∧ _ ∧ _ ∧ _))

instance (rest : List Char) : Decidable (IsTagRest rest) := decidable_of_iff _ isTagRest_iff.symm

instance (n : List Char) : Decidable (IsReferenceName n) := List.decidableBAll _ n

instance : DecidablePred Known := fun n => inferInstanceAs (Decidable (checkReference 0 0 n = none))

instance (P : List Char → Prop) [DecidablePred P] (c : Chunk) : Decidable (c.Sound P) :=
  match c with
  | .char _ => inferInstanceAs (Decidable (_ ∧ _))
  | .ref _ => inferInstanceAs (Decidable (_ ∧ _))
  | .start _ _ => inferInstanceAs (Decidable (_ ∧ _))
  | .stop n => inferInstanceAs (Decidable (IsTagName n))
  | .comment _ => inferInstanceAs (Decidable (¬ _))
  | .doctype _ => inferInstanceAs (Decidable (_ ∧ _))

/-- A tag goes on after a part of it in which all quotes are closed. -/
theorem EndsTag.append {quote : Option Char} {u s : List Char} (hu : EndsTag quote u)
    (hs : EndsTag none s) : EndsTag quote (u ++ s) := by
  induction u generalizing quote with
  | nil =>
    cases quote with
    | none => exact hs
    | some q => exact absurd hu id
  | cons c u ih =>
    cases quote with
    | none => exact ⟨hu.1, ih hu.2⟩
    | some q => exact ih hu

/-- A quote is closed by the next quotation mark of its kind. -/
theorem endsTag_quoted {q : Char} {v s : List Char} (hv : q ∉ v) (hs : EndsTag none s) :
    EndsTag (some q) (v ++ q :: s) := by
  induction v with
  | nil =>
    rw [List.nil_append, EndsTag, if_pos rfl]
    exact hs
  | cons c v ih =>
    rw [List.mem_cons, not_or] at hv
    rw [List.cons_append, EndsTag, if_neg (Ne.symm hv.1)]
    exact ih hv.2

/-! ### Reading a chunk -/

section Read

variable {body rest : List Char}

/-- A tag is cut where it ends. -/
theorem cutTag_of_endsTag {quote : Option Char} (h : EndsTag quote body) (before : List Char) :
    cutTag quote before (body ++ '>' :: rest) = some (before.reverse ++ body, rest) := by
  induction body generalizing quote before with
  | nil =>
    cases quote with
    | none => simp [cutTag]
    | some q => exact absurd h id
  | cons c body ih =>
    cases quote with
    | none =>
      rw [List.cons_append, cutTag, if_neg h.1, ih h.2]
      simp
    | some q =>
      rw [List.cons_append, cutTag, ih h]
      simp

theorem stopName_of_isTagName {n : List Char} (h : IsTagName n) : stopName n = n := by
  obtain ⟨hne, -, -, hchars, -⟩ := h
  obtain ⟨init, c, rfl⟩ := List.eq_nil_or_concat n |>.resolve_left hne
  have hlast : isMarkupBlank c = false := (hchars c (by simp)).1
  simp [stopName, trimEndBy, hlast]

theorem readStart_of_sound {name : List Char} (hname : IsTagName name) (hrest : IsTagRest rest) :
    readStart (name ++ rest) = .start name := by
  obtain ⟨hne, -, -, hchars, -⟩ := hname
  have hslash : (name ++ rest).getLast? ≠ some '/' := by
    rcases hrest with rfl | ⟨r, rfl⟩
    · rw [List.append_nil]
      exact fun h => (hchars _ (List.mem_of_getLast? h)).2 rfl
    · rw [← List.cons_append, ← List.append_assoc, List.getLast?_concat]
      decide
  have htake : rest.takeWhile (!isMarkupBlank ·) = [] := by
    rcases hrest with rfl | ⟨r, rfl⟩ <;> rfl
  rw [readStart, if_neg hslash, List.takeWhile_append_of_pos, htake, List.append_nil]
  intro c hc
  simp [(hchars c hc).1]

/-- A piece of markup is cut at the first bracket that the condition accepts. -/
theorem cutAt_append {ok : List Char → Bool} {before : List Char}
    (hbody : ∀ a b, body = a ++ '>' :: b → ok (a.reverse ++ before) = false)
    (hend : ok (body.reverse ++ before) = true) :
    cutAt ok before (body ++ '>' :: rest) = some (before.reverse ++ body, rest) := by
  induction body generalizing before with
  | nil =>
    simp only [List.reverse_nil, List.nil_append] at hend
    simp [cutAt, hend]
  | cons c body ih =>
    have hc : ¬ (c = '>' ∧ ok before = true) := by
      rintro ⟨rfl, hok⟩
      simpa [hok] using hbody [] body rfl
    rw [List.cons_append, cutAt, if_neg hc, ih]
    · simp
    · rintro a b rfl
      simpa using hbody (c :: a) b rfl
    · simpa using hend

theorem readDeclaration_of_hyphen {s body : List Char}
    (h : cutAt (fun b => b.length > 4 && beginsWith ['-', '-'] b) [] ('!' :: '-' :: s) =
      some (body, rest)) :
    readDeclaration ('!' :: '-' :: s) =
      (if beginsWith "!--".toList body then .ok .other else .error .openComment, some rest) := by
  simp only [readDeclaration, h]

theorem readDeclaration_comment {text : List Char} (h : ¬ "-->".toList <:+: text) :
    readDeclaration ("!--".toList ++ (text ++ ("-->".toList ++ rest))) =
      (.ok .other, some rest) := by
  have hcut : cutAt (fun b => b.length > 4 && beginsWith ['-', '-'] b) []
      (("!--".toList ++ (text ++ "--".toList)) ++ '>' :: rest) =
        some ("!--".toList ++ (text ++ "--".toList), rest) := by
    refine cutAt_append ?_ (by simp [beginsWith, after?])
    intro a b hab
    -- a bracket in the text; two hyphens before it would end the comment there
    obtain ⟨a', rfl, ha'⟩ := append_cons_eq_append (by decide) hab
    obtain ⟨c, htext⟩ : ∃ c, text = a' ++ '>' :: c := by
      rcases List.append_eq_append_iff.mp ha' with ⟨c, -, hc⟩ | ⟨c, rfl, hc⟩
      · have hmem : '>' ∈ "--".toList := by simp [hc]
        exact absurd hmem (by decide)
      · cases c with
        | nil => simp at hc
        | cons d c =>
          obtain ⟨rfl, -⟩ := List.cons.inj hc
          exact ⟨c, rfl⟩
    by_contra hend
    simp only [List.append_nil, List.reverse_append, List.length_append, List.length_reverse,
      Bool.not_eq_false, Bool.and_eq_true, decide_eq_true_eq] at hend
    obtain ⟨hlength, hhyphens⟩ := hend
    rcases hrev : a'.reverse with _ | ⟨x, _ | ⟨y, r⟩⟩
    · simp [List.reverse_eq_nil_iff.mp hrev] at hlength
    · have hone := congrArg List.length hrev
      simp only [List.length_reverse, List.length_singleton] at hone
      simp [hone] at hlength
    · rw [hrev, beginsWith_iff_isPrefix, List.cons_append, List.cons_append,
        List.cons_prefix_cons, List.cons_prefix_cons] at hhyphens
      obtain ⟨rfl, rfl, -⟩ := hhyphens
      have ha : a' = r.reverse ++ ['-', '-'] := by
        rw [← List.reverse_reverse a', hrev]
        simp
      exact h ⟨r.reverse, c, by simp [htext, ha]⟩
  have hbody : beginsWith "!--".toList ("!--".toList ++ (text ++ "--".toList)) = true :=
    beginsWith_iff_isPrefix.mpr ⟨_, rfl⟩
  have hsplit : "!--".toList ++ (text ++ ("-->".toList ++ rest)) =
      ("!--".toList ++ (text ++ "--".toList)) ++ '>' :: rest := by simp
  rw [hsplit]
  refine (readDeclaration_of_hyphen hcut).trans ?_
  rw [if_pos hbody]

theorem readDeclaration_of_letter {c : Char} {s body : List Char} (hhyphen : c ≠ '-')
    (hbracket : c ≠ '[') (h : cutAt isBalanced [] ('!' :: c :: s) = some (body, rest)) :
    readDeclaration ('!' :: c :: s) =
      (if (body.take 8).map Char.toUpper = "!DOCTYPE".toList then
          if (body.drop 8).all isMarkupBlank then .error .doctypeWithoutName else .ok .other
        else .error .openDoctype, some rest) := by
  unfold readDeclaration
  split
  · next heq => exact absurd (List.cons.inj (List.cons.inj heq).2).1 hhyphen
  · next heq => exact absurd (List.cons.inj (List.cons.inj heq).2).1 hbracket
  · rw [h]

theorem readDeclaration_doctype {name : List Char} (hopen : '<' ∉ name) (hclose : '>' ∉ name)
    (hblank : name.all isMarkupBlank = false) :
    readDeclaration ("!DOCTYPE ".toList ++ (name ++ '>' :: rest)) = (.ok .other, some rest) := by
  have hcut : cutAt isBalanced [] (("!DOCTYPE ".toList ++ name) ++ '>' :: rest) =
      some ("!DOCTYPE ".toList ++ name, rest) := by
    refine cutAt_append ?_ ?_
    · intro a b hab
      obtain ⟨a', -, rfl⟩ := append_cons_eq_append (by decide) hab
      simp at hclose
    · simp [isBalanced, List.count_eq_zero_of_not_mem, hopen, hclose]
  rw [← List.append_assoc]
  refine (readDeclaration_of_letter (by decide) (by decide) hcut).trans ?_
  have htake : (("!DOCTYPE ".toList ++ name).take 8).map Char.toUpper = "!DOCTYPE".toList := by
    simp
  have hdrop : (("!DOCTYPE ".toList ++ name).drop 8).all isMarkupBlank = false := by
    simpa [isMarkupBlank] using hblank
  simp only [htake, hdrop, if_true, Bool.false_eq_true, if_false]

end Read

/-! ### References in texts -/

theorem known_iff_isReference {n : List Char} : Known n ↔ IsReference n :=
  checkReference_eq_none_iff

theorem referenced_ref {n : List Char} (h : IsReferenceName n) (hknown : Known n) :
    Referenced (Chunk.ref n).render :=
  .reference (fun c hc => ⟨(h c hc).1, (h c hc).2.1⟩) (known_iff_isReference.mp hknown) .nil

/-! ### Reading a page -/

/-- A text that is still pending is read before the markup that follows it. -/
theorem checkEvents_pending {t u : List Char} (ht : Referenced t) (hopen : '<' ∉ t)
    (hu : u = [] ∨ u.head? = some '<') (total : Nat) {fuel : Nat} (opened : List (List Char))
    (hfuel : (t ++ u).length < fuel) :
    ∃ fuel', u.length < fuel' ∧ checkEvents opened (eventsFrom total fuel opened (t ++ u)) =
      checkEvents opened (eventsFrom total fuel' opened u) := by
  cases t with
  | nil => exact ⟨fuel, hfuel, rfl⟩
  | cons c t =>
    obtain ⟨fuel, rfl⟩ : ∃ n, fuel = n + 1 := Nat.exists_eq_succ_of_ne_zero (by omega)
    refine ⟨fuel, ?_, ?_⟩
    · simp only [List.length_append, List.length_cons] at hfuel
      omega
    · have hc : c ≠ '<' := fun h => hopen (h ▸ List.mem_cons_self)
      have hrest : u.takeWhile (· != '<') = [] ∧ u.dropWhile (· != '<') = u := by
        rcases hu with rfl | hu
        · exact ⟨rfl, rfl⟩
        · obtain ⟨r, rfl⟩ := List.head?_eq_some_iff.mp hu
          simp
      have hall : ∀ d ∈ c :: t, (d != '<') = true := by
        intro d hd
        simpa using fun h : d = '<' => hopen (h ▸ hd)
      have hread : eventsFrom total (fuel + 1) opened (c :: t ++ u) =
          .text (total - Text.size (c :: t ++ u)) ((c :: t ++ u).takeWhile (· != '<')) ::
            eventsFrom total fuel opened ((c :: t ++ u).dropWhile (· != '<')) := by
        rw [List.cons_append, eventsFrom]
        · exact List.cons_ne_nil _ _
        · exact fun s hs => hc (List.cons.inj hs).1
      rw [hread, List.takeWhile_append_of_pos hall, List.dropWhile_append_of_pos hall, hrest.1,
        hrest.2, List.append_nil, checkEvents, checkText_eq_none_iff.mpr ht]

/-- A piece of markup is read after the text that is pending, and then what comes after it. -/
theorem checkEvents_markup {t s rest : List Char} {event : Event} {opened : List (List Char)}
    (ht : Referenced t) (hopen : '<' ∉ t) (hbang : s.head? = some '!' → isDeclaration s = true)
    (hread : readMarkup opened s = (.ok event, some rest)) (hrest : rest.length ≤ s.length)
    (total : Nat) {fuel : Nat} (hfuel : (t ++ '<' :: s).length < fuel) :
    ∃ fuel', rest.length < fuel' ∧
      checkEvents opened (eventsFrom total fuel opened (t ++ '<' :: s)) =
        checkEvents opened (event :: eventsFrom total fuel' (event.track opened) rest) := by
  obtain ⟨fuel', hfuel', heq⟩ := checkEvents_pending ht hopen (Or.inr rfl) total opened hfuel
  rw [List.length_cons] at hfuel'
  obtain ⟨fuel', rfl⟩ : ∃ n, fuel' = n + 1 := Nat.exists_eq_succ_of_ne_zero (by omega)
  have hno : ¬ (s.head? = some '!' ∧ isDeclaration s = false) := by
    rintro ⟨hhead, hdecl⟩
    simp [hbang hhead] at hdecl
  refine ⟨fuel', by omega, ?_⟩
  rw [heq, eventsFrom, if_neg hno, hread]

/-- A piece of markup with a fault ends the reading. -/
theorem checkEvents_fault {t s : List Char} {cause : MarkupFault} {rest : Option (List Char)}
    {opened : List (List Char)} (ht : Referenced t) (hopen : '<' ∉ t)
    (hbang : s.head? = some '!' → isDeclaration s = true)
    (hread : readMarkup opened s = (.error cause, rest)) (total : Nat) {fuel : Nat}
    (hfuel : (t ++ '<' :: s).length < fuel) :
    checkEvents opened (eventsFrom total fuel opened (t ++ '<' :: s)) ≠ none := by
  obtain ⟨fuel', hfuel', heq⟩ := checkEvents_pending ht hopen (Or.inr rfl) total opened hfuel
  obtain ⟨fuel', rfl⟩ : ∃ n, fuel' = n + 1 := Nat.exists_eq_succ_of_ne_zero (by omega)
  have hno : ¬ (s.head? = some '!' ∧ isDeclaration s = false) := by
    rintro ⟨hhead, hdecl⟩
    simp [hbang hhead] at hdecl
  rw [heq, eventsFrom, if_neg hno, hread]
  simp [checkEvents]

theorem readMarkup_comment {text rest : List Char} (h : ¬ "-->".toList <:+: text)
    (opened : List (List Char)) :
    readMarkup opened ("!--".toList ++ (text ++ ("-->".toList ++ rest))) =
      (.ok .other, some rest) := readDeclaration_comment h

theorem readMarkup_doctype {name rest : List Char} (hopen : '<' ∉ name) (hclose : '>' ∉ name)
    (hblank : name.all isMarkupBlank = false) (opened : List (List Char)) :
    readMarkup opened ("!DOCTYPE ".toList ++ (name ++ '>' :: rest)) = (.ok .other, some rest) :=
  readDeclaration_doctype hopen hclose hblank

theorem readMarkup_start {n r u : List Char} (hname : IsTagName n) (hrest : IsTagRest r)
    (hend : EndsTag none (n ++ r)) (opened : List (List Char)) :
    readMarkup opened (n ++ (r ++ '>' :: u)) = (.ok (.start n), some u) := by
  have hcut : cutTag none [] (n ++ (r ++ '>' :: u)) = some (n ++ r, u) := by
    rw [← List.append_assoc]
    exact cutTag_of_endsTag hend []
  obtain ⟨hne, hbang, hquestion, hchars, -⟩ := id hname
  have hslash : n.head? ≠ some '/' := fun h => (hchars _ (List.mem_of_mem_head? h)).2 rfl
  have hhead (c : Char) (h : n.head? ≠ some c) (s : List Char) : n ++ (r ++ '>' :: u) ≠ c :: s := by
    intro heq
    have hhead := congrArg List.head? heq
    rw [List.head?_append_of_ne_nil _ hne] at hhead
    exact h hhead
  unfold readMarkup
  split
  · next s hs => exact absurd hs (hhead '!' hbang s)
  · next s hs => exact absurd hs (hhead '/' hslash s)
  · next s hs => exact absurd hs (hhead '?' hquestion s)
  · rw [hcut]
    simp only [readStart_of_sound hname hrest]

theorem readMarkup_stop {n u : List Char} (hname : IsTagName n) (opened : List (List Char)) :
    readMarkup opened ('/' :: (n ++ '>' :: u)) = (readStop opened n, some u) := by
  have hcut : cutTag none [] (n ++ '>' :: u) = some ([].reverse ++ n, u) :=
    cutTag_of_endsTag hname.2.2.2.2 []
  simp only [readMarkup, hcut, List.reverse_nil, List.nil_append, stopName_of_isTagName hname]

/-- Chunks after a pending text have no defect exactly when their tags are balanced. -/
theorem checkEvents_render {cs : List Chunk} (hcs : ∀ c ∈ cs, c.Sound Known) {t : List Char}
    (ht : Referenced t) (hopen : '<' ∉ t) {total fuel : Nat} {opened : List (List Char)}
    (hfuel : (t ++ render cs).length < fuel) :
    checkEvents opened (eventsFrom total fuel opened (t ++ render cs)) = none ↔
      TagsBalanced opened cs := by
  induction cs generalizing t fuel opened with
  | nil =>
    obtain ⟨fuel', hfuel', heq⟩ := checkEvents_pending ht hopen (Or.inl rfl) total opened hfuel
    obtain ⟨fuel', rfl⟩ : ∃ n, fuel' = n + 1 := Nat.exists_eq_succ_of_ne_zero (by omega)
    rw [render_nil, heq, eventsFrom]
    cases opened <;> simp [checkEvents, TagsBalanced]
  | cons c cs ih =>
    have hc := hcs c List.mem_cons_self
    replace ih := fun {t} ht hopen {fuel opened} hfuel =>
      @ih (fun c hc => hcs c (List.mem_cons_of_mem _ hc)) t ht hopen fuel opened hfuel
    rw [render_cons, ← List.append_assoc] at hfuel ⊢
    cases c with
    | char c =>
      -- the character is pending as well
      exact ih (ht.append (.char hc.2 .nil)) (by simp [hopen, hc.1.symm]) hfuel
    | ref n =>
      have hname : '<' ∉ (Chunk.ref n).render := by
        rw [Chunk.render_ref]
        simpa using fun hmem => (hc.1 _ hmem).2.2 rfl
      exact ih (ht.append (referenced_ref hc.1 hc.2)) (by simpa [hopen] using hname) hfuel
    | start n r =>
      obtain ⟨hname, hrest, hend⟩ := hc
      have hsplit : t ++ (Chunk.start n r).render ++ render cs =
          t ++ '<' :: (n ++ (r ++ '>' :: render cs)) := by simp
      have hbang : (n ++ (r ++ '>' :: render cs)).head? ≠ some '!' := by
        rw [List.head?_append_of_ne_nil _ hname.1]
        exact hname.2.1
      rw [hsplit] at hfuel ⊢
      obtain ⟨fuel', hfuel', heq⟩ := checkEvents_markup ht hopen (fun h => absurd h hbang)
        (readMarkup_start hname hrest hend opened) (by simp; omega) total hfuel
      rw [heq, checkEvents, TagsBalanced]
      exact ih .nil List.not_mem_nil hfuel'
    | stop n =>
      have hsplit : t ++ (Chunk.stop n).render ++ render cs =
          t ++ '<' :: '/' :: (n ++ '>' :: render cs) := by simp
      rw [hsplit] at hfuel ⊢
      by_cases htop : opened.head? = some n
      · obtain ⟨outer, rfl⟩ := List.head?_eq_some_iff.mp htop
        have hread : readMarkup (n :: outer) ('/' :: (n ++ '>' :: render cs)) =
            (.ok (.stop n), some (render cs)) := by
          rw [readMarkup_stop hc, readStop, if_pos rfl]
        obtain ⟨fuel', hfuel', heq⟩ := checkEvents_markup ht hopen (by simp) hread
          (by simp; omega) total hfuel
        have houter : checkEvents outer (eventsFrom total fuel' outer ([] ++ render cs)) = none ↔
            TagsBalanced outer cs := ih .nil List.not_mem_nil hfuel'
        rw [heq, checkEvents, TagsBalanced]
        simpa [Event.track] using houter
      · -- another tag is open, or none
        obtain ⟨cause, hcause⟩ : ∃ cause, readStop opened n = .error cause := by
          cases opened with
          | nil => exact ⟨_, rfl⟩
          | cons top outer => exact ⟨_, if_neg fun h => htop (by rw [h]; rfl)⟩
        have hfault := checkEvents_fault ht hopen (by simp)
          (show readMarkup opened _ = (.error cause, some (render cs)) by
            rw [readMarkup_stop hc, hcause]) total hfuel
        rw [TagsBalanced]
        constructor
        · exact fun h => absurd h hfault
        · rintro ⟨outer, rfl, -⟩
          exact absurd rfl htop
    | comment u =>
      have hsplit : t ++ (Chunk.comment u).render ++ render cs =
          t ++ '<' :: ("!--".toList ++ (u ++ ("-->".toList ++ render cs))) := by
        rw [Chunk.render_comment]
        simp
      rw [hsplit] at hfuel ⊢
      obtain ⟨fuel', hfuel', heq⟩ := checkEvents_markup ht hopen (fun _ => rfl)
        (readMarkup_comment hc opened) (by simp; omega) total hfuel
      rw [heq, checkEvents, TagsBalanced]
      · exact ih .nil List.not_mem_nil hfuel'
      all_goals simp
    | doctype n =>
      obtain ⟨hlt, hgt, hblank⟩ := hc
      have hsplit : t ++ (Chunk.doctype n).render ++ render cs =
          t ++ '<' :: ("!DOCTYPE ".toList ++ (n ++ '>' :: render cs)) := by
        rw [Chunk.render_doctype]
        simp
      rw [hsplit] at hfuel ⊢
      obtain ⟨fuel', hfuel', heq⟩ := checkEvents_markup ht hopen (fun _ => rfl)
        (readMarkup_doctype hlt hgt hblank opened) (by simp; omega) total hfuel
      rw [heq, checkEvents, TagsBalanced]
      · exact ih .nil List.not_mem_nil hfuel'
      all_goals simp

/-- The byte order mark is a character like others. -/
theorem exists_withoutMark {P : List Char → Prop} {cs : List Chunk} (hcs : ∀ c ∈ cs, c.Sound P) :
    ∃ cs', withoutMark (render cs) = render cs' ∧ (∀ c ∈ cs', c.Sound P) ∧
      (TagsBalanced [] cs' ↔ TagsBalanced [] cs) := by
  rcases cs with _ | ⟨c, cs⟩
  · exact ⟨[], rfl, hcs, Iff.rfl⟩
  · cases c with
    | char c =>
      by_cases hmark : c.toNat = 0xFEFF
      · exact ⟨cs, if_pos hmark, fun d hd => hcs d (List.mem_cons_of_mem _ hd), Iff.rfl⟩
      · exact ⟨.char c :: cs, if_neg hmark, hcs, Iff.rfl⟩
    | _ => exact ⟨_, rfl, hcs, Iff.rfl⟩

/-- **The well-formed pages in sound chunks** are those whose tags are balanced. -/
theorem check_render_iff {cs : List Chunk} (hcs : ∀ c ∈ cs, c.Sound Known) :
    check (render cs) = none ↔ TagsBalanced [] cs := by
  obtain ⟨cs', hrender, hcs', hbalanced⟩ := exists_withoutMark hcs
  rw [check, events, hrender, ← hbalanced]
  exact checkEvents_render hcs' .nil List.not_mem_nil (Nat.lt_succ_self _)

/-! ### Counting tags -/

namespace Chunk

def isStart : Chunk → Bool
  | .start _ _ => true
  | _ => false

def isStop : Chunk → Bool
  | .stop _ => true
  | _ => false

end Chunk

/-- Only tags count. -/
theorem balanced_cons_iff {c : Chunk} (hstart : c.isStart = false) (hstop : c.isStop = false)
    {opened : List (List Char)} {cs : List Chunk} :
    TagsBalanced opened (c :: cs) ↔ TagsBalanced opened cs := by
  cases c with
  | start n r => cases hstart
  | stop n => cases hstop
  | _ => rfl

/-- Every tag is closed once. -/
theorem TagsBalanced.countP_isStop {opened : List (List Char)} {cs : List Chunk}
    (h : TagsBalanced opened cs) :
    cs.countP Chunk.isStop = opened.length + cs.countP Chunk.isStart := by
  induction cs generalizing opened with
  | nil =>
    cases h
    rfl
  | cons c cs ih =>
    cases c with
    | start n r =>
      have hrest := ih h
      simp only [List.countP_cons, Chunk.isStop, Chunk.isStart, List.length_cons] at hrest ⊢
      simp only [Bool.false_eq_true, if_false, if_true]
      omega
    | stop n =>
      obtain ⟨outer, rfl, houter⟩ := h
      have hrest := ih houter
      simp only [List.countP_cons, Chunk.isStop, Chunk.isStart, List.length_cons] at hrest ⊢
      simp only [Bool.false_eq_true, if_false, if_true]
      omega
    | _ => simpa [List.countP_cons, Chunk.isStop, Chunk.isStart] using ih h

end BindingDocs.Markup
