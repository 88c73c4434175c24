import BindingDocs.Header
import BindingDocs.Proofs.Scan.Capture
import BindingDocs.Proofs.Scan.Transition
import Mathlib.Control.Monad.Basic

/-!
# The comment stream is a sequence of closed blocks

In the dialects with block comments a line inside a comment holds no end of comment, or it would
close the comment.  What such a line writes is made of parts of the line, names and fixed texts, and
no seam between them makes an end of comment either.  So a block of the comment stream is closed by
its own closing and by nothing before it, and the text of the main page stays inside the comment
that is put around it.

## Main definitions

* `Sealed` — a fragment that ends its line and does not close a comment.
* `blockFragments` — the fragments of one block.

## Main results

* `sealed_of_tagTransition` — the texts written inside a comment.
* `closesBlocks_of_transition` — the blocks stay in order with every line.
* `end_of_block` — every end of comment in a sequence of blocks is the end of a block.
* `blocks_of_scan` — the comment stream and the main page of a file.
-/

namespace BindingDocs.Scan

open Text

/-! ### Fragments -/

/-- The text ends its line and no comment ends inside it. -/
def Sealed (s : List Char) : Prop := s.getLast? = some '\n' ∧ StaysOpen s

instance (s : List Char) : Decidable (Sealed s) := inferInstanceAs (Decidable (_ ∧ _))

/-- Whatever text follows, no comment ends where it begins. -/
def LeadsOn (s : List Char) : Prop := s.getLast? ≠ some '*' ∧ StaysOpen s

instance (s : List Char) : Decidable (LeadsOn s) := inferInstanceAs (Decidable (_ ∧ _))

/-- A text that stays open may stand between a fixed text that leads on and a sealed one that does
not begin with a slash. -/
theorem sealed_between {before text after : List Char} (hbefore : LeadsOn before)
    (htext : StaysOpen text) (hhead : after.head? ≠ some '/') (hafter : Sealed after) :
    Sealed (before ++ (text ++ after)) := by
  refine ⟨?_, ?_⟩
  · simp [List.getLast?_append, hafter.1]
  · have hrest := staysOpen_append_of_right hhead htext hafter.2
    exact staysOpen_append_of_left hbefore.1 hbefore.2 hrest

/-- A line of a file is sealed by its line end. -/
theorem sealed_asFragment {line : List Char} (h : StaysOpen line) :
    Sealed (asFragment line).toList := by
  simp only [asFragment, String.toList_append, String.toList_ofList]
  exact ⟨by simp, staysOpen_append_of_right (by decide) h (by decide)⟩

-- The texts are opened with `delta`: an equation lemma would have the fixed texts evaluated.

theorem sealed_geometry {body : String} (h : StaysOpen body.toList) :
    Sealed (Declaration.geometry body).toList := by
  delta Declaration.geometry
  simp only [String.toList_append, List.append_assoc]
  exact sealed_between (by decide +kernel) h (by decide +kernel) (by decide +kernel)

theorem sealed_description {text : String} (h : StaysOpen text.toList) :
    Sealed (Declaration.description text).toList := by
  delta Declaration.description
  simp only [String.toList_append, List.append_assoc]
  exact sealed_between (by decide +kernel) h (by decide +kernel) (by decide +kernel)

theorem sealed_classTarget {name : String} (h : IsName name) :
    Sealed (Declaration.classTarget name).toList := by
  delta Declaration.classTarget
  simp only [String.toList_append, List.append_assoc]
  exact sealed_between (by decide +kernel) h.staysOpen (by decide +kernel) (by decide +kernel)

theorem sealed_markerTarget {name : String} (h : IsName name) :
    Sealed (Declaration.markerTarget name).toList := by
  delta Declaration.markerTarget
  simp only [String.toList_append, List.append_assoc]
  exact sealed_between (by decide +kernel) h.staysOpen (by decide +kernel) (by decide +kernel)

section Signature

variable {line : List Char} {sig : Signature}

/-- The line that attaches a comment to a function is sealed if the two parts that may be any text
stay open. -/
theorem sealed_target (h : sig.PartsOf line) (hmethod : StaysOpen sig.method.toList)
    (harguments : StaysOpen sig.arguments.toList) : Sealed sig.target.toList := by
  have hreturns : StaysOpen (sig.returns.getD "").toList := by
    cases hr : sig.returns with
    | none => decide
    | some type => exact (h.returns type hr).staysOpen
  have howner : StaysOpen (sig.owner.getD "global").toList := by
    cases ho : sig.owner with
    | none => decide
    | some name => exact (h.owner name ho).staysOpen
  delta Signature.target
  simp only [String.toList_append, List.append_assoc]
  refine sealed_between (by decide +kernel) hreturns (by simp) ?_
  refine sealed_between (by decide +kernel) howner (by simp) ?_
  refine sealed_between (by decide +kernel) hmethod (by simp) ?_
  exact sealed_between (by decide +kernel) harguments (by decide +kernel) (by decide +kernel)

/-- The sample code of a constructor is sealed: its class is a name, and stays one in lower case as
far as stars are concerned. -/
theorem sealed_sample (h : sig.PartsOf line) (harguments : StaysOpen sig.arguments.toList)
    (hconstructor : sig.isConstructor = true) : Sealed sig.sample.toList := by
  -- the method of a constructor is the name of its class, so it holds no star either
  have howner : sig.owner = some sig.method := by simpa [Signature.isConstructor] using hconstructor
  have hname : '*' ∉ sig.method.toList := star_not_mem_of_word (h.owner sig.method howner)
  have hlower : '*' ∉ lower sig.method.toList := star_not_mem_lower hname
  delta Signature.sample
  simp only [howner, Option.getD_some, String.toList_append, String.toList_ofList,
    List.append_assoc]
  refine sealed_between (by decide +kernel) (staysOpen_of_not_mem hlower) (by simp) ?_
  refine sealed_between (by decide +kernel) (staysOpen_of_not_mem hname) (by simp) ?_
  refine sealed_between (by decide +kernel) harguments (by simp) ?_
  exact sealed_between (by decide +kernel) (staysOpen_of_not_mem hlower) (by decide +kernel)
    (by decide +kernel)

end Signature

/-! ### What a line writes -/

/-- In the dialects with block comments a line that does not close the comment holds no end of
comment. -/
theorem staysOpen_of_contains_closer {d : Dialect} {line : List Char} (hd : d ≠ .bracketed)
    (h : contains d.closer.toList line = false) : StaysOpen line := by
  have hcloser : d.closer = "*/" := by cases d <;> simp_all [Dialect.closer]
  rw [hcloser] at h
  exact staysOpen_iff.mpr h

/-- The fragments of an effect on the comments or on the main page are sealed. -/
def Effect.Sealed : Effect → Prop
  | .comment fragment | .mainPage fragment => Scan.Sealed fragment.toList
  | _ => True

section Lines

variable {d : Dialect} {line : List Char} {es : List Effect}

/-- **Every text written inside a comment is sealed**, whatever command the line holds. -/
theorem sealed_of_tagTransition {r r' : Region} (ht : TagTransition d line r r' es)
    (hline : StaysOpen line) : ∀ e ∈ es, e.Sealed := by
  cases ht with
  | page htag => simpa [Effect.Sealed] using sealed_asFragment hline
  | par htag => simp
  | enum htag =>
    unfold Mode.enumEffects
    split <;> simp [Effect.Sealed]
  | geom htag =>
    have hbody := Tag.infix_of_paragraph (Tag.ofLine?_eq_some htag)
    simpa [Effect.Sealed] using sealed_geometry (staysOpen_of_isInfix hbody hline)
  | listing htag =>
    have hname := Tag.listing?_isName (Tag.ofLine?_eq_some htag)
    simpa [Effect.Sealed] using sealed_markerTarget hname
  | @func sig htag hsig =>
    have hparts := Signature.partsOf_of_parse? hsig
    -- these two may be any part of the line, which holds no end of comment
    have hmethod := staysOpen_of_isInfix hparts.method hline
    have harguments := staysOpen_of_isInfix hparts.arguments hline
    have htarget := sealed_target hparts hmethod harguments
    unfold Mode.funcEffects
    split
    · next hconstructor =>
      simpa [Effect.Sealed] using And.intro htarget (sealed_sample hparts harguments hconstructor)
    · simpa [Effect.Sealed] using htarget
  | ofClass htag =>
    have hname := Tag.lastWord?_isName (Tag.ofLine?_eq_some htag)
    simpa [Effect.Sealed] using sealed_classTarget hname
  | ofVirtualClass htag =>
    have hname := Tag.lastWord?_isName (Tag.ofLine?_eq_some htag)
    simpa [Effect.Sealed] using sealed_classTarget hname
  | descr htag =>
    have htext := Tag.infix_of_paragraph (Tag.ofLine?_eq_some htag)
    simpa [Effect.Sealed] using sealed_description (staysOpen_of_isInfix htext hline)
  | freeText htag =>
    have hfragment := sealed_asFragment hline
    unfold Mode.freeText
    split
    · simpa [Effect.Sealed] using hfragment
    split
    · simp [Effect.Sealed]
    split
    · simpa [Effect.Sealed] using hfragment
    · simp

/-! ### Blocks -/

/-- The fragments of a block with the given content. -/
def blockFragments (inner : List String) : List String := blockOpen :: (inner ++ [blockClose])

/-- The fragments are a sequence of blocks with sealed content. -/
def Blocks (out : List String) : Prop :=
  ∃ blocks : List (List String), out = blocks.flatMap blockFragments ∧
    ∀ inner ∈ blocks, ∀ fragment ∈ inner, Sealed fragment.toList

/-- The fragments finish the block that is open in the mode, if any, and then consist of blocks. -/
def Mode.ClosesBlocks : Mode → (out : List String) → Prop
  | .comment _, out => ∃ (inner rest : List String), out = inner ++ blockClose :: rest ∧
      (∀ fragment ∈ inner, Sealed fragment.toList) ∧ Blocks rest
  | _, out => Blocks out

variable {m m' : Mode} {out : List String}

theorem blocks_nil : Blocks [] := ⟨[], rfl, by simp⟩

theorem closesBlocks_resume {pending : Option EnumSpec} :
    (Mode.resume pending).ClosesBlocks out ↔ Blocks out := by
  cases pending <;> rfl

/-- An opening turns the rest of a block into a block. -/
theorem blocks_open {r : Region} (h : (Mode.comment r).ClosesBlocks out) :
    Blocks (blockOpen :: out) := by
  obtain ⟨inner, rest, rfl, hinner, blocks, rfl, hblocks⟩ := h
  refine ⟨inner :: blocks, by simp [blockFragments], ?_⟩
  simpa using ⟨hinner, hblocks⟩

/-- A block may take more sealed content. -/
theorem closesBlocks_content {r r' : Region} (hes : ∀ e ∈ es, e.Sealed)
    (h : (Mode.comment r').ClosesBlocks out) :
    (Mode.comment r).ClosesBlocks (es.filterMap Effect.commentText? ++ out) := by
  obtain ⟨inner, rest, rfl, hinner, hrest⟩ := h
  refine ⟨es.filterMap Effect.commentText? ++ inner, rest, by simp, ?_, hrest⟩
  intro fragment hfragment
  rcases List.mem_append.mp hfragment with hnew | hold
  · obtain ⟨e, he, htext⟩ := List.mem_filterMap.mp hnew
    cases e with
    | comment text => cases htext; exact hes _ he
    | _ => simp [Effect.commentText?] at htext
  · exact hinner fragment hold

/-- Effects on the enum stream write no comment. -/
theorem commentText?_map_enums (fragments : List String) :
    (fragments.map Effect.enums).filterMap Effect.commentText? = [] := by
  rw [List.filterMap_eq_nil_iff]
  intro e he
  obtain ⟨fragment, -, rfl⟩ := List.mem_map.mp he
  rfl

/-- **Every move keeps the blocks in order.** -/
theorem closesBlocks_of_transition (hd : d ≠ .bracketed) (ht : Transition d line m m' es)
    (h : m'.ClosesBlocks out) : m.ClosesBlocks (es.filterMap Effect.commentText? ++ out) := by
  cases ht with
  | openBlock hreg hstart hopen => exact blocks_open h
  | interruptByBlock hreg hstart hopen => exact blocks_open h
  | closeBlock hreg hclose => exact ⟨[], out, rfl, by simp, closesBlocks_resume.mp h⟩
  | tag hreg hclose htag =>
    have hline := staysOpen_of_contains_closer hd hclose
    exact closesBlocks_content (sealed_of_tagTransition htag hline) h
  | @register m r hm hreg => simpa [Effect.commentText?, List.filterMap_cons] using h
  | @endTable kind names pending owner hreg howner =>
    have hrest := closesBlocks_resume.mp h
    cases kind <;>
      simpa [Mode.ClosesBlocks, MethodKind.table, Effect.commentText?, List.filterMap_cons]
  | startRows hreg hstart hopen hdef | row hmore | lastRow hlast =>
    rw [commentText?_map_enums]
    exact h
  | startTable hreg hstart | passCode hreg hstart hopen | listMethod hreg howner
  | interruptByTable hreg hstart | passAwaiting hreg hstart hopen hdef =>
    simpa [Mode.ClosesBlocks] using h

/-- The end of a file closes the last block. -/
theorem closesBlocks_finish (m : Mode) :
    m.ClosesBlocks (m.finish.filterMap Effect.commentText?) := by
  cases m with
  | comment r =>
    obtain ⟨mainPage, hasCommand, pending⟩ := r
    cases pending <;> exact ⟨[], [], rfl, by simp, blocks_nil⟩
  | methods kind names pending => cases pending <;> exact blocks_nil
  | code => exact blocks_nil
  | awaiting spec => exact blocks_nil
  | rows spec => exact blocks_nil

/-- Every fragment a move writes on the main page is sealed. -/
theorem sealed_mainPage_of_transition (hd : d ≠ .bracketed) (ht : Transition d line m m' es) :
    ∀ fragment ∈ es.filterMap Effect.mainPageText?, Sealed fragment.toList := by
  intro fragment hfragment
  obtain ⟨e, he, htext⟩ := List.mem_filterMap.mp hfragment
  cases e with
  | mainPage text =>
    cases htext
    -- no move but that of a command or of free text writes on the main page
    cases ht with
    | tag hreg hclose htag =>
      exact sealed_of_tagTransition htag (staysOpen_of_contains_closer hd hclose) _ he
    | @endTable kind names pending owner hreg howner => cases kind <;> simp [MethodKind.table] at he
    | _ => simp at he
  | _ => simp [Effect.mainPageText?] at htext

/-- The end of a file writes nothing on the main page. -/
theorem mainPage_finish (m : Mode) : m.finish.filterMap Effect.mainPageText? = [] := by
  cases m with
  | comment r =>
    obtain ⟨mainPage, hasCommand, pending⟩ := r
    cases pending <;> rfl
  | methods kind names pending => cases pending <;> rfl
  | code => rfl
  | awaiting spec => rfl
  | rows spec => rfl

end Lines

/-! ### The text of blocks -/

theorem sealed_append {s t : List Char} (hs : Sealed s) (ht : Sealed t) : Sealed (s ++ t) := by
  refine ⟨by simp [List.getLast?_append, ht.1], ?_⟩
  exact staysOpen_append_of_left (by simp [hs.1]) hs.2 ht.2

/-- Sealed fragments one after the other are sealed. -/
theorem sealed_flatMap {s : List Char} {fragments : List String} (hs : Sealed s)
    (h : ∀ fragment ∈ fragments, Sealed fragment.toList) :
    Sealed (s ++ fragments.flatMap String.toList) := by
  induction fragments generalizing s with
  | nil => simpa using hs
  | cons fragment fragments ih =>
    rw [List.flatMap_cons, ← List.append_assoc]
    exact ih (sealed_append hs (h fragment List.mem_cons_self))
      fun x hx => h x (List.mem_cons_of_mem _ hx)

/-- **Every end of comment in a sequence of blocks is the end of a block**: before it stand whole
blocks, and the opening and the content of the block that it closes. -/
theorem end_of_block {blocks : List (List String)}
    (hblocks : ∀ inner ∈ blocks, ∀ fragment ∈ inner, Sealed fragment.toList) {u v : List Char}
    (h : (String.join (blocks.flatMap blockFragments)).toList = u ++ ("*/".toList ++ v)) :
    ∃ before inner after, blocks = before ++ inner :: after ∧
      u = (String.join (before.flatMap blockFragments ++ blockOpen :: inner)).toList := by
  induction blocks generalizing u with
  | nil => simp at h
  | cons inner blocks ih =>
    have hinner : Sealed (String.join (blockOpen :: inner)).toList := by
      rw [String.toList_join, List.flatMap_cons]
      exact sealed_flatMap (by decide) (hblocks inner List.mem_cons_self)
    have hsplit : (String.join ((inner :: blocks).flatMap blockFragments)).toList =
        (String.join (blockOpen :: inner)).toList ++ ("*/\n".toList ++
          (String.join (blocks.flatMap blockFragments)).toList) := by
      simp [blockFragments, blockClose, String.toList_join]
    rw [hsplit] at h
    rcases List.append_eq_append_iff.mp h with ⟨a, rfl, ha⟩ | ⟨c, hc, hv⟩
    · -- not before the closing of the first block: at it, or in a later block
      rcases a with _ | ⟨c₁, _ | ⟨c₂, _ | ⟨c₃, a⟩⟩⟩
      · exact ⟨[], inner, blocks, rfl, by simp⟩
      · simp at ha
      · simp at ha
      · simp only [String.reduceToList, List.cons_append, List.nil_append, List.cons.injEq] at ha
        obtain ⟨rfl, rfl, rfl, hrest⟩ := ha
        obtain ⟨before, inner', after, rfl, rfl⟩ :=
          ih (fun x hx => hblocks x (List.mem_cons_of_mem _ hx)) hrest
        refine ⟨inner :: before, inner', after, rfl, ?_⟩
        simp [blockFragments, blockClose, String.toList_join]
    · -- not inside the first block, which is sealed
      rcases c with _ | ⟨c₁, _ | ⟨c₂, c⟩⟩
      · exact ⟨[], inner, blocks, rfl, by simpa using hc.symm⟩
      · simp only [String.reduceToList, List.cons_append, List.nil_append, List.cons.injEq] at hv
        obtain ⟨rfl, -⟩ := hv
        rw [hc] at hinner
        exact absurd hinner.1 (by simp)
      · simp only [String.reduceToList, List.cons_append, List.nil_append, List.cons.injEq] at hv
        obtain ⟨rfl, rfl, -⟩ := hv
        rw [hc] at hinner
        exact absurd ⟨u, c, by simp⟩ hinner.2

/-- The comment around a main page of sealed fragments ends where it is closed: what follows its
opening is the main page up to the first end of comment. -/
theorem splitFirst?_mainPage {s : Streams}
    (h : ∀ fragment ∈ s.mainPage, Sealed fragment.toList) (rest : List Char) :
    splitFirst? "*/".toList (("*\n" ++ String.join s.mainPage ++ "\n").toList ++
      ("*/".toList ++ rest)) = some (("*\n" ++ String.join s.mainPage ++ "\n").toList, rest) := by
  have hpage : Sealed ("*\n" ++ String.join s.mainPage ++ "\n").toList := by
    rw [String.toList_append, String.toList_append, String.toList_join]
    exact sealed_append (sealed_flatMap (by decide) h) (by decide)
  refine splitFirst?_of_staysOpen ?_ rest
  exact staysOpen_append_of_left (by rw [hpage.1]; decide) hpage.2 (by decide)

/-- A file with stars and slashes at the ends of its texts, the last comment of which is not
closed. -/
def starryFile : List Char :=
  "/**\n * @luaclass Ship\n * @geom a *\n * / b\n * @descr x */\n/**\n * @page p\n *".toList

end BindingDocs.Scan
