import BindingDocs.Proofs.Html.Write
import BindingDocs.Proofs.Markup.References
import BindingDocs.Proofs.Page.MarkerDocumentation
import BindingDocs.Proofs.Text.Replace

/-!
# Pages that stay readable

What is written for a page is read as it is meant where each of its nodes allows it: names of
elements and attributes do not end their tag, comments and document types not their markup, and in
raw text every ampersand begins a reference.  A revision leaves such a page as it is in this
respect.  The trees it brings in have names of its own, no raw text is put anywhere, and the texts
that it replaces stand in no reference.

## Main definitions

* `Html.RawReadable` — raw texts that are read as they are meant.
* `Html.NodeReadable` — nodes for which this can be said of all that is written.
* `Page.NodesReadable` — pages of such nodes.

## Main results

* `Html.isReadable_of_nodes` — forests of such nodes.
* `Html.RawReadable.replace` — raw texts after a replacement.
* `Page.NodesReadable.step`, `Page.NodesReadable.replaceText`, `Page.NodesReadable.promote` — the
  steps of a revision.
* `Page.isReadable_revise` — **pages that are readable after a revision.**
-/

namespace BindingDocs.Html

open Markup
open Page (Forest Item Element Attr Node)

/-! ### Raw texts -/

/-- What is written for a raw text is read as it is meant. -/
def RawReadable (s : List Char) : Prop := ∀ c ∈ textChunks none s, c.Sound Page.Usable

instance (s : List Char) : Decidable (RawReadable s) :=
  inferInstanceAs (Decidable (∀ c ∈ textChunks none s, c.Sound Page.Usable))

section Raw

variable {c : Char} {n s w v : List Char}

theorem rawReadable_cons (hc : c ≠ '&') :
    RawReadable (c :: s) ↔ c ≠ '<' ∧ RawReadable s := by
  rw [RawReadable, textChunks, if_neg hc, List.forall_mem_cons]
  exact and_congr_left fun _ => and_iff_left hc

theorem rawReadable_append (hw : '&' ∉ w) :
    RawReadable (w ++ s) ↔ '<' ∉ w ∧ RawReadable s := by
  induction w with
  | nil => simp
  | cons c w ih =>
    rw [List.mem_cons, not_or] at hw
    rw [List.cons_append, rawReadable_cons (Ne.symm hw.1), ih hw.2, List.mem_cons, not_or,
      and_assoc, ne_comm]

theorem textChunks_some (hn : ';' ∉ n) (acc s : List Char) :
    textChunks (some acc) (n ++ s) = textChunks (some (n.reverse ++ acc)) s := by
  induction n generalizing acc with
  | nil => rfl
  | cons c n ih =>
    rw [List.mem_cons, not_or] at hn
    rw [List.cons_append, textChunks, if_neg (Ne.symm hn.1), ih hn.2, List.reverse_cons,
      List.append_assoc, List.singleton_append]

/-- An ampersand begins a reference that may be used. -/
theorem rawReadable_ampersand (hn : ';' ∉ n) : RawReadable ('&' :: (n ++ ';' :: s)) ↔
    IsReferenceName n ∧ Page.Usable n ∧ RawReadable s := by
  rw [RawReadable, textChunks, if_pos rfl, textChunks_some hn, textChunks, if_pos rfl,
    List.forall_mem_cons, List.append_nil, List.reverse_reverse, ← and_assoc]
  rfl

theorem exists_reference (h : RawReadable ('&' :: s)) : ∃ n r, s = n ++ ';' :: r ∧ ';' ∉ n := by
  by_cases hs : ';' ∈ s
  · obtain ⟨n, r, hs, hn⟩ := List.eq_append_cons_of_mem hs
    exact ⟨n, r, hs, hn⟩
  · -- the ampersand would be written as it is
    have happend := textChunks_some hs [] []
    rw [List.append_nil] at happend
    rw [RawReadable, textChunks, if_pos rfl, happend] at h
    exact absurd rfl (h (.char '&') List.mem_cons_self).2

/-- **A readable raw text stays readable** when a word that stands in no reference is replaced. -/
theorem RawReadable.replace (hw : w ≠ []) (hamp : '&' ∉ w) (hsemicolon : ';' ∉ w)
    (hname : ∀ n, Page.Usable n → ¬ w <:+: n) (hv : '&' ∉ v ∧ '<' ∉ v) (h : RawReadable s) :
    RawReadable (Text.replace w v s) := by
  -- a reference is passed over as a whole, so the induction is on the length
  induction hlength : s.length using Nat.strongRecOn generalizing s with
  | _ k ih =>
    by_cases hbegins : w <+: s
    · obtain ⟨r, rfl⟩ := hbegins
      have hpos : 0 < w.length := List.length_pos_iff.mpr hw
      rw [List.length_append] at hlength
      rw [Text.replace_append hw, rawReadable_append hv.1]
      exact ⟨hv.2, ih r.length (by omega) ((rawReadable_append hamp).mp h).2 rfl⟩
    · cases s with
      | nil => rwa [Text.replace_nil hw]
      | cons c s =>
        rw [List.length_cons] at hlength
        by_cases hc : c = '&'
        · subst hc
          obtain ⟨n, r, rfl, hn⟩ := exists_reference h
          obtain ⟨hreference, husable, hr⟩ := (rawReadable_ampersand hn).mp h
          rw [List.length_append, List.length_cons] at hlength
          have hout : ¬ w <:+: '&' :: n := by
            rw [List.infix_cons_iff, not_or]
            refine ⟨fun hprefix => ?_, hname n husable⟩
            obtain ⟨d, w, rfl⟩ := List.exists_cons_of_ne_nil hw
            obtain ⟨rfl, -⟩ := List.cons_prefix_cons.mp hprefix
            exact hamp List.mem_cons_self
          have hsplit := Text.replace_append_cons (v := v) hw hsemicolon ('&' :: n) r
          rw [Text.replace_eq_self hw hout] at hsplit
          rw [← List.cons_append, hsplit, List.cons_append, rawReadable_ampersand hn]
          exact ⟨hreference, husable, ih r.length (by omega) hr rfl⟩
        · obtain ⟨hangle, hs⟩ := (rawReadable_cons hc).mp h
          rw [Text.replace_cons hbegins, rawReadable_cons hc]
          exact ⟨hangle, ih s.length (by omega) hs rfl⟩

theorem digit?_ne_none_of_isNumeral {base m : Nat} (h : IsNumeral base s m) (hc : c ∈ s) :
    digit? base c ≠ none := by
  obtain ⟨-, ds, hds, -⟩ := h
  have hmem := List.mem_map_of_mem (f := digit? base) hc
  rw [hds] at hmem
  obtain ⟨d, -, hd⟩ := List.mem_map.mp hmem
  rw [← hd]
  exact Option.some_ne_none d

/-- Blanks and full stops stand in no reference. -/
theorem notMem_of_usable (h : Page.Usable n) (hc : c = ' ' ∨ c = '.') : c ∉ n := by
  have hdigit (base : Nat) : digit? base c = none := by
    rcases hc with rfl | rfl <;> rfl
  rcases h with hknown | rfl | rfl
  · rcases checkReference_eq_none_iff.mp hknown with hentity | ⟨s, rfl, hnumber⟩
    · have hletters : ∀ e ∈ entities, ' ' ∉ e.toList ∧ '.' ∉ e.toList := by decide
      have hout := hletters _ hentity
      rw [String.toList_ofList] at hout
      rcases hc with rfl | rfl
      · exact hout.1
      · exact hout.2
    · have hsigns : c ≠ '#' ∧ c ≠ 'x' := by
        rcases hc with rfl | rfl <;> exact ⟨by decide, by decide⟩
      obtain ⟨m, -, -, hnumeral⟩ := hnumber
      rw [List.mem_cons, not_or]
      refine ⟨hsigns.1, fun hmem => ?_⟩
      rcases hnumeral with hnumeral | ⟨hex, rfl, hnumeral⟩
      · exact digit?_ne_none_of_isNumeral hnumeral hmem (hdigit 10)
      · rcases List.mem_cons.mp hmem with heq | hmem
        · exact hsigns.2 heq
        · exact digit?_ne_none_of_isNumeral hnumeral hmem (hdigit 16)
  · rcases hc with rfl | rfl <;> decide
  · rcases hc with rfl | rfl <;> decide

end Raw

/-! ### Nodes -/

/-- What is written for a node is read as it is meant, wherever the node stands. -/
def NodeReadable (n : Node) : Prop :=
  ItemReadable false false n.item ∧
    ∀ e ∈ n.item.element?, isRaw e = true → ∀ s ∈ n.below.texts, RawReadable s.toList

instance (n : Node) : Decidable (NodeReadable n) :=
  inferInstanceAs (Decidable (_ ∧ ∀ e ∈ n.item.element?, isRaw e = true → ∀ s ∈ _, _))

/-- **What is written for a forest of such nodes is read as it is meant.** -/
theorem isReadable_of_nodes {f : Forest} (h : ∀ n ∈ f.nodes, NodeReadable n) {raw silent : Bool}
    (hraw : raw = true → ∀ s ∈ f.texts, RawReadable s.toList) :
    isReadable raw silent f = true := by
  induction f generalizing raw silent with
  | nil => rfl
  | cons l item below next ihb ihn =>
    obtain ⟨hitem, hbelow⟩ := h ⟨l, item, below⟩ List.mem_cons_self
    rw [isReadable_cons]
    refine ⟨?_, fun e he => ihb (fun n hn => h n (by simp [Forest.nodes, hn])) ?_,
      ihn (fun n hn => h n (by simp [Forest.nodes, hn])) fun hr s hs => ?_⟩
    · cases item with
      | element e => exact .inr (hitem.resolve_left (by decide))
      | text s => exact fun hr => hraw hr s (by simp [Forest.texts_cons, Item.text?])
      | comment s => exact hitem
      | doctype name => exact hitem
      | document => trivial
      | contents => trivial
    · exact hbelow e (by rw [he]; rfl)
    · exact hraw hr s (by simp [Forest.texts_cons, hs])

end BindingDocs.Html

namespace BindingDocs.Page

open Markup
open Html (NodeReadable RawReadable isRaw)
open Page (Forest Item Element Node)

/-! ### Trees that are put into a page -/

/-- What is written for each node of the page is read as it is meant. -/
def NodesReadable (p : Page) : Prop := ∀ n ∈ p.forest.nodes, NodeReadable n

instance (p : Page) : Decidable p.NodesReadable :=
  inferInstanceAs (Decidable (∀ n ∈ p.forest.nodes, NodeReadable n))

/-- A node with the item of a readable node and no other texts in it. -/
theorem nodeReadable_of_subset {n m : Node} (h : NodeReadable m) (hitem : m.item = n.item)
    (htexts : n.below.texts ⊆ m.below.texts) : NodeReadable n :=
  ⟨hitem ▸ h.1, fun e he hraw s hs => h.2 e (hitem ▸ he) hraw s (htexts hs)⟩

namespace Forest

variable {f g : Forest} {tag : String}

theorem nodeReadable_append (hf : ∀ n ∈ f.nodes, NodeReadable n)
    (hg : ∀ n ∈ g.nodes, NodeReadable n) : ∀ n ∈ (f ++ g).nodes, NodeReadable n := by
  intro n hn
  rw [nodes_append, List.mem_append] at hn
  exact hn.elim (hf n) (hg n)

theorem nodeReadable_ofText (s : String) : ∀ n ∈ (ofText s).nodes, NodeReadable n := by
  intro n hn
  rw [ofText, nodes, nodes, List.append_nil, List.mem_singleton] at hn
  rw [hn]
  exact ⟨fun hraw => (Bool.false_ne_true hraw).elim, by simp [Item.element?]⟩

/-- A new element whose name ends no tag, and which holds no raw texts. -/
theorem nodeReadable_ofElement (htag : IsTagName tag.toList ∧ tag ∉ Html.rawTags)
    {attrs : List (String × String)} (hattrs : ∀ a ∈ attrs, a.1 ∈ newAttributes)
    (hf : ∀ n ∈ f.nodes, NodeReadable n) :
    ∀ n ∈ (ofElement tag attrs f).nodes, NodeReadable n := by
  intro n hn
  rw [ofElement, nodes, nodes, List.append_nil, List.mem_cons] at hn
  rcases hn with rfl | hn
  · refine ⟨.inr ⟨htag.1, Html.endsTag_startTag htag.1.2.2.2.2 fun a ha => ?_⟩, fun e he hraw => ?_⟩
    · obtain ⟨a, hmem, rfl⟩ := List.mem_map.mp ha
      have hnames : ∀ name ∈ newAttributes, EndsTag none name.toList := by decide
      exact hnames a.1 (hattrs a hmem)
    · obtain rfl := Option.some.inj he
      simp [isRaw, htag.2] at hraw
  · exact hf n hn

theorem Made.nodeReadable {tags : List String} (h : f.Made tags)
    (htags : ∀ tag ∈ tags, IsTagName tag.toList ∧ tag ∉ Html.rawTags) :
    ∀ n ∈ f.nodes, NodeReadable n := by
  induction h with
  | nil => simp [nodes]
  | text s => exact nodeReadable_ofText s
  | element htag hattrs _ ih => exact nodeReadable_ofElement (htags _ htag) hattrs ih
  | append _ _ ihf ihg => exact nodeReadable_append ihf ihg

end Forest

theorem IsPut.nodeReadable {tag : String} {f : Forest} (h : IsPut tag f) :
    ∀ n ∈ f.nodes, NodeReadable n := by
  cases h with
  | label urls owner => exact (made_labelText urls owner).nodeReadable (by decide)
  | name s => exact Forest.nodeReadable_ofText s
  | summary _ width names types returns =>
    exact (made_summaryRow width names types returns).nodeReadable (by decide)

theorem IsPut.notMem_rawTags {tag : String} {f : Forest} (h : IsPut tag f) :
    tag ∉ Html.rawTags := by
  cases h with
  | label => decide
  | name => decide
  | summary htag => rcases htag with rfl | rfl <;> decide

/-! ### The steps of a revision -/

section Steps

variable {p q : Page} {l : Nat} {tag : String}

theorem Forest.texts_without_subset (l : Nat) (f : Forest) : (f.without l).texts ⊆ f.texts := by
  induction f with
  | nil => simp [without]
  | cons m i below next _ ih =>
    rw [without, texts_cons]
    split
    · exact fun s hs => List.mem_append_right _ (ih hs)
    · rw [texts_cons]
      exact List.append_subset.mpr ⟨List.subset_append_left _ _, fun s hs =>
        List.mem_append_right _ (ih hs)⟩

theorem NodesReadable.detach (hp : p.Labelled) (h : p.NodesReadable) (l : Nat) :
    (p.detach l).NodesReadable := by
  intro n hn
  rw [Page.detach] at hn
  split at hn
  · next _ m hparent hnode =>
    have hm := (hp.node?_eq_some_iff.mp hnode).1
    rw [Forest.nodes_append, List.mem_append] at hn
    rcases hn with hn | hn
    · obtain ⟨k, hk, rfl⟩ := Forest.mem_nodes_without hn
      exact nodeReadable_of_subset (h k hk) rfl (Forest.texts_without_subset l _)
    · exact h n (Forest.nodes_toForest_subset hm hn)
  · exact h n hn

/-- A node that may have got other texts, if it is the one at `l`, which holds no raw text. -/
theorem NodesReadable.of_givenTo (h : p.NodesReadable) (hl : p.GivenTo tag l)
    (htag : tag ∉ Html.rawTags) {n m : Node} (hm : m ∈ p.forest.nodes) (hitem : m.item = n.item)
    (htexts : m.label ≠ l → m.below.texts = n.below.texts) : NodeReadable n := by
  by_cases hml : m.label = l
  · refine ⟨hitem ▸ (h m hm).1, fun e he hraw => ?_⟩
    have hname := hl.2 m hm hml
    rw [Node.isElement, Node.localName?, hitem, he, Option.map_some, beq_iff_eq,
      Option.some.injEq] at hname
    simp [isRaw, hname, htag] at hraw
  · exact nodeReadable_of_subset (h m hm) hitem (htexts hml ▸ List.Subset.refl _)

theorem NodesReadable.clear (hp : p.Labelled) (h : p.NodesReadable) (hl : p.GivenTo tag l)
    (htag : tag ∉ Html.rawTags) : (p.clear l).NodesReadable := by
  intro n hn
  rw [Page.clear] at hn
  split at hn
  · next m hnode =>
    have hm := (hp.node?_eq_some_iff.mp hnode).1
    rw [Forest.nodes_append, List.mem_append] at hn
    rcases hn with hn | hn
    · rcases Forest.mem_nodes_updateBelow hn with ⟨k, hk, -, hitem, htexts⟩ | ⟨k, -, -, hempty⟩
      · exact h.of_givenTo hl htag hk hitem htexts
      · simp [Forest.nodes] at hempty
    · exact h n ((Forest.nodes_below_sublist hm).subset hn)
  · exact h n hn

/-- Putting copies of readable trees into an element that holds no raw text. -/
theorem NodesReadable.graft {u : Forest → Forest} (h : p.NodesReadable) (hl : p.GivenTo tag l)
    (htag : tag ∉ Html.rawTags) {f : Forest} (hf : ∀ n ∈ f.nodes, NodeReadable n)
    (hu : ∀ b, ∃ before after, b = before ++ after ∧
      u b = before ++ ((f.relabel p.next).1 ++ after)) :
    NodesReadable ⟨p.forest.updateBelow l u, (f.relabel p.next).2⟩ := by
  intro n hn
  rcases Forest.mem_nodes_graft hu hn with ⟨m, hm, -, hitem, htexts⟩ | hput
  · exact h.of_givenTo hl htag hm hitem htexts
  · obtain ⟨m, hm, hitem, htexts⟩ := Forest.mem_nodes_relabel hput
    exact nodeReadable_of_subset (hf m hm) hitem (htexts ▸ List.Subset.refl _)

theorem NodesReadable.append (h : p.NodesReadable) (hl : p.GivenTo tag l) {f : Forest}
    (hf : IsPut tag f) : (p.append l f).NodesReadable :=
  h.graft hl hf.notMem_rawTags hf.nodeReadable fun b => ⟨b, .nil, by simp, by simp⟩

theorem NodesReadable.step (hp : p.Labelled) (h : p.NodesReadable) (hstep : p.Step q) :
    q.NodesReadable := by
  cases hstep with
  | detach => exact h.detach hp _
  | replace hl hf =>
    exact (h.clear hp hl hf.notMem_rawTags).append ((follows_clear hp _).givenTo hl) hf
  | append hl hf => exact h.append hl hf

/-- Labels, names, summaries and removals leave a page readable. -/
theorem NodesReadable.steps (hp : p.Labelled) (h : p.NodesReadable) (hsteps : p.Steps q) :
    q.NodesReadable :=
  hsteps.induction hp (fun hq hstep hread => hread.step hq hstep) h

/-- So does copying the documentation of the marker. -/
theorem NodesReadable.promote (hp : p.Labelled) (h : p.NodesReadable) :
    p.promote.NodesReadable := by
  rw [Page.promote]
  cases hpromote : p.promote? with
  | none => exact h
  | some q =>
    obtain ⟨content, hcontent, hinsert⟩ := Option.bind_eq_some_iff.mp hpromote
    obtain ⟨table, htable, rfl⟩ := Option.map_eq_some_iff.mp hinsert
    obtain ⟨hmem, helement⟩ := hp.mem_nodes_of_mem_elements (List.mem_of_find?_eq_some htable)
    obtain ⟨tag, hgiven, htag⟩ := hp.exists_givenTo_rowContainer hmem helement
    have hraw : tag ∉ Html.rawTags := by
      rcases htag with rfl | rfl <;> decide
    refine h.graft hgiven hraw (f := promotedRows content) ?_ fun b =>
      Forest.exists_insertAfterFirstElement _ b
    have hcopied : ∀ n ∈ content.toForest.nodes, NodeReadable n := by
      intro n hn
      have hbody := Forest.nodes_toForest_subset (mem_of_markerContent? hcontent) hn
      exact h n (hp.mem_nodes_of_mem_body hbody)
    exact Forest.nodeReadable_append
      (Forest.nodeReadable_ofElement (by decide) (by simp)
        (Forest.nodeReadable_ofElement (by decide) (by simp [newAttributes]) hcopied))
      (Forest.nodeReadable_ofElement (by decide) (by simp)
        (Forest.nodeReadable_ofElement (by decide) (by simp [newAttributes])
          (Forest.nodeReadable_ofText nbsp)))

theorem element?_replaceText (old new : String) (i : Item) :
    (i.replaceText old new).element? = i.element? := by
  cases i <;> rfl

theorem itemReadable_replaceText {i : Item} (h : Html.ItemReadable false false i)
    (old new : String) : Html.ItemReadable false false (i.replaceText old new) := by
  cases i with
  | text s => exact fun hraw => (Bool.false_ne_true hraw).elim
  | _ => exact h

/-- So does replacing a text that stands in no reference. -/
theorem NodesReadable.replaceText (hp : p.Labelled) (h : p.NodesReadable) {old new : String}
    (hold : old.toList ≠ []) (hamp : '&' ∉ old.toList) (hsemicolon : ';' ∉ old.toList)
    (hname : ' ' ∈ old.toList ∨ '.' ∈ old.toList)
    (hnew : '&' ∉ new.toList ∧ '<' ∉ new.toList) : (p.replaceText old new).NodesReadable := by
  intro n hn
  rcases Forest.mem_nodes_updateBelow hn with ⟨m, hm, -, hitem, htexts⟩ | ⟨m, hm, -, hput⟩
  · by_cases hroot : m.label = root
    · -- the document is no element
      rw [Forest.eq_of_label_eq hp.nodup hm hp.document_mem hroot] at hitem
      rw [NodeReadable, ← hitem]
      exact ⟨trivial, by simp [Item.element?]⟩
    · exact nodeReadable_of_subset (h m hm) hitem (htexts hroot ▸ List.Subset.refl _)
  · obtain ⟨k, hk, -, hitem, hbelow⟩ := Forest.mem_nodes_mapItems hput
    obtain ⟨hkitem, hktexts⟩ := h k ((Forest.nodes_below_sublist hm).subset hk)
    rw [NodeReadable, ← hitem, ← hbelow, element?_replaceText]
    refine ⟨itemReadable_replaceText hkitem old new, fun e he hraw s hs => ?_⟩
    have hmem := List.mem_map_of_mem (f := String.toList) hs
    rw [Forest.texts_mapItems_replaceText, List.map_map, List.mem_map] at hmem
    obtain ⟨t, ht, hst⟩ := hmem
    have hout : ∀ n, Usable n → ¬ old.toList <:+: n := fun n hn hin =>
      hname.elim (fun hc => Html.notMem_of_usable hn (.inl rfl) (hin.subset hc))
        fun hc => Html.notMem_of_usable hn (.inr rfl) (hin.subset hc)
    rw [← hst]
    exact (hktexts e he hraw t ht).replace hold hamp hsemicolon hout hnew

theorem NodesReadable.prepared (hp : p.Labelled) (h : p.NodesReadable) :
    p.prepared.NodesReadable := by
  have hlinks := steps_removeMoreLinks 2 hp
  have hfollows := hlinks.follows hp
  have hmembers := follows_replaceText hfollows.labelled "Public Member Function" "Member Function"
  refine NodesReadable.replaceText hmembers.labelled ?_ (by decide) (by decide) (by decide)
    (by decide) (by decide)
  exact (h.steps hp hlinks).replaceText hfollows.labelled (by decide) (by decide) (by decide)
    (by decide) (by decide)

end Steps

/-! ### A revision -/

theorem NodesReadable.revise {p : Page} (hp : p.Labelled) (h : p.NodesReadable) :
    p.revise.page.NodesReadable := by
  have hprepared := (leads_prepared p).follows hp
  have hpromote := (leads_promote p.prepared).follows hprepared.labelled
  have hlabel := steps_label p.prepared.promote.classUrls hpromote.labelled
  have hread := ((h.prepared hp).promote hprepared.labelled).steps hpromote.labelled hlabel
  cases hcompleted : p.completed.2 with
  | error e =>
    rw [(revise_of_error hcompleted).1]
    exact hread
  | ok k =>
    rw [(revise_of_ok hcompleted).1]
    have hfollows := hlabel.follows hpromote.labelled
    have hclean := steps_clean hfollows.labelled
    have hcleaned := (hclean.follows hfollows.labelled).labelled
    exact (hread.steps hfollows.labelled hclean).steps hcleaned
      (steps_detachAll hcleaned fun n hn => (givenTo_of_mem_markerNodes hp hn).2)

/-- **What is written for a revised page is read as it is meant**, if that holds of each node of the
page. -/
theorem isReadable_revise {p : Page} (hp : p.Labelled) (h : p.NodesReadable) :
    Html.isReadable false false p.revise.page.document.below = true := by
  have hrevised := ((leads_revise p).follows hp).labelled
  refine Html.isReadable_of_nodes (fun n hn => ?_) fun hraw => (Bool.false_ne_true hraw).elim
  exact h.revise hp n (hrevised.mem_nodes_of_mem_body hn)

end BindingDocs.Page
