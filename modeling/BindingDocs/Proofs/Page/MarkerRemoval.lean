import BindingDocs.Proofs.Page.RevisionSteps

/-!
# Removing the marker

A revision removes the entries of one marker: the first row that links to it, the first row after
such a row, the first heading and the block after it.  What it does between finding and removing
them makes no new trace apart from the documentation that is copied to the top: labels are put into
`span` elements, names into cells, and summaries into tables, so no link and no heading changes its
text, and no new link stands in a cell.  So a trace that is left stands in none of the entries, and
nothing is left where they hold all traces.  Which pages these are is said in
`BindingDocs.Proofs.Page.MarkerListing`.

## Main results

* `Page.Steps.keepsTraces` — labels, names, summaries and removals.
* `Page.keepsMentions_promote` — copying the documentation of the marker.
* `Page.mem_traces_revise` — **the traces that a revision leaves.**
-/

namespace BindingDocs.Page

open Page (Forest Item Node)

/-! ### Trees without links and headings -/

/-- Only elements of the given names stand in the trees. -/
theorem Forest.Made.lacks {tags : List String} {tag : String} {f : Forest} (h : f.Made tags)
    (htag : tag ∉ tags) : f.Lacks tag := by
  induction h with
  | nil => simp [Lacks, nodes]
  | text s => simp [Lacks, ofText, nodes, Node.isElement, Node.localName?, Item.element?]
  | @element name attrs below hname _ _ ih =>
    intro n hn
    rw [ofElement, nodes, nodes, List.append_nil, List.mem_cons] at hn
    rcases hn with rfl | hn
    · have hne : name ≠ tag := fun heq => htag (heq ▸ hname)
      simp [Node.isElement, Node.localName?, Item.element?, hne]
    · exact ih n hn
  | append _ _ ihf ihg =>
    intro n hn
    rw [nodes_append, List.mem_append] at hn
    exact hn.elim (ihf n) (ihg n)

theorem Forest.lacks_ofText {tag : String} (s : String) : (ofText s).Lacks tag :=
  (Made.text s : (ofText s).Made []).lacks List.not_mem_nil

theorem lacks_labelText {tag : String} (ha : "a" ≠ tag) (urls : Urls) (owner : String) :
    (labelText urls owner).Lacks tag :=
  (made_labelText urls owner).lacks (by simpa using Ne.symm ha)

theorem lacks_summaryRow {tag : String} (htr : "tr" ≠ tag) (htd : "td" ≠ tag) (hspan : "span" ≠ tag)
    (width : Nat) (names types : List Node) (returns : String) :
    (summaryRow width names types returns).Lacks tag :=
  (made_summaryRow width names types returns).lacks
    (by simpa using ⟨Ne.symm htr, Ne.symm htd, Ne.symm hspan⟩)

/-! ### The steps of a revision -/

section Steps

variable {p q : Page}

theorem IsPut.ne {tag : String} {f : Forest} (h : IsPut tag f) : tag ≠ "a" ∧ tag ≠ "h2" := by
  cases h with
  | label => exact ⟨by decide, by decide⟩
  | name => exact ⟨by decide, by decide⟩
  | summary htag => rcases htag with rfl | rfl <;> exact ⟨by decide, by decide⟩

theorem IsPut.lacks_heading {tag : String} {f : Forest} (h : IsPut tag f) : f.Lacks "h2" := by
  cases h with
  | label urls owner => exact lacks_labelText (by decide) urls owner
  | name s => exact Forest.lacks_ofText s
  | summary _ width names types returns =>
    exact lacks_summaryRow (by decide) (by decide) (by decide) width names types returns

/-- Only labels hold links, and a label is no cell. -/
theorem IsPut.lacks_link {tag : String} {f : Forest} (h : IsPut tag f) :
    f.Lacks "a" ∨ f.Lacks "td" ∧ tag ≠ "td" := by
  cases h with
  | label urls owner => exact .inr ⟨lacks_labelText (by decide) urls owner, by decide⟩
  | name s => exact .inl (Forest.lacks_ofText s)
  | summary _ width names types returns =>
    exact .inl (lacks_summaryRow (by decide) (by decide) (by decide) width names types returns)

theorem Step.keepsTraces (h : p.Labelled) (hstep : p.Step q) : p.KeepsTraces q := by
  cases hstep with
  | detach hl => exact keepsTraces_detach h hl
  | replace hl hf =>
    have hclear := keepsTraces_clear h hl hf.ne.1 hf.ne.2
    exact hclear.trans (keepsTraces_append hclear.labelled (hclear.givenTo hl) hf.ne.1 hf.ne.2
      hf.lacks_heading hf.lacks_link)
  | append hl hf => exact keepsTraces_append h hl hf.ne.1 hf.ne.2 hf.lacks_heading hf.lacks_link

/-- **Labels, names, summaries and removals make no traces.** -/
theorem Steps.keepsTraces (h : p.Labelled) (hsteps : p.Steps q) : p.KeepsTraces q :=
  hsteps.induction h (fun hq hstep hkeeps => hkeeps.trans (hstep.keepsTraces hq)) (.refl h)

/-- **Copying the documentation of the marker changes no link and no heading.** -/
theorem keepsMentions_promote (h : p.Labelled) : p.KeepsMentions p.promote := by
  rw [promote]
  cases hpromote : p.promote? with
  | none => exact .refl h
  | some q =>
    obtain ⟨content, -, hpromote⟩ := Option.bind_eq_some_iff.mp hpromote
    obtain ⟨table, htable, rfl⟩ := Option.map_eq_some_iff.mp hpromote
    obtain ⟨hmem, helement⟩ := h.mem_nodes_of_mem_elements (List.mem_of_find?_eq_some htable)
    obtain ⟨tag, hgiven, htag⟩ := h.exists_givenTo_rowContainer hmem helement
    have hne : tag ≠ "a" ∧ tag ≠ "h2" := by
      rcases htag with rfl | rfl <;> exact ⟨by decide, by decide⟩
    exact keepsMentions_graft h hgiven hne.1 hne.2 (promotedRows content) fun b =>
      Forest.exists_insertAfterFirstElement _ b

/-! ### The entries of the marker -/

theorem mem_of_rowAfterMarker {before rows : List Node} {row : Node}
    (hrow : p.rowAfterMarker before rows = some row) : row ∈ rows := by
  induction rows generalizing before with
  | nil => cases hrow
  | cons r rows ih =>
    rw [rowAfterMarker] at hrow
    split at hrow
    · cases hrow
      exact List.mem_cons_self
    · exact List.mem_cons_of_mem _ (ih hrow)

/-- What is left of a list from the first element with a property on. -/
theorem dropWhile_eq_cons_iff {α : Type} {q : α → Bool} {l after : List α} {a : α} :
    l.dropWhile (fun b => !q b) = a :: after ↔
      q a = true ∧ ∃ before, l = before ++ a :: after ∧ ∀ b ∈ before, q b = false := by
  constructor
  · intro hdrop
    have hhead := List.head?_dropWhile_not (fun b => !q b) l
    rw [hdrop, List.head?_cons] at hhead
    have hbefore := List.all_eq_true.mp (List.all_takeWhile (p := fun b => !q b) (l := l))
    refine ⟨by simpa using hhead, l.takeWhile fun b => !q b, ?_, by simpa using hbefore⟩
    rw [← hdrop, List.takeWhile_append_dropWhile]
  · rintro ⟨ha, before, rfl, hbefore⟩
    rw [List.dropWhile_append_of_pos fun b hb => by rw [hbefore b hb, Bool.not_false],
      List.dropWhile_cons_of_neg (by simp [ha])]

/-- The heading of the marker and the block after it are elements of the document. -/
theorem mem_of_markerHeading {n : Node} (hn : n ∈ p.markerHeading) :
    n ∈ p.body.nodes ∧ ∃ tag, n.isElement tag = true := by
  rw [markerHeading, descendants_eq] at hn
  split at hn
  · cases hn
  · next heading later hfound =>
    have hsub : (heading :: later).Sublist p.body.nodes := hfound ▸ List.dropWhile_sublist _
    rcases List.mem_cons.mp hn with rfl | hn
    · have hheading := (dropWhile_eq_cons_iff.mp hfound).1
      rw [Bool.and_eq_true] at hheading
      exact ⟨hsub.subset List.mem_cons_self, "h2", isElement_of_hasClass hheading.1⟩
    · rw [Option.mem_toList] at hn
      have hdiv := List.find?_some hn
      rw [Bool.and_eq_true] at hdiv
      exact ⟨hsub.subset (List.mem_cons_of_mem _ (List.mem_of_find?_eq_some hn)), "div", hdiv.1⟩

theorem mem_of_mem_markerNodes {n : Node} (hn : n ∈ p.markerNodes) :
    n ∈ p.body.nodes ∧ ∃ tag, n.isElement tag = true := by
  have hrows {n : Node} (hn : n ∈ p.elements "tr") :
      n ∈ p.body.nodes ∧ ∃ tag, n.isElement tag = true := by
    obtain ⟨hbody, htr⟩ := mem_elements_iff.mp hn
    exact ⟨hbody, "tr", htr⟩
  rw [markerNodes, List.mem_append, List.mem_append, Option.mem_toList, Option.mem_toList] at hn
  rcases hn with (hn | hn) | hn
  · exact hrows (List.mem_of_find?_eq_some hn)
  · exact hrows (mem_of_rowAfterMarker hn)
  · exact mem_of_markerHeading hn

end Steps

/-! ### What a revision leaves -/

/-- The page from which the entries of the marker are removed. -/
def cleaned (p : Page) : Page := p.completed.1.clean.1

section Revision

variable {p : Page}

/-- Between the copy of the documentation and the removal no traces are made. -/
theorem keepsTraces_cleaned (h : p.Labelled) : p.prepared.promote.KeepsTraces p.cleaned := by
  have hprepared := ((leads_prepared p).follows h).labelled
  have hpromote := keepsMentions_promote hprepared
  have hlabel := steps_label p.prepared.promote.classUrls hpromote.labelled
  have hclean := steps_clean (hlabel.follows hpromote.labelled).labelled
  exact (hlabel.trans hclean).keepsTraces hpromote.labelled

/-- The entries of the marker are still elements when they are removed. -/
theorem givenTo_of_mem_markerNodes (h : p.Labelled) {n : Node} (hn : n ∈ p.prepared.markerNodes) :
    n.label ≠ root ∧ ∃ tag, p.cleaned.GivenTo tag n.label := by
  have hprepared := ((leads_prepared p).follows h).labelled
  obtain ⟨hbody, tag, htag⟩ := mem_of_mem_markerNodes hn
  have hgiven := hprepared.givenTo (hprepared.mem_nodes_of_mem_body hbody) htag
  refine ⟨fun hroot => ?_, tag, (keepsTraces_cleaned h).givenTo ?_⟩
  · exact hprepared.root_notMem_body (hroot ▸ Forest.label_mem_preorder hbody)
  · exact (keepsMentions_promote hprepared).givenTo hgiven

theorem page_revise (hok : p.revise.error = none) :
    p.revise.page = p.cleaned.detachAll p.prepared.markerNodes := by
  cases hcompleted : p.completed.2 with
  | error e =>
    rw [(revise_of_error hcompleted).2] at hok
    cases hok
  | ok k => exact (revise_of_ok hcompleted).1

theorem mem_body_revise (h : p.Labelled) (hok : p.revise.error = none) (l : Nat) :
    l ∈ p.revise.page.body.preorder ↔
      l ∈ p.cleaned.body.preorder ∧ p.cleaned.within p.prepared.markerNodes l = false := by
  rw [page_revise hok]
  exact mem_body_detachAll (keepsTraces_cleaned h).labelled fun n hn =>
    (givenTo_of_mem_markerNodes h hn).1

/-- A trace is left if it stands outside the entries. -/
theorem mem_label_traces_revise (h : p.Labelled) (hok : p.revise.error = none) (l : Nat) :
    l ∈ p.revise.page.traces.map Node.label ↔
      l ∈ p.cleaned.traces.map Node.label ∧ p.cleaned.within p.prepared.markerNodes l = false := by
  have hcleaned := (keepsTraces_cleaned h).labelled
  have hremoved : p.cleaned.KeepsTraces p.revise.page := by
    rw [page_revise hok]
    exact (steps_detachAll hcleaned fun n hn => (givenTo_of_mem_markerNodes h hn).2).keepsTraces
      hcleaned
  constructor
  · intro hl
    have hin := (mem_body_revise h hok l).mp (mem_body_of_mem_traces hremoved.labelled hl)
    exact ⟨(hremoved.mem_traces hcleaned hl).2, hin.2⟩
  · rintro ⟨hl, hout⟩
    have hin := mem_body_of_mem_traces hcleaned hl
    refine (hremoved.mem_traces_iff hcleaned (lt_next_of_mem_body hcleaned hin) ?_).mpr hl
    exact (mem_body_revise h hok l).mpr ⟨hin, hout⟩

/-- A trace that is left was there when the documentation had been copied. -/
theorem mem_traces_promote_of_mem_revise (h : p.Labelled) (hok : p.revise.error = none) {l : Nat}
    (hl : l ∈ p.revise.page.traces.map Node.label) :
    l ∈ p.prepared.promote.traces.map Node.label ∧
      p.prepared.promote.within p.prepared.markerNodes l = false := by
  have hcleaned := keepsTraces_cleaned h
  have hpromote := (keepsMentions_promote ((leads_prepared p).follows h).labelled).labelled
  obtain ⟨hl, hout⟩ := (mem_label_traces_revise h hok l).mp hl
  obtain ⟨hlt, htrace⟩ := hcleaned.mem_traces hpromote hl
  have hin := mem_body_of_mem_traces hcleaned.labelled hl
  exact ⟨htrace, hcleaned.within_eq hpromote hlt hin _ ▸ hout⟩

/-- Nothing is left where the entries hold all traces. -/
theorem unmarked_of_within (h : p.Labelled) (hok : p.revise.error = none)
    (hall : ∀ n ∈ p.prepared.promote.traces,
      p.prepared.promote.within p.prepared.markerNodes n.label = true) :
    p.revise.page.Unmarked := by
  rw [← traces_eq_nil_iff, List.eq_nil_iff_forall_not_mem]
  intro n hn
  obtain ⟨htrace, hout⟩ := mem_traces_promote_of_mem_revise h hok (List.mem_map_of_mem hn)
  obtain ⟨m, hm, hlabel⟩ := List.mem_map.mp htrace
  have hinside := hall m hm
  rw [hlabel, hout] at hinside
  cases hinside

/-- **The traces of the marker that a revision leaves.**  The entries that were found are gone, with
everything in them, and all other traces are left.  Each of them was there when the documentation
was copied, outside the entries.  So none is left where the entries hold all traces of that page. -/
theorem mem_traces_revise {p : Page} (h : p.Consistent) (hok : p.revise.error = none) :
    (∀ n ∈ p.prepared.markerNodes, n.label ∉ p.revise.page.body.preorder) ∧
    (∀ l, l ∈ p.revise.page.traces.map Node.label ↔
      l ∈ p.cleaned.traces.map Node.label ∧ p.cleaned.within p.prepared.markerNodes l = false) ∧
    (∀ l ∈ p.revise.page.traces.map Node.label, l ∈ p.prepared.promote.traces.map Node.label ∧
      p.prepared.promote.within p.prepared.markerNodes l = false) ∧
    ((∀ n ∈ p.prepared.promote.traces,
      p.prepared.promote.within p.prepared.markerNodes n.label = true) →
        p.revise.page.Unmarked) := by
  refine ⟨fun n hn hin => ?_, mem_label_traces_revise h.toLabelled hok,
    fun l => mem_traces_promote_of_mem_revise h.toLabelled hok, unmarked_of_within h.toLabelled hok⟩
  have hout := ((mem_body_revise h.toLabelled hok n.label).mp hin).2
  rw [within, List.any_eq_false] at hout
  exact hout n hn (by simp)

end Revision

/-- A row that links to the marker, and the row after it. -/
def markerRows : Forest :=
  .ofElement "tr" [] (.ofElement "td" [] (.ofElement "a" [] (.ofText Declaration.markerName))) ++
    .ofElement "tr" [] (.ofElement "td" [] (.ofText nbsp))

/-- A page with a member table and what comes after it. -/
def memberPage (rows after : Forest) : Page :=
  Page.empty.append root (.ofElement "table" [("class", "memberdecls")] rows ++ after)

theorem memberPage_consistent (rows after : Forest) : (memberPage rows after).Consistent := by
  have hempty : Page.empty.Labelled := ⟨by decide, by decide, _, _, rfl⟩
  exact (follows_append hempty root _).labelled.consistent

/-- The heading of the marker, and the block after it. -/
def markerBlock : Forest :=
  .ofElement "h2" [("class", "memtitle")] (.ofText Declaration.markerName) ++
    .ofElement "div" [] .nil

theorem mem_traces_revise_memberPage :
    (memberPage markerRows markerBlock).traces.length = 2 ∧
      (memberPage markerRows markerBlock).revise.page.Unmarked := by
  have hrevise := mem_traces_revise (memberPage_consistent markerRows markerBlock) (by decide)
  exact ⟨by decide, hrevise.2.2.2 (by decide)⟩

/-- A page that lists the marker twice keeps one of its rows. -/
theorem not_unmarked_revise : ¬ ∀ p : Page, p.Consistent → p.revise.error = none →
    p.revise.page.Unmarked := by
  intro h
  have hnil := h _ (memberPage_consistent (markerRows ++ markerRows) .nil) (by decide)
  rw [← traces_eq_nil_iff] at hnil
  revert hnil
  decide

end BindingDocs.Page
