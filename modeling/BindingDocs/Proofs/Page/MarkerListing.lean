import BindingDocs.Proofs.Page.MarkerDocumentation
import BindingDocs.Proofs.Text.Replace
import Mathlib.Data.List.TakeWhile

/-!
# Pages that list the marker once

A revision looks for the entries of the marker after disclosure links were removed and two texts
replaced.  Neither makes a trace of the marker or hides one, since the replaced texts have nothing
in common with its name.  So a page with one row and one heading for the marker has at most one of
each then, and these are the entries that are found.  What remains is the documentation that is
copied: where it does not name the marker in a link or a heading, a revision leaves no trace.

## Main definitions

* `Page.rowsOfMarker`, `Page.headingsOfMarker` — the rows and headings that hold the traces.
* `Page.ListsOnce` — there is at most one of each.

## Main results

* `Page.keepsTraces_prepared` — what is done before the entries are looked for.
* `Page.ListsOnce.of_keepsTraces` — no rows and no headings come to them.
* `Page.ListsOnce.within_markerNodes` — the entries hold all traces.
* `Page.unmarked_revise_of_listsOnce` — **nothing is left of a marker that is listed once.**
-/

namespace BindingDocs.Page

open Page (Forest Item Node)

/-! ### Replacing texts -/

theorem mentionsMarker_iff {n : Node} : mentionsMarker n = true ↔
    Declaration.markerName.toList <:+: (n.below.texts.map String.toList).flatten := by
  rw [mentionsMarker, mentions, Text.contains_iff_isInfix, Node.ownText, String.toList_join,
    List.flatMap_def]
  rfl

/-- Replacing a text that has nothing in common with the name of the marker. -/
theorem mentionsMarker_of_mapItems {n m : Node} {old new : String} {a c : Char} {w v : List Char}
    (hold : old.toList = a :: w) (hnew : new.toList = c :: v)
    (ha : a ∉ Declaration.markerName.toList) (hc : c ∉ Declaration.markerName.toList)
    (hw : 'D' ∉ a :: w) (hv : 'D' ∉ c :: v)
    (h : m.below.mapItems (Item.replaceText old new) = n.below) :
    mentionsMarker m = mentionsMarker n := by
  rw [Bool.eq_iff_iff, mentionsMarker_iff, mentionsMarker_iff, ← h,
    Forest.texts_mapItems_replaceText, hold, hnew]
  exact (Text.isInfix_flatten_replace_iff ha hc hw hv _).symm

/-- Replacing such a text makes no traces. -/
theorem keepsTraces_replaceText {p : Page} (h : p.Labelled) (old new : String) {a c : Char}
    {w v : List Char} (hold : old.toList = a :: w) (hnew : new.toList = c :: v)
    (ha : a ∉ Declaration.markerName.toList) (hc : c ∉ Declaration.markerName.toList)
    (hw : 'D' ∉ a :: w) (hv : 'D' ∉ c :: v) : p.KeepsTraces (p.replaceText old new) := by
  refine .of_next_eq ⟨follows_replaceText h old new, fun n hn _ htitle => ?_⟩ rfl
  rcases Forest.mem_nodes_updateBelow hn with ⟨m, hm, hlabel, hitem, htexts⟩ | ⟨m, hm, -, hput⟩
  · refine ⟨m, hm, hlabel, mentionsMarker_eq (htexts fun hroot => ?_)⟩
    -- the document is no link and no heading
    rw [Forest.eq_of_label_eq h.nodup hm h.document_mem hroot] at hitem
    simp [isTitle, Node.isElement, Node.localName?, ← hitem, Item.element?] at htitle
  · obtain ⟨k, hk, hlabel, -, hbelow⟩ := Forest.mem_nodes_mapItems hput
    exact ⟨k, (Forest.nodes_below_sublist hm).subset hk, hlabel,
      mentionsMarker_of_mapItems hold hnew ha hc hw hv hbelow⟩

/-- **What is done before the entries are looked for makes no traces.** -/
theorem keepsTraces_prepared {p : Page} (h : p.Labelled) : p.KeepsTraces p.prepared := by
  have hlinks := (steps_removeMoreLinks 2 h).keepsTraces h
  have hmembers := keepsTraces_replaceText hlinks.labelled "Public Member Function"
    "Member Function" (a := 'P') (c := 'M') rfl rfl (by decide) (by decide) (by decide) (by decide)
  have hdetails := keepsTraces_replaceText hmembers.labelled "More..." "[details]" (a := 'M')
    (c := '[') rfl rfl (by decide) (by decide) (by decide) (by decide)
  exact (hlinks.trans hmembers).trans hdetails

theorem next_prepared (p : Page) : p.prepared.next = p.next := by
  have hlinks : (p.removeMoreLinks 2).next = p.next := next_detachAll _ p
  exact hlinks

/-! ### Rows and headings of the marker -/

/-- The rows of member tables that link to the marker. -/
def rowsOfMarker (p : Page) : List Node :=
  (p.elements "tr").filter fun row => p.inMemberTable row && isMarkerRow row

/-- The headings that name the marker. -/
def headingsOfMarker (p : Page) : List Node := p.descendants.filter isMarkerHeading

/-- At most one row of a member table links to the marker, and at most one heading names it. -/
structure ListsOnce (p : Page) : Prop where
  row : p.rowsOfMarker.length ≤ 1
  heading : p.headingsOfMarker.length ≤ 1

instance (p : Page) : Decidable p.ListsOnce :=
  decidable_of_iff (p.rowsOfMarker.length ≤ 1 ∧ p.headingsOfMarker.length ≤ 1)
    ⟨fun h => ⟨h.1, h.2⟩, fun h => ⟨h.row, h.heading⟩⟩

section Rows

variable {p q : Page} {n : Node}

theorem mem_rowsOfMarker_iff : n ∈ p.rowsOfMarker ↔ n ∈ p.body.nodes ∧ n.isElement "tr" = true ∧
    p.inMemberTable n = true ∧ isMarkerRow n = true := by
  rw [rowsOfMarker, List.mem_filter, mem_elements_iff, Bool.and_eq_true, and_assoc]

theorem mem_headingsOfMarker_iff : n ∈ p.headingsOfMarker ↔ n ∈ p.body.nodes ∧
    n.hasClass "h2" "memtitle" = true ∧ mentionsMarker n = true := by
  rw [headingsOfMarker, List.mem_filter, descendants_eq, isMarkerHeading, Bool.and_eq_true]

theorem mem_traces_iff_mem : n ∈ p.traces ↔
    (∃ row ∈ p.rowsOfMarker, n ∈ markerLinks row) ∨ n ∈ p.headingsOfMarker := by
  rw [traces, List.mem_append, List.mem_flatMap]
  refine or_congr_left ⟨?_, ?_⟩
  · rintro ⟨row, hrow, hn⟩
    obtain ⟨hrow, htable⟩ := List.mem_filter.mp hrow
    obtain ⟨hbody, htr⟩ := mem_elements_iff.mp hrow
    exact ⟨row, mem_rowsOfMarker_iff.mpr ⟨hbody, htr, htable, isMarkerRow_iff.mpr ⟨n, hn⟩⟩, hn⟩
  · rintro ⟨row, hrow, hn⟩
    obtain ⟨hbody, htr, htable, -⟩ := mem_rowsOfMarker_iff.mp hrow
    exact ⟨row, List.mem_filter.mpr ⟨mem_elements_iff.mpr ⟨hbody, htr⟩, htable⟩, hn⟩

/-- A row that links to the marker afterwards was such a row before. -/
theorem KeepsTraces.exists_rowOfMarker (hp : p.Labelled) (h : p.KeepsTraces q)
    (hn : n ∈ q.rowsOfMarker) : ∃ row ∈ p.rowsOfMarker, row.label = n.label := by
  obtain ⟨hbody, htr, htable, hmarker⟩ := mem_rowsOfMarker_iff.mp hn
  obtain ⟨a, ha⟩ := isMarkerRow_iff.mp hmarker
  obtain ⟨td, htd, hcell, hroot, hlink, -⟩ := mem_markerLinks_iff.mp ha
  have htdbody := (Forest.nodes_below_sublist hbody).subset htd
  have hmem := h.labelled.mem_nodes_of_mem_body hbody
  have htdmem := h.labelled.mem_nodes_of_mem_body htdbody
  have hamem := (Forest.nodes_below_sublist htdmem).subset (Forest.roots_subset_nodes hroot)
  -- the link was a trace before, in the same cell
  obtain ⟨hlt, hbefore⟩ := h.mem_traces hp
    (List.mem_map_of_mem (mem_traces_iff_mem.mpr (.inl ⟨n, hn, ha⟩)))
  obtain ⟨a', ha', hlabel⟩ := List.mem_map.mp hbefore
  obtain ⟨ha'body, hmentions, -⟩ := (mem_traces_iff hp).mp ha'
  have ha'mem := hp.mem_nodes_of_mem_body ha'body
  have hlisted : a.label ∈ td.below.rootLabels := by
    rw [← Forest.map_label_roots]
    exact List.mem_map_of_mem hroot
  obtain ⟨td', htd', htdlabel, hlisted'⟩ := h.lists hlt ⟨td, htdmem, rfl, hlisted⟩
  have hcell' := isElement_eq (place_eq hp h.toFollows htdmem htd' htdlabel) "td"
  have hlink' := isElement_eq (place_eq hp h.toFollows hamem ha'mem hlabel) "a"
  -- the cell stood in the same row
  have htdlt : td.label < p.next := htdlabel ▸ hp.label_lt_next htd'
  have habove := List.mem_map_of_mem (f := Node.place)
    (h.labelled.mem_ancestors_iff.mpr ⟨hmem, Forest.label_mem_preorder htd⟩)
  rw [h.map_place_ancestors hp htdlt (Forest.label_mem_preorder htdbody)] at habove
  obtain ⟨row, hrow, hplace⟩ := List.mem_map.mp habove
  have hrowlabel : row.label = n.label := (Prod.mk.inj hplace).1
  have hrowmem := (hp.mem_ancestors_iff.mp hrow).1
  have hrowlt : n.label < p.next := hrowlabel ▸ hp.label_lt_next hrowmem
  have hrowbody : row ∈ p.body.nodes := by
    obtain ⟨row', hrow', hplace'⟩ := h.exists_mem_body hp hrowlt hbody
    have hsame := hrowlabel.trans (Prod.mk.inj hplace').1.symm
    rwa [Forest.eq_of_label_eq hp.nodup hrowmem (hp.mem_nodes_of_mem_body hrow') hsame]
  have hrowtable : p.inMemberTable row = q.inMemberTable n := by
    rw [inMemberTable, inMemberTable, hrowlabel]
    exact any_hasClass_eq
      (h.map_place_ancestors hp hrowlt (Forest.label_mem_preorder hbody)).symm _ _
  refine ⟨row, mem_rowsOfMarker_iff.mpr ⟨hrowbody, ?_, hrowtable.trans htable, ?_⟩, hrowlabel⟩
  · rw [isElement_eq hplace, htr]
  · refine isMarkerRow_iff.mpr ⟨a', ?_⟩
    refine mem_markerLinks_of_mem_ancestors hp ha'mem (hlink'.trans hlink) hmentions ?_
      (hcell'.trans hcell) (htdlabel ▸ hrow)
    exact hp.parent?_eq_some_iff.mpr ⟨htd', hlabel ▸ hlisted'⟩

/-- A heading that names the marker afterwards was such a heading before. -/
theorem KeepsTraces.exists_headingOfMarker (hp : p.Labelled) (h : p.KeepsTraces q)
    (hn : n ∈ q.headingsOfMarker) :
    ∃ heading ∈ p.headingsOfMarker, heading.label = n.label := by
  obtain ⟨hbody, hclass, -⟩ := mem_headingsOfMarker_iff.mp hn
  obtain ⟨hlt, hbefore⟩ :=
    h.mem_traces hp (List.mem_map_of_mem (mem_traces_iff_mem.mpr (.inr hn)))
  obtain ⟨m, hm, hlabel⟩ := List.mem_map.mp hbefore
  obtain ⟨hmbody, hmentions, -⟩ := (mem_traces_iff hp).mp hm
  have hplace := place_eq hp h.toFollows (h.labelled.mem_nodes_of_mem_body hbody)
    (hp.mem_nodes_of_mem_body hmbody) hlabel
  refine ⟨m, mem_headingsOfMarker_iff.mpr ⟨hmbody, ?_, hmentions⟩, hlabel⟩
  rw [hasClass_eq hplace, hclass]

/-- Nodes of the document that are found among others by their labels are no more than these. -/
theorem length_le_of_labels (h : q.Labelled) {ns ms : List Node} (hns : ns.Sublist q.body.nodes)
    (hms : ∀ n ∈ ns, ∃ m ∈ ms, m.label = n.label) : ns.length ≤ ms.length := by
  have hnodup : (ns.map Node.label).Nodup := by
    refine List.Nodup.sublist (hns.map Node.label) ?_
    rw [Forest.map_label_nodes]
    exact h.nodup_body
  have hsubset : ns.map Node.label ⊆ ms.map Node.label := by
    intro l hl
    obtain ⟨n, hn, rfl⟩ := List.mem_map.mp hl
    exact List.mem_map.mpr (hms n hn)
  simpa using hnodup.length_le_of_subset hsubset

/-- **No rows and no headings come to them.** -/
theorem ListsOnce.of_keepsTraces (hp : p.Labelled) (h : p.KeepsTraces q) (hone : p.ListsOnce) :
    q.ListsOnce where
  row := by
    refine Nat.le_trans (length_le_of_labels h.labelled ?_ fun n => h.exists_rowOfMarker hp)
      hone.row
    refine List.filter_sublist.trans ?_
    rw [← descendants_eq]
    exact List.filter_sublist
  heading := by
    refine Nat.le_trans (length_le_of_labels h.labelled ?_ fun n => h.exists_headingOfMarker hp)
      hone.heading
    rw [headingsOfMarker, descendants_eq]
    exact List.filter_sublist

end Rows

/-! ### The entries hold all traces -/

section Entries

variable {p : Page}

/-- What is found first in a list, where one entry is the only one that fits. -/
theorem find?_eq_some_of_length_le_one {α : Type} {q : α → Bool} {l : List α} {a : α}
    (hone : (l.filter q).length ≤ 1) (ha : a ∈ l.filter q) : l.find? q = some a := by
  rw [← List.head?_filter]
  cases hfound : l.filter q with
  | nil =>
    rw [hfound] at ha
    cases ha
  | cons b rest =>
    rw [hfound, List.length_cons] at hone
    rw [hfound] at ha
    obtain rfl : rest = [] := List.length_eq_zero_iff.mp (by omega)
    rw [List.mem_singleton.mp ha, List.head?_cons]

/-- The entries hold all traces of a page that lists the marker once. -/
theorem ListsOnce.within_markerNodes (h : p.Labelled) (hone : p.ListsOnce) {n : Node}
    (hn : n ∈ p.traces) : p.within p.markerNodes n.label = true := by
  rw [within, List.any_eq_true]
  rcases mem_traces_iff_mem.mp hn with ⟨row, hrow, hlink⟩ | hheading
  · obtain ⟨hbody, -⟩ := mem_rowsOfMarker_iff.mp hrow
    obtain ⟨td, htd, -, hroot, -⟩ := mem_markerLinks_iff.mp hlink
    have hbelow := (Forest.nodes_below_sublist htd).subset (Forest.roots_subset_nodes hroot)
    have hfound := find?_eq_some_of_length_le_one hone.row hrow
    refine ⟨row, ?_, ?_⟩
    · simp [markerNodes, hfound]
    · rw [Bool.or_eq_true, h.isDescendant_iff]
      exact .inr ⟨row, h.node?_label (h.mem_nodes_of_mem_body hbody),
        Forest.label_mem_preorder hbelow⟩
  · refine ⟨n, ?_, by simp⟩
    have hfound := find?_eq_some_of_length_le_one hone.heading hheading
    rw [List.find?_eq_head?_dropWhile_not, List.head?_eq_some_iff] at hfound
    obtain ⟨later, hlater⟩ := hfound
    have hfirst : n ∈ p.markerHeading := by
      simp only [isMarkerHeading] at hlater
      rw [markerHeading, hlater]
      exact List.mem_cons_self
    exact List.mem_append_right _ hfirst

end Entries

/-! ### What a revision leaves -/

section Revision

variable {p : Page} {content n : Node}

/-- The rows that show the documentation have no links and no headings of their own. -/
theorem mem_content_of_mem_promotedRows (hn : n ∈ (promotedRows content).nodes)
    (htitle : isTitle n = true) : n ∈ content.toForest.nodes := by
  simp only [promotedRows, Forest.ofElement, Forest.ofText, Forest.nodes_append, Forest.nodes,
    List.mem_append, List.mem_cons, List.append_nil, List.not_mem_nil, or_false] at hn
  rcases hn with (rfl | rfl | hn) | rfl | rfl | rfl
  · cases htitle
  · cases htitle
  · exact hn
  · cases htitle
  · cases htitle
  · cases htitle

/-- What is copied makes no traces if it does not name the marker in links and headings. -/
theorem mem_traces_of_mem_promote (h : p.Labelled)
    (hcontent : ∀ content ∈ p.markerContent?, ∀ n ∈ content.toForest.nodes, isTitle n = true →
      mentionsMarker n = false) (hn : n ∈ p.promote.traces) :
    n.label < p.next ∧ n.label ∈ p.traces.map Node.label := by
  have hkeeps := keepsMentions_promote h
  obtain ⟨hbody, hmentions, htrace⟩ := (mem_traces_iff hkeeps.labelled).mp hn
  have hmem := hkeeps.labelled.mem_nodes_of_mem_body hbody
  have htitle : isTitle n = true := by
    rw [isTitle, Bool.or_eq_true]
    exact htrace.elim (fun hclass => .inr (isElement_of_hasClass hclass)) fun ha => .inl ha.1
  suffices hlt : n.label < p.next from
    ⟨hlt, (hkeeps.mem_traces_iff h hlt (Forest.label_mem_preorder hbody)).mp
      (List.mem_map_of_mem hn)⟩
  rw [promote] at hmem
  cases hpromote : p.promote? with
  | none =>
    rw [hpromote] at hmem
    exact h.label_lt_next hmem
  | some q =>
    obtain ⟨content, hfound, hinsert⟩ := Option.bind_eq_some_iff.mp hpromote
    obtain ⟨table, -, rfl⟩ := Option.map_eq_some_iff.mp hinsert
    rw [hpromote, Option.getD_some] at hmem
    rcases Forest.mem_nodes_graft (g := ((promotedRows content).relabel p.next).1)
      (fun b => Forest.exists_insertAfterFirstElement _ b) hmem with ⟨m, hm, hlabel, -⟩ | hput
    · exact hlabel ▸ h.label_lt_next hm
    · -- a node of the copy is a trace no more than the node it was copied from
      obtain ⟨m, hm, hitem, htexts⟩ := Forest.mem_nodes_relabel hput
      have hsame (tag : String) : m.isElement tag = n.isElement tag := by
        rw [Node.isElement, Node.isElement, Node.localName?, Node.localName?, hitem]
      have htitle' : isTitle m = true := by
        rwa [isTitle, hsame, hsame]
      have hout := hcontent content hfound m (mem_content_of_mem_promotedRows hm htitle') htitle'
      rw [mentionsMarker_eq htexts, hmentions] at hout
      cases hout

/-- A link or heading in what is copied was one of the page, and named the marker there too. -/
theorem exists_title_of_mem_content (h : p.Labelled)
    (hcontent : content ∈ p.prepared.markerContent?) (hn : n ∈ content.toForest.nodes)
    (htitle : isTitle n = true) :
    ∃ m ∈ p.descendants, isTitle m = true ∧ mentionsMarker m = mentionsMarker n ∧
      content.holds m.label = true := by
  have hkeeps := keepsTraces_prepared h
  have hbody := Forest.nodes_toForest_subset (mem_of_markerContent? hcontent) hn
  have hmem := hkeeps.labelled.mem_nodes_of_mem_body hbody
  have hlt : n.label < p.next := next_prepared p ▸ hkeeps.labelled.label_lt_next hmem
  obtain ⟨m, hm, hplace⟩ := hkeeps.exists_mem_body h hlt hbody
  have hlabel : m.label = n.label := (Prod.mk.inj hplace).1
  obtain ⟨m', hm', hlabel', hmentions⟩ := hkeeps.mentions n hmem hlt htitle
  rw [Forest.eq_of_label_eq h.nodup hm' (h.mem_nodes_of_mem_body hm)
    (hlabel'.trans hlabel.symm)] at hmentions
  refine ⟨m, descendants_eq p ▸ hm, (isTitle_eq hplace).trans htitle, hmentions, ?_⟩
  rw [Node.holds, List.contains_iff_mem, hlabel]
  exact Forest.label_mem_preorder hn

/-- **Nothing is left of a marker that is listed once**: by one row and one heading of the page, and
by none of the links and headings in the documentation that is copied. -/
theorem unmarked_revise_of_listsOnce (h : p.Consistent) (hok : p.revise.error = none)
    (hone : p.ListsOnce)
    (hcontent : ∀ content ∈ p.prepared.markerContent?, ∀ n ∈ p.descendants, isTitle n = true →
      mentionsMarker n = true → content.holds n.label = false) : p.revise.page.Unmarked := by
  have hkeeps := keepsTraces_prepared h.toLabelled
  have hprepared := hone.of_keepsTraces h.toLabelled hkeeps
  have hpromote := keepsMentions_promote hkeeps.labelled
  refine unmarked_of_within h.toLabelled hok fun n hn => ?_
  have hcopied : ∀ content ∈ p.prepared.markerContent?, ∀ n ∈ content.toForest.nodes,
      isTitle n = true → mentionsMarker n = false := by
    intro content hfound n hn htitle
    obtain ⟨m, hm, hmtitle, hmentions, hholds⟩ :=
      exists_title_of_mem_content h.toLabelled hfound hn htitle
    rw [← hmentions, ← Bool.not_eq_true]
    intro hmarker
    rw [hcontent content hfound m hm hmtitle hmarker] at hholds
    cases hholds
  obtain ⟨hlt, htrace⟩ := mem_traces_of_mem_promote hkeeps.labelled hcopied hn
  obtain ⟨m, hm, hlabel⟩ := List.mem_map.mp htrace
  have hbody := mem_body_of_mem_traces hpromote.labelled (List.mem_map_of_mem hn)
  rw [hpromote.within_eq hkeeps.labelled hlt hbody, ← hlabel]
  exact hprepared.within_markerNodes hkeeps.labelled hm

/-- A page that lists the marker and documents it. -/
def listedPage : Page := memberPage markerRows (markerBlock ++ documented (paragraphBlock "Ships."))

example : listedPage.traces.length = 2 ∧ listedPage.prepared.markerContent?.isSome = true ∧
    listedPage.revise.page.Unmarked :=
  ⟨by decide +kernel, by decide +kernel, unmarked_revise_of_listsOnce (memberPage_consistent _ _)
    (by decide +kernel) (by decide +kernel) (by decide +kernel)⟩

end Revision

end BindingDocs.Page
