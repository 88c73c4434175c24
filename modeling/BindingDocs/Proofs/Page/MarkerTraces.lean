import BindingDocs.Proofs.Page.Consistency

/-!
# Traces of the marker

A page shows the marker in two ways: by a link in a cell of a member table, and by the heading of
its documentation.  What is done to a page leaves such traces as they are, or takes them out of the
document, or brings them in with new trees.  That rests on two facts: as long as a node stays in the
document it keeps everything above it, and links and headings name the marker before and after.

## Main definitions

* `Page.traces` — the links to the marker in member tables, and the headings that name it.
* `Page.Unmarked` — there are none.
* `Page.within` — whether a label is at or below one of several nodes.
* `Page.KeepsMentions`, `Page.KeepsTraces` — changes after which the same links and headings name
  the marker, and which make no traces.

## Main results

* `Page.Follows.map_place_ancestors` — what stays in the document keeps its place.
* `Page.mem_body_detachAll` — what is left in the document after removals.
* `Page.KeepsMentions.mem_traces_iff` — a trace is one before and after.
* `Page.KeepsTraces.mem_traces` — **changes that make no traces.**
-/

namespace BindingDocs.Page

open Page (Forest Item Node)

/-! ### What keeps its place -/

/-- What a node is known by while the tree around it changes. -/
def Node.place (n : Node) : Nat × Option Element := (n.label, n.item.element?)

theorem Follows.exists_place {p q : Page} (h : p.Follows q) {n : Node} (hn : n ∈ q.forest.nodes)
    (hlt : n.label < p.next) : ∃ m ∈ p.forest.nodes, m.place = n.place := by
  obtain ⟨m, hm, hlabel, helement⟩ := h.element n hn hlt
  exact ⟨m, hm, by rw [Node.place, Node.place, hlabel, helement]⟩

theorem place_eq {p q : Page} (hp : p.Labelled) (h : p.Follows q) {n m : Node}
    (hn : n ∈ q.forest.nodes) (hm : m ∈ p.forest.nodes) (hlabel : m.label = n.label) :
    m.place = n.place := by
  have hlt : n.label < p.next := hlabel ▸ hp.label_lt_next hm
  obtain ⟨k, hk, hplace⟩ := h.exists_place hn hlt
  rwa [Forest.eq_of_label_eq hp.nodup hm hk (hlabel.trans (Prod.mk.inj hplace).1.symm)]

/-- **What stays in the document keeps everything above it.** -/
theorem Follows.map_place_ancestors {p q : Page} (hp : p.Labelled) (h : p.Follows q) {l : Nat}
    (hlt : l < p.next) (hl : l ∈ q.body.preorder) :
    (q.ancestors l).map Node.place = (p.ancestors l).map Node.place := by
  induction l using h.labelled.upwards_induction with
  | step l ih =>
    obtain ⟨n, hn, hbody⟩ := h.labelled.exists_parent_of_mem_body hl
    obtain ⟨hmem, hchild⟩ := h.labelled.parent?_eq_some_iff.mp hn
    -- the parent in `q` was the parent in `p`, and the same element
    obtain ⟨m, hm, hlabel, hchild'⟩ := h.lists hlt ⟨n, hmem, rfl, hchild⟩
    have hm' := hp.parent?_eq_some_iff.mpr ⟨hm, hchild'⟩
    have hltn : n.label < p.next := hlabel ▸ hp.label_lt_next hm
    have hplace := place_eq hp h hmem hm hlabel
    rw [h.labelled.ancestors_eq, hn, hp.ancestors_eq, hm', List.map_cons, List.map_cons, hplace,
      hlabel]
    congr 1
    rcases hbody with hroot | hbody
    · rw [hroot, h.labelled.ancestors_root, hp.ancestors_root]
    · exact ih n hn hltn (Forest.label_mem_preorder hbody)

theorem isDescendant_eq_any (p : Page) (l a : Nat) :
    p.isDescendant l a = ((p.ancestors l).map Node.place).any (·.1 == a) := by
  rw [isDescendant, List.any_map]
  rfl

theorem Follows.isDescendant_eq {p q : Page} (hp : p.Labelled) (h : p.Follows q) {l : Nat}
    (hlt : l < p.next) (hl : l ∈ q.body.preorder) (a : Nat) :
    q.isDescendant l a = p.isDescendant l a := by
  rw [isDescendant_eq_any, isDescendant_eq_any, h.map_place_ancestors hp hlt hl]

theorem Follows.mem_body {p q : Page} (hp : p.Labelled) (h : p.Follows q) {l : Nat}
    (hlt : l < p.next) (hl : l ∈ q.body.preorder) : l ∈ p.body.preorder := by
  rw [hp.mem_body_iff, ← h.isDescendant_eq hp hlt hl, ← h.labelled.mem_body_iff]
  exact hl

/-- A node of the document stood there before, at the same place. -/
theorem Follows.exists_mem_body {p q : Page} (hp : p.Labelled) (h : p.Follows q) {n : Node}
    (hlt : n.label < p.next) (hn : n ∈ q.body.nodes) : ∃ m ∈ p.body.nodes, m.place = n.place := by
  obtain ⟨m, hm, hlabel⟩ :=
    Forest.exists_node_of_mem_preorder (h.mem_body hp hlt (Forest.label_mem_preorder hn))
  exact ⟨m, hm, place_eq hp h (h.labelled.mem_nodes_of_mem_body hn)
    (hp.mem_nodes_of_mem_body hm) hlabel⟩

/-! ### What is left after removals -/

section Removal

variable {p : Page}

/-- Whether a label is at or below one of several nodes. -/
def within (p : Page) (ns : List Node) (l : Nat) : Bool :=
  ns.any fun n => l == n.label || p.isDescendant l n.label

theorem Follows.within_eq {q : Page} (hp : p.Labelled) (h : p.Follows q) {l : Nat}
    (hlt : l < p.next) (hl : l ∈ q.body.preorder) (ns : List Node) :
    q.within ns l = p.within ns l := by
  simp only [within, h.isDescendant_eq hp hlt hl]

theorem lt_next_of_mem_body (h : p.Labelled) {l : Nat} (hl : l ∈ p.body.preorder) :
    l < p.next := by
  obtain ⟨n, hn, rfl⟩ := Forest.exists_node_of_mem_preorder hl
  exact h.label_lt_next (h.mem_nodes_of_mem_body hn)

/-- The document when a node is taken out of the page. -/
theorem body_detach (h : p.Labelled) {d : Nat} (hd : d ≠ root) :
    (p.detach d).body = p.body.without d := by
  obtain ⟨rest, hforest⟩ := h.exists_forest_eq
  rw [detach]
  split
  · rw [body, document, node?, hforest, Forest.without, if_neg (Ne.symm hd), Forest.cons_append,
      Forest.find?, if_pos rfl]
    rfl
  · next hnone =>
    -- a node without parent does not stand in the document
    refine (Forest.without_eq_self fun hbody => ?_).symm
    obtain ⟨parent, hparent, -⟩ := h.exists_parent_of_mem_body hbody
    obtain ⟨n, hn, rfl⟩ := Forest.exists_node_of_mem_preorder hbody
    exact hnone parent n hparent (h.node?_label (h.mem_nodes_of_mem_body hn))

/-- What is left in the document when a node is taken out. -/
theorem mem_body_detach (h : p.Labelled) {d l : Nat} (hd : d ≠ root) :
    l ∈ (p.detach d).body.preorder ↔
      l ∈ p.body.preorder ∧ l ≠ d ∧ p.isDescendant l d = false := by
  have hnodup := h.nodup_body
  rw [body_detach h hd]
  by_cases hbody : d ∈ p.body.preorder
  · obtain ⟨n, hn, rfl⟩ := Forest.exists_node_of_mem_preorder hbody
    have hnode := h.node?_label (h.mem_nodes_of_mem_body hn)
    have hperm := Forest.preorder_without hnodup ((Forest.find?_eq_some_iff hnodup).mpr ⟨hn, rfl⟩)
    have hinside : l ∈ n.toForest.preorder ↔ l = n.label ∨ p.isDescendant l n.label = true := by
      rw [h.isDescendant_iff, hnode]
      simp [Node.toForest, Forest.preorder]
    rw [hperm.mem_iff, List.mem_append, ← Bool.not_eq_true, ← not_or, ← hinside]
    have hapart := (List.nodup_append.mp (hperm.nodup_iff.mp hnodup)).2.2
    constructor
    · intro hl
      exact ⟨.inl hl, fun hin => hapart l hl l hin rfl⟩
    · rintro ⟨hl | hl, hout⟩
      · exact hl
      · exact absurd hl hout
  · -- the document stays as it is, and nothing in it is below `d`
    rw [Forest.without_eq_self hbody]
    refine ⟨fun hl => ⟨hl, fun heq => hbody (heq ▸ hl), ?_⟩, fun hl => hl.1⟩
    rw [isDescendant, List.any_eq_false]
    intro n hn heq
    rw [beq_iff_eq] at heq
    rcases h.mem_body_of_mem_ancestors hl hn with hroot | hin
    · exact hd (heq.symm.trans hroot)
    · exact hbody (heq ▸ Forest.label_mem_preorder hin)

/-- **What is left in the document after removals**: what stood neither at nor below the nodes. -/
theorem mem_body_detachAll (h : p.Labelled) {ns : List Node} (hns : ∀ n ∈ ns, n.label ≠ root)
    {l : Nat} : l ∈ (p.detachAll ns).body.preorder ↔
      l ∈ p.body.preorder ∧ p.within ns l = false := by
  induction ns generalizing p with
  | nil => simp [detachAll, within]
  | cons n ns ih =>
    rw [List.forall_mem_cons] at hns
    have hfollows := follows_detach h n.label
    have hstep := mem_body_detach h (d := n.label) (l := l) hns.1
    have hwithin (hl : l ∈ (p.detach n.label).body.preorder) :
        (p.detach n.label).within ns l = p.within ns l :=
      hfollows.within_eq h (lt_next_of_mem_body h (hstep.mp hl).1) hl ns
    have hcons : p.within (n :: ns) l = false ↔
        (l ≠ n.label ∧ p.isDescendant l n.label = false) ∧ p.within ns l = false := by
      simp [within]
    rw [detachAll, List.foldl_cons, ← detachAll, ih hfollows.labelled hns.2, hcons]
    constructor
    · rintro ⟨hl, hout⟩
      exact ⟨(hstep.mp hl).1, (hstep.mp hl).2, hwithin hl ▸ hout⟩
    · rintro ⟨hl, hne, hout⟩
      have hleft := hstep.mpr ⟨hl, hne⟩
      exact ⟨hleft, (hwithin hleft).trans hout⟩

end Removal

/-! ### Traces -/

/-- Whether a node is a heading that names the marker. -/
def isMarkerHeading (n : Node) : Bool := n.hasClass "h2" "memtitle" && mentionsMarker n

/-- The links to the marker in the cells of a row. -/
def markerLinks (row : Node) : List Node :=
  (row.elements "td").flatMap fun td =>
    td.elementChildren.filter fun a => a.isElement "a" && mentionsMarker a

/-- The links to the marker in member tables, and the headings that name it. -/
def traces (p : Page) : List Node :=
  ((p.elements "tr").filter p.inMemberTable).flatMap markerLinks ++
    p.descendants.filter isMarkerHeading

/-- No row of a member table links to the marker, and no heading names it. -/
def Unmarked (p : Page) : Prop :=
  (∀ row ∈ p.elements "tr", p.inMemberTable row = true → isMarkerRow row = false) ∧
    ∀ n ∈ p.descendants, isMarkerHeading n = false

theorem isMarkerRow_eq_false_iff {row : Node} : isMarkerRow row = false ↔ markerLinks row = [] := by
  simp [markerLinks, isMarkerRow]

theorem isMarkerRow_iff {row : Node} : isMarkerRow row = true ↔ ∃ n, n ∈ markerLinks row := by
  rw [← Bool.not_eq_false, isMarkerRow_eq_false_iff]
  exact ⟨List.exists_mem_of_ne_nil _, fun ⟨_, hn⟩ => List.ne_nil_of_mem hn⟩

theorem traces_eq_nil_iff {p : Page} : p.traces = [] ↔ p.Unmarked := by
  simp only [Unmarked, traces, List.append_eq_nil_iff, List.flatMap_eq_nil_iff, List.mem_filter,
    isMarkerRow_eq_false_iff, List.filter_eq_nil_iff, Bool.not_eq_true, and_imp]

/-- Whether among nodes, from the nearest on, there is a row of a member table. -/
def inRow : List Node → Bool
  | [] => false
  | row :: above =>
    row.isElement "tr" && above.any (·.hasClass "table" "memberdecls") || inRow above

/-- Whether nodes, from the nearest on, begin with a cell in a row of a member table. -/
def inCell : List Node → Bool
  | [] => false
  | td :: above => td.isElement "td" && inRow above

section Places

variable {n m : Node} {ns ms : List Node}

theorem isElement_eq (h : n.place = m.place) (tag : String) :
    n.isElement tag = m.isElement tag := by
  rw [Node.isElement, Node.isElement, Node.localName?, Node.localName?, (Prod.mk.inj h).2]

theorem hasClass_eq (h : n.place = m.place) (tag cls : String) :
    n.hasClass tag cls = m.hasClass tag cls := by
  rw [Node.hasClass, Node.hasClass, isElement_eq h, Node.attr?, Node.attr?, (Prod.mk.inj h).2]

theorem any_hasClass_eq (h : ns.map Node.place = ms.map Node.place) (tag cls : String) :
    ns.any (·.hasClass tag cls) = ms.any (·.hasClass tag cls) := by
  induction ns generalizing ms with
  | nil =>
    rw [List.map_nil, eq_comm, List.map_eq_nil_iff] at h
    rw [h]
  | cons n ns ih =>
    obtain ⟨m, ms, rfl, hm, hms⟩ := List.map_eq_cons_iff.mp h.symm
    rw [List.any_cons, List.any_cons, hasClass_eq hm, ih hms.symm]

theorem inRow_eq (h : ns.map Node.place = ms.map Node.place) : inRow ns = inRow ms := by
  induction ns generalizing ms with
  | nil =>
    rw [List.map_nil, eq_comm, List.map_eq_nil_iff] at h
    rw [h]
  | cons n ns ih =>
    obtain ⟨m, ms, rfl, hm, hms⟩ := List.map_eq_cons_iff.mp h.symm
    rw [inRow, inRow, isElement_eq hm, any_hasClass_eq hms, ih hms.symm]

theorem inCell_eq (h : ns.map Node.place = ms.map Node.place) : inCell ns = inCell ms := by
  cases ns with
  | nil =>
    rw [List.map_nil, eq_comm, List.map_eq_nil_iff] at h
    rw [h]
  | cons n ns =>
    obtain ⟨m, ms, rfl, hm, hms⟩ := List.map_eq_cons_iff.mp h.symm
    rw [inCell, inCell, isElement_eq hm, inRow_eq hms]

end Places

section Traces

variable {p : Page} {n : Node}

theorem item_isElement {tag : String} (h : n.isElement tag = true) : n.item.isElement = true := by
  rw [Node.isElement, Node.localName?, beq_iff_eq, Option.map_eq_some_iff] at h
  obtain ⟨e, he, -⟩ := h
  rw [Item.isElement, he]
  rfl

theorem isElement_of_hasClass {tag cls : String} (h : n.hasClass tag cls = true) :
    n.isElement tag = true := by
  rw [Node.hasClass, Bool.and_eq_true] at h
  exact h.1

theorem inRow_ancestors (h : p.Labelled) {l : Nat} : inRow (p.ancestors l) = true ↔
    ∃ row ∈ p.ancestors l, row.isElement "tr" = true ∧ p.inMemberTable row = true := by
  induction l using h.upwards_induction with
  | step l ih =>
    rw [h.ancestors_eq]
    cases hparent : p.parent? l with
    | none => simp [inRow]
    | some row =>
      simp only [inRow, Bool.or_eq_true, Bool.and_eq_true, ih row hparent, List.mem_cons,
        or_and_right, exists_or, exists_eq_left, inMemberTable]

theorem mem_markerLinks_iff {row : Node} : n ∈ markerLinks row ↔
    ∃ td ∈ row.below.nodes, td.isElement "td" = true ∧ n ∈ td.below.roots ∧
      n.isElement "a" = true ∧ mentionsMarker n = true := by
  simp only [markerLinks, List.mem_flatMap, Node.mem_elements_iff, Node.elementChildren,
    List.mem_filter, Bool.and_eq_true]
  constructor
  · rintro ⟨td, ⟨htd, hcell⟩, ⟨hn, -⟩, ha, hmentions⟩
    exact ⟨td, htd, hcell, hn, ha, hmentions⟩
  · rintro ⟨td, htd, hcell, hn, ha, hmentions⟩
    exact ⟨td, ⟨htd, hcell⟩, ⟨hn, item_isElement ha⟩, ha, hmentions⟩

/-- The nodes above a link to the marker. -/
theorem inCell_of_mem_markerLinks (h : p.Labelled) {row : Node} (hrow : row ∈ p.body.nodes)
    (htr : row.isElement "tr" = true) (htable : p.inMemberTable row = true)
    (hn : n ∈ markerLinks row) :
    n ∈ p.body.nodes ∧ inCell (p.ancestors n.label) = true := by
  obtain ⟨td, htd, hcell, hroot, -⟩ := mem_markerLinks_iff.mp hn
  have htdbody := (Forest.nodes_below_sublist hrow).subset htd
  have hlisted : n.label ∈ td.below.rootLabels := by
    rw [← Forest.map_label_roots]
    exact List.mem_map_of_mem hroot
  have hparent := h.parent?_eq_some_iff.mpr ⟨h.mem_nodes_of_mem_body htdbody, hlisted⟩
  have habove := h.mem_ancestors_iff.mpr
    ⟨h.mem_nodes_of_mem_body hrow, Forest.label_mem_preorder htd⟩
  refine ⟨(Forest.nodes_below_sublist htdbody).subset (Forest.roots_subset_nodes hroot), ?_⟩
  rw [h.ancestors_eq, hparent, inCell, Bool.and_eq_true, inRow_ancestors h]
  exact ⟨hcell, row, habove, htr, htable⟩

/-- A link to the marker in a cell is one of those of every row around the cell. -/
theorem mem_markerLinks_of_mem_ancestors (h : p.Labelled) {td row : Node} (hn : n ∈ p.forest.nodes)
    (ha : n.isElement "a" = true) (hmentions : mentionsMarker n = true)
    (hparent : p.parent? n.label = some td) (hcell : td.isElement "td" = true)
    (hrow : row ∈ p.ancestors td.label) : n ∈ markerLinks row := by
  obtain ⟨htd, hlisted⟩ := h.parent?_eq_some_iff.mp hparent
  obtain ⟨hmem, hbelow⟩ := h.mem_ancestors_iff.mp hrow
  have htdrow : td ∈ row.below.nodes := by
    obtain ⟨td', htd', hlabel⟩ := Forest.exists_node_of_mem_preorder hbelow
    have htd'mem := (Forest.nodes_below_sublist hmem).subset htd'
    rwa [← Forest.eq_of_label_eq h.nodup htd'mem htd hlabel]
  have hntd : n ∈ td.below.roots := by
    rw [← Forest.map_label_roots, List.mem_map] at hlisted
    obtain ⟨n', hn', hlabel⟩ := hlisted
    have hn'mem := (Forest.nodes_below_sublist htd).subset (Forest.roots_subset_nodes hn')
    rwa [← Forest.eq_of_label_eq h.nodup hn'mem hn hlabel]
  exact mem_markerLinks_iff.mpr ⟨td, htdrow, hcell, hntd, ha, hmentions⟩

/-- A link to the marker below a cell of a member table is one of those of its row. -/
theorem exists_row_of_inCell (h : p.Labelled) (hn : n ∈ p.body.nodes)
    (ha : n.isElement "a" = true) (hmentions : mentionsMarker n = true)
    (hplace : inCell (p.ancestors n.label) = true) :
    ∃ row ∈ p.body.nodes, row.isElement "tr" = true ∧ p.inMemberTable row = true ∧
      n ∈ markerLinks row := by
  obtain ⟨td, hparent, htd⟩ := h.exists_parent_of_mem_body (Forest.label_mem_preorder hn)
  rw [h.ancestors_eq, hparent, inCell, Bool.and_eq_true, inRow_ancestors h] at hplace
  obtain ⟨hcell, row, hrow, htr, htable⟩ := hplace
  -- the document is no cell and no row, since nothing stands above it
  replace htd : td ∈ p.body.nodes := by
    refine htd.resolve_left fun hroot => ?_
    rw [hroot, h.ancestors_root] at hrow
    cases hrow
  have hrowbody : row ∈ p.body.nodes := by
    refine (h.mem_body_of_mem_ancestors (Forest.label_mem_preorder htd) hrow).resolve_left ?_
    intro hroot
    rw [inMemberTable, hroot, h.ancestors_root] at htable
    cases htable
  exact ⟨row, hrowbody, htr, htable, mem_markerLinks_of_mem_ancestors h
    (h.mem_nodes_of_mem_body hn) ha hmentions hparent hcell hrow⟩

/-- **A trace by what it is and what stands above it.** -/
theorem mem_traces_iff (h : p.Labelled) : n ∈ p.traces ↔
    n ∈ p.body.nodes ∧ mentionsMarker n = true ∧ (n.hasClass "h2" "memtitle" = true ∨
      n.isElement "a" = true ∧ inCell (p.ancestors n.label) = true) := by
  rw [traces, List.mem_append, List.mem_flatMap, List.mem_filter, descendants_eq, isMarkerHeading,
    Bool.and_eq_true]
  constructor
  · rintro (⟨row, hrow, hlink⟩ | ⟨hn, hclass, hmentions⟩)
    · obtain ⟨hrow, htable⟩ := List.mem_filter.mp hrow
      obtain ⟨hrow, htr⟩ := mem_elements_iff.mp hrow
      obtain ⟨-, -, -, -, ha, hmentions⟩ := mem_markerLinks_iff.mp hlink
      obtain ⟨hn, hplace⟩ := inCell_of_mem_markerLinks h hrow htr htable hlink
      exact ⟨hn, hmentions, .inr ⟨ha, hplace⟩⟩
    · exact ⟨hn, hmentions, .inl hclass⟩
  · rintro ⟨hn, hmentions, hclass | ⟨ha, hplace⟩⟩
    · exact .inr ⟨hn, hclass, hmentions⟩
    · obtain ⟨row, hrow, htr, htable, hlink⟩ := exists_row_of_inCell h hn ha hmentions hplace
      exact .inl ⟨row, List.mem_filter.mpr ⟨mem_elements_iff.mpr ⟨hrow, htr⟩, htable⟩, hlink⟩

theorem mem_body_of_mem_traces (h : p.Labelled) {l : Nat} (hl : l ∈ p.traces.map Node.label) :
    l ∈ p.body.preorder := by
  obtain ⟨n, hn, rfl⟩ := List.mem_map.mp hl
  exact Forest.label_mem_preorder ((mem_traces_iff h).mp hn).1

end Traces

/-! ### Changes that make no traces -/

/-- Whether a node is a link or a heading. -/
def isTitle (n : Node) : Bool := n.isElement "a" || n.isElement "h2"

/-- The page `q` came from `p` by changes after which the same links and headings name the
marker. -/
structure KeepsMentions (p q : Page) : Prop extends Follows p q where
  mentions : ∀ n ∈ q.forest.nodes, n.label < p.next → isTitle n = true →
    ∃ m ∈ p.forest.nodes, m.label = n.label ∧ mentionsMarker m = mentionsMarker n

/-- The page `q` came from `p` by changes after which the same links and headings name the marker,
and which put no headings and no links in cells into it. -/
structure KeepsTraces (p q : Page) : Prop extends KeepsMentions p q where
  heading : ∀ n ∈ q.forest.nodes, p.next ≤ n.label → n.isElement "h2" = false
  link : ∀ n ∈ q.forest.nodes, p.next ≤ n.label → n.isElement "a" = true →
    ∀ m ∈ q.forest.nodes, n.label ∈ m.below.rootLabels → m.isElement "td" = false

theorem mentionsMarker_eq {n m : Node} (h : n.below.texts = m.below.texts) :
    mentionsMarker n = mentionsMarker m := by
  have htexts : n.directTexts = m.directTexts := h
  rw [mentionsMarker, mentionsMarker, Page.mentions, Page.mentions, Node.ownText, Node.ownText,
    htexts]

theorem isTitle_eq {n m : Node} (h : n.place = m.place) : isTitle n = isTitle m := by
  rw [isTitle, isTitle, isElement_eq h, isElement_eq h]

namespace KeepsMentions

variable {p q r : Page}

theorem refl (h : p.Labelled) : p.KeepsMentions p :=
  ⟨.refl h, fun n hn _ _ => ⟨n, hn, rfl, rfl⟩⟩

theorem trans (hpq : p.KeepsMentions q) (hqr : q.KeepsMentions r) : p.KeepsMentions r where
  toFollows := hpq.toFollows.trans hqr.toFollows
  mentions := by
    intro n hn hlt htitle
    have hltq := Nat.lt_of_lt_of_le hlt hpq.next_le
    obtain ⟨m, hm, hlabel, hmentions⟩ := hqr.mentions n hn hltq htitle
    have hplace := place_eq hpq.labelled hqr.toFollows hn hm hlabel
    obtain ⟨k, hk, hlabel', hmentions'⟩ :=
      hpq.mentions m hm (hlabel ▸ hlt) ((isTitle_eq hplace).trans htitle)
    exact ⟨k, hk, hlabel'.trans hlabel, hmentions'.trans hmentions⟩

/-- **A node that stays in the document is a trace before and after.** -/
theorem mem_traces_iff (hp : p.Labelled) (h : p.KeepsMentions q) {l : Nat} (hlt : l < p.next)
    (hl : l ∈ q.body.preorder) :
    l ∈ q.traces.map Node.label ↔ l ∈ p.traces.map Node.label := by
  obtain ⟨n, hn, rfl⟩ := Forest.exists_node_of_mem_preorder hl
  obtain ⟨m, hm, hplace⟩ := h.exists_mem_body hp hlt hn
  have hlabel : m.label = n.label := (Prod.mk.inj hplace).1
  have hnmem := h.labelled.mem_nodes_of_mem_body hn
  have hmmem := hp.mem_nodes_of_mem_body hm
  have hpath : inCell (q.ancestors n.label) = inCell (p.ancestors m.label) := by
    rw [hlabel]
    exact inCell_eq (h.map_place_ancestors hp hlt hl)
  have hmentions (htitle : isTitle n = true) : mentionsMarker n = mentionsMarker m := by
    obtain ⟨k, hk, hklabel, hmentions⟩ := h.mentions n hnmem hlt htitle
    rw [← hmentions, Forest.eq_of_label_eq hp.nodup hk hmmem (hklabel.trans hlabel.symm)]
  have hiff : n ∈ q.traces ↔ m ∈ p.traces := by
    rw [Page.mem_traces_iff h.labelled, Page.mem_traces_iff hp, hasClass_eq hplace,
      isElement_eq hplace, hpath]
    by_cases htitle : isTitle n = true
    · rw [hmentions htitle]
      simp only [hn, hm, true_and]
    · rw [isTitle, Bool.or_eq_true, not_or] at htitle
      have hheading : ¬ n.hasClass "h2" "memtitle" = true :=
        fun hclass => htitle.2 (isElement_of_hasClass hclass)
      simp [htitle.1, hheading]
  have hlabels (p : Page) (hp : p.Labelled) {k : Node} (hk : k ∈ p.body.nodes) :
      k.label ∈ p.traces.map Node.label ↔ k ∈ p.traces := by
    refine ⟨fun hmem => ?_, List.mem_map_of_mem⟩
    obtain ⟨k', hk', hlabel⟩ := List.mem_map.mp hmem
    have hk'body := ((Page.mem_traces_iff hp).mp hk').1
    rwa [← Forest.eq_of_label_eq hp.nodup_body hk'body hk hlabel]
  rw [hlabels q h.labelled hn, hiff, ← hlabel, hlabels p hp hm]

end KeepsMentions

namespace KeepsTraces

variable {p q r : Page}

theorem of_next_eq (h : p.KeepsMentions q) (hnext : q.next = p.next) : p.KeepsTraces q := by
  have hlt {n : Node} (hn : n ∈ q.forest.nodes) : n.label < p.next :=
    hnext ▸ h.labelled.label_lt_next hn
  refine ⟨h, fun n hn hle => ?_, fun n hn hle => ?_⟩
  · exact absurd hle (Nat.not_le.mpr (hlt hn))
  · exact absurd hle (Nat.not_le.mpr (hlt hn))

theorem refl (h : p.Labelled) : p.KeepsTraces p := of_next_eq (.refl h) rfl

theorem trans (hpq : p.KeepsTraces q) (hqr : q.KeepsTraces r) : p.KeepsTraces r where
  toKeepsMentions := hpq.toKeepsMentions.trans hqr.toKeepsMentions
  heading := by
    intro n hn hle
    rcases Nat.lt_or_ge n.label q.next with hlt | hge
    · obtain ⟨m, hm, hplace⟩ := hqr.exists_place hn hlt
      have hlabel := (Prod.mk.inj hplace).1
      rw [← isElement_eq hplace]
      exact hpq.heading m hm (hlabel ▸ hle)
    · exact hqr.heading n hn hge
  link := by
    intro n hn hle ha m hm hlisted
    rcases Nat.lt_or_ge n.label q.next with hlt | hge
    · -- the link stands in `q` already, and there in the same node
      obtain ⟨k, hk, hplace⟩ := hqr.exists_place hn hlt
      have hlabel : k.label = n.label := (Prod.mk.inj hplace).1
      obtain ⟨b, hb, hblabel, hblisted⟩ := hqr.lists hlt ⟨m, hm, rfl, hlisted⟩
      rw [← isElement_eq (place_eq hpq.labelled hqr.toFollows hm hb hblabel)]
      refine hpq.link k hk (hlabel ▸ hle) ?_ b hb (hlabel ▸ hblisted)
      rw [isElement_eq hplace, ha]
    · exact hqr.link n hn hge ha m hm hlisted

/-- Such changes make no traces. -/
theorem mem_traces (hp : p.Labelled) (h : p.KeepsTraces q) {l : Nat}
    (hl : l ∈ q.traces.map Node.label) : l < p.next ∧ l ∈ p.traces.map Node.label := by
  obtain ⟨n, hn, rfl⟩ := List.mem_map.mp hl
  obtain ⟨hbody, -, htrace⟩ := (mem_traces_iff h.labelled).mp hn
  have hmem := h.labelled.mem_nodes_of_mem_body hbody
  have hlt : n.label < p.next := by
    refine Nat.lt_of_not_le fun hle => ?_
    rcases htrace with hclass | ⟨ha, hplace⟩
    · have hheading := h.heading n hmem hle
      rw [isElement_of_hasClass hclass] at hheading
      cases hheading
    · obtain ⟨td, hparent, -⟩ :=
        h.labelled.exists_parent_of_mem_body (Forest.label_mem_preorder hbody)
      obtain ⟨htd, hlisted⟩ := h.labelled.parent?_eq_some_iff.mp hparent
      have hcell := h.link n hmem hle ha td htd hlisted
      rw [h.labelled.ancestors_eq, hparent, inCell, hcell] at hplace
      cases hplace
  exact ⟨hlt, (h.toKeepsMentions.mem_traces_iff hp hlt (Forest.label_mem_preorder hbody)).mp hl⟩

end KeepsTraces

/-- The label is given, and to nothing but an element of this name. -/
def GivenTo (p : Page) (tag : String) (l : Nat) : Prop :=
  l < p.next ∧ ∀ n ∈ p.forest.nodes, n.label = l → n.isElement tag = true

theorem Labelled.givenTo {p : Page} (h : p.Labelled) {n : Node} {tag : String}
    (hn : n ∈ p.forest.nodes) (htag : n.isElement tag = true) : p.GivenTo tag n.label := by
  refine ⟨h.label_lt_next hn, fun m hm hlabel => ?_⟩
  rwa [Forest.eq_of_label_eq h.nodup hm hn hlabel]

theorem Follows.givenTo {p q : Page} (h : p.Follows q) {tag : String} {l : Nat}
    (hl : p.GivenTo tag l) : q.GivenTo tag l := by
  refine ⟨Nat.lt_of_lt_of_le hl.1 h.next_le, fun n hn hlabel => ?_⟩
  obtain ⟨m, hm, hplace⟩ := h.exists_place hn (hlabel ▸ hl.1)
  rw [← isElement_eq hplace]
  exact hl.2 m hm ((Prod.mk.inj hplace).1.trans hlabel)

theorem eq_of_isElement {n : Node} {tag tag' : String} (h : n.isElement tag = true)
    (h' : n.isElement tag' = true) : tag = tag' := by
  rw [Node.isElement, beq_iff_eq] at h h'
  exact Option.some.inj (h.symm.trans h')

theorem isTitle_eq_false {n : Node} {tag : String} (h : n.isElement tag = true)
    (ha : tag ≠ "a") (hh2 : tag ≠ "h2") : isTitle n = false := by
  rw [isTitle, Bool.or_eq_false_iff, ← Bool.not_eq_true, ← Bool.not_eq_true]
  exact ⟨fun h' => ha (eq_of_isElement h h'), fun h' => hh2 (eq_of_isElement h h')⟩

/-- No element of this name stands in the trees. -/
def Forest.Lacks (f : Forest) (tag : String) : Prop := ∀ n ∈ f.nodes, n.isElement tag = false

theorem Forest.Lacks.relabel {f : Forest} {tag : String} {k : Nat} {n : Node} (h : f.Lacks tag)
    (hn : n ∈ (f.relabel k).1.nodes) : n.isElement tag = false := by
  obtain ⟨m, hm, hitem, -⟩ := Forest.mem_nodes_relabel hn
  have hlacks := h m hm
  rwa [Node.isElement, Node.localName?, hitem] at hlacks

section Changes

variable {p : Page} {l : Nat} {tag : String}

/-- Taking an element out of its tree. -/
theorem keepsTraces_detach (h : p.Labelled) (hl : p.GivenTo tag l) :
    p.KeepsTraces (p.detach l) := by
  have hfollows := follows_detach h l
  rw [detach] at hfollows ⊢
  split
  · next _ n hparent hnode =>
    simp only [hparent, hnode] at hfollows
    refine .of_next_eq ⟨hfollows, ?_⟩ rfl
    intro m hm _ _
    have hmem := (h.node?_eq_some_iff.mp hnode).1
    rw [Forest.nodes_append, List.mem_append] at hm
    rcases hm with hm | hm
    · obtain ⟨k, hk, rfl⟩ := Forest.mem_nodes_without hm
      refine ⟨k, hk, rfl, mentionsMarker_eq (Forest.texts_without fun m hm hlabel => ?_).symm⟩
      have helement := item_isElement
        (hl.2 m ((Forest.nodes_below_sublist hk).subset hm) hlabel)
      cases hitem : m.item with
      | text content =>
        rw [hitem] at helement
        cases helement
      | _ => rfl
    · exact ⟨m, Forest.nodes_toForest_subset hmem hm, rfl, rfl⟩
  · exact .refl h

/-- Taking the children out of a node that is no link and no heading. -/
theorem keepsTraces_clear (h : p.Labelled) (hl : p.GivenTo tag l) (ha : tag ≠ "a")
    (hh2 : tag ≠ "h2") : p.KeepsTraces (p.clear l) := by
  have hfollows := follows_clear h l
  rw [clear] at hfollows ⊢
  split
  · next n hnode =>
    simp only [hnode] at hfollows
    refine .of_next_eq ⟨hfollows, ?_⟩ rfl
    intro m hm _ htitle
    rcases List.mem_append.mp (Forest.nodes_append _ _ ▸ hm) with hm | hm
    · rcases Forest.mem_nodes_updateBelow hm with ⟨k, hk, hlabel, hitem, htexts⟩ | ⟨k, -, -, hempty⟩
      · refine ⟨k, hk, hlabel, mentionsMarker_eq (htexts fun hkl => ?_)⟩
        have hplace : k.place = m.place := by rw [Node.place, Node.place, hlabel, hitem]
        rw [← isTitle_eq hplace, isTitle_eq_false (hl.2 k hk hkl) ha hh2] at htitle
        cases htitle
      · simp [Forest.nodes] at hempty
    · have hmem := (h.node?_eq_some_iff.mp hnode).1
      exact ⟨m, (Forest.nodes_below_sublist hmem).subset hm, rfl, rfl⟩
  · exact .refl h

/-- Putting copies of trees into a node that is no link and no heading. -/
theorem keepsMentions_graft {u : Forest → Forest} (h : p.Labelled) (hl : p.GivenTo tag l)
    (ha : tag ≠ "a") (hh2 : tag ≠ "h2") (f : Forest)
    (hu : ∀ b, ∃ before after, b = before ++ after ∧
      u b = before ++ ((f.relabel p.next).1 ++ after)) :
    p.KeepsMentions ⟨p.forest.updateBelow l u, (f.relabel p.next).2⟩ where
  toFollows := follows_graft h l f hu
  mentions := by
    intro n hn hlt htitle
    rcases Forest.mem_nodes_graft hu hn with ⟨m, hm, hlabel, hitem, htexts⟩ | hput
    · refine ⟨m, hm, hlabel, mentionsMarker_eq (htexts fun hml => ?_)⟩
      have hplace : m.place = n.place := by rw [Node.place, Node.place, hlabel, hitem]
      rw [← isTitle_eq hplace, isTitle_eq_false (hl.2 m hm hml) ha hh2] at htitle
      cases htitle
    · have hnew := Forest.label_mem_preorder hput
      rw [Forest.preorder_relabel, List.mem_range'_1] at hnew
      omega

/-- Putting copies of trees after the children of a node that is no link and no heading.  They hold
no headings, and no links or none that come into a cell. -/
theorem keepsTraces_append (h : p.Labelled) (hl : p.GivenTo tag l) (ha : tag ≠ "a")
    (hh2 : tag ≠ "h2") {f : Forest} (hheading : f.Lacks "h2")
    (hlink : f.Lacks "a" ∨ f.Lacks "td" ∧ tag ≠ "td") : p.KeepsTraces (p.append l f) := by
  have hu (b : Forest) : ∃ before after, b = before ++ after ∧
      b ++ (f.relabel p.next).1 = before ++ ((f.relabel p.next).1 ++ after) :=
    ⟨b, .nil, by simp, by simp⟩
  have hnew {n : Node} (hn : n ∈ (p.append l f).forest.nodes) (hle : p.next ≤ n.label) :
      n ∈ (f.relabel p.next).1.nodes := by
    refine (Forest.mem_nodes_graft hu hn).resolve_left ?_
    rintro ⟨m, hm, hlabel, -⟩
    exact Nat.not_lt.mpr hle (hlabel ▸ h.label_lt_next hm)
  refine ⟨keepsMentions_graft h hl ha hh2 f hu, fun n hn hle => hheading.relabel (hnew hn hle), ?_⟩
  intro n hn hle hna m hm hlisted
  rcases hlink with hlink | ⟨hcell, htd⟩
  · rw [hlink.relabel (hnew hn hle)] at hna
    cases hna
  · -- a new node is listed by the node at `l` or by a new node
    rcases Forest.lists_graft hu ⟨m, hm, rfl, hlisted⟩ with hold | ⟨hml, -⟩ | hinside
    · exact absurd (h.lt_next _ hold.mem_preorder) (Nat.not_lt.mpr hle)
    · have hgiven := ((follows_append h l f).givenTo hl).2 m hm hml
      rw [← Bool.not_eq_true]
      exact fun h' => htd (eq_of_isElement hgiven h')
    · have hmle := hinside.mem_preorder_left
      rw [Forest.preorder_relabel, List.mem_range'_1] at hmle
      exact hcell.relabel (hnew hm hmle.1)

end Changes

end BindingDocs.Page
