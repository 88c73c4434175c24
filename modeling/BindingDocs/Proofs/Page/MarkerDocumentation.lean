import BindingDocs.Proofs.Page.Insertion
import BindingDocs.Proofs.Page.MarkerRemoval

/-!
# The documentation of the marker

The documentation of a listing is written in the block of the marker method.  It is copied into a
row of its own, and this row and a separator are put after the first row of the listing.  The
content, the listing and the place in it are looked for one after the other, so they may stand
inside of one another; what is put in is a copy all the same, and nothing else changes.

What is copied is not always documentation of the marker.  A block without elements in it is passed
over, and the search goes on through the blocks after it, which belong to other members.

## Main definitions

* `Page.listing?` — the first member table.
* `Page.ShowsCopy` — a copy stands at the top of a listing.
* `Page.MarkerBlock` — the cell with the name of the marker, and the block after it.
* `Page.PromotesOwn` — what is promoted is the first element in that block.

## Main results

* `Page.promote_cases` — **what promoting the documentation changes.**
* `Page.promotesOwn_iff` — **when it is the documentation of the marker that is promoted.**
-/

namespace BindingDocs.Page

open Page (Forest Item Node)

/-- The table at whose top the documentation is shown. -/
def listing? (p : Page) : Option Node :=
  (p.elements "table").find? (·.hasClass "table" "memberdecls")

/-- The page with a copy of `content?` at the top of its listing, if there are both. -/
def promoting? (p : Page) (content? : Option Node) : Option Page :=
  content?.bind fun content => p.listing?.map fun listing =>
    p.insertAfterFirstElement listing.rowContainer.label (promotedRows content)

theorem promoting?_eq_none_iff {p : Page} {content? : Option Node} :
    p.promoting? content? = none ↔ content? = none ∨ p.listing? = none := by
  cases content? with
  | none => simp [promoting?]
  | some content => simp [promoting?]

theorem promote?_eq (p : Page) : p.promote? = p.promoting? p.markerContent? := rfl

/-- Whether a cell names the marker with its class. -/
def isMarkerCell (n : Node) : Bool :=
  n.isElement "td" && mentions ("::" ++ Declaration.markerName) n

/-- Whether a node is a block that does not stand in a cell. -/
def isBlockOutside (p : Page) (cell n : Node) : Bool :=
  n.isElement "div" && !p.isDescendant n.label cell.label

/-! ### The block of the marker -/

/-- The first cell that names the marker, the first block after it that does not stand in the cell,
and the nodes after the start of the block. -/
structure MarkerBlock (p : Page) (cell block : Node) (later : List Node) : Prop where
  isCell : isMarkerCell cell = true
  isBlock : p.isBlockOutside cell block = true
  order : ∃ before between, p.descendants = before ++ cell :: (between ++ block :: later) ∧
    (∀ n ∈ before, isMarkerCell n = false) ∧ ∀ n ∈ between, p.isBlockOutside cell n = false

section Block

variable {p : Page} {cell block content : Node} {later : List Node}

theorem markerContent?_eq (p : Page) : p.markerContent? =
    match p.descendants.dropWhile fun n => !isMarkerCell n with
    | [] => none
    | cell :: later =>
      (later.filter (p.isBlockOutside cell)).findSome? (·.elementChildren.head?) := rfl

/-- The search goes through the block of the marker and all blocks after it. -/
theorem MarkerBlock.markerContent?_eq (h : p.MarkerBlock cell block later) : p.markerContent? =
    ((block :: later).filter (p.isBlockOutside cell)).findSome? (·.elementChildren.head?) := by
  obtain ⟨before, between, horder, hbefore, hbetween⟩ := h.order
  have hnone : between.filter (p.isBlockOutside cell) = [] := by
    rw [List.filter_eq_nil_iff]
    intro n hn
    rw [hbetween n hn]
    exact Bool.false_ne_true
  rw [Page.markerContent?_eq, dropWhile_eq_cons_iff.mpr ⟨h.isCell, before, horder, hbefore⟩]
  show ((between ++ block :: later).filter _).findSome? _ = _
  rw [List.filter_append, hnone, List.nil_append]

/-- There is no documentation without such a block. -/
theorem markerContent?_eq_none (h : ∀ cell block later, ¬ p.MarkerBlock cell block later) :
    p.markerContent? = none := by
  rw [markerContent?_eq]
  split
  · rfl
  · next cell rest hdrop =>
    obtain ⟨hcell, before, horder, hbefore⟩ := dropWhile_eq_cons_iff.mp hdrop
    suffices hnone : rest.filter (p.isBlockOutside cell) = [] by rw [hnone, List.findSome?_nil]
    rw [List.filter_eq_nil_iff]
    intro n hn hblock
    obtain ⟨block, hfind⟩ : ∃ block, rest.find? (p.isBlockOutside cell) = some block :=
      Option.isSome_iff_exists.mp (List.find?_isSome.mpr ⟨n, hn, hblock⟩)
    obtain ⟨hfirst, between, later, rfl, hbetween⟩ := List.find?_eq_some_iff_append.mp hfind
    exact h cell block later
      ⟨hcell, hfirst, before, between, horder, hbefore, by simpa using hbetween⟩

/-- The documentation is a child of a node of the document. -/
theorem mem_of_markerContent? (hcontent : p.markerContent? = some content) :
    content ∈ p.body.nodes := by
  by_cases hblock : ∃ cell block later, p.MarkerBlock cell block later
  · obtain ⟨cell, block, later, hblock⟩ := hblock
    rw [hblock.markerContent?_eq] at hcontent
    obtain ⟨div, hdiv, hhead⟩ := List.exists_of_findSome?_eq_some hcontent
    have hbody : div ∈ p.body.nodes := by
      obtain ⟨before, between, horder, -⟩ := hblock.order
      rw [← descendants_eq, horder]
      have := List.mem_of_mem_filter hdiv
      simp only [List.mem_append, List.mem_cons] at this ⊢
      tauto
    have hroot : content ∈ div.below.roots := List.mem_of_mem_filter (List.mem_of_head? hhead)
    exact (Forest.nodes_below_sublist hbody).subset (Forest.roots_subset_nodes hroot)
  · push Not at hblock
    rw [markerContent?_eq_none hblock] at hcontent
    cases hcontent

end Block

/-! ### What promoting changes -/

/-- A row labelled `k` with one cell, which is labelled `l`. -/
def cellRow (k l : Nat) (attrs : List Attr) (content : Forest) : Forest :=
  .cons k (.element { name := "tr" })
    (.cons l (.element { name := "td", attrs := attrs }) content .nil) .nil

/-- A copy of `content` is put into the page `p` in a row, which a separator row follows; both rows
stand after the first element of the place where the listing keeps its rows.  The copy is written
like the original, which stays as it is unless the rows are put into it. -/
structure ShowsCopy (p q : Page) (content listing : Node) (copy rows : Forest) : Prop where
  isCopy : copy.IsCopyOf content.toForest
  written : ∀ raw silent, Html.write raw silent copy = Html.write raw silent content.toForest
  rows_eq : ∃ k₁ k₂ k₃ k₄ k₅, rows =
    cellRow k₁ k₂ [⟨.none, "colspan", "2"⟩, ⟨.none, "class", "memItemRight"⟩] copy ++
      cellRow k₃ k₄ [⟨.none, "class", "memSeparator"⟩, ⟨.none, "colspan", "2"⟩]
        (.cons k₅ (.text nbsp) .nil .nil)
  inserts : p.Inserts q listing.rowContainer.label rows
  original : content.holds listing.rowContainer.label = false → q.node? content.label = some content

theorem Labelled.node?_rowContainer {p : Page} {listing : Node} (h : p.Labelled)
    (hlisting : p.listing? = some listing) :
    p.node? listing.rowContainer.label = some listing.rowContainer := by
  have hmem := (h.mem_nodes_of_mem_elements (List.mem_of_find?_eq_some hlisting)).1
  exact h.node?_label (rowContainer_mem_nodes hmem)

theorem showsCopy_insert {p : Page} {content listing : Node} (h : p.Labelled)
    (hcontent : p.markerContent? = some content) (hlisting : p.listing? = some listing) :
    ∃ copy rows, p.ShowsCopy
      (p.insertAfterFirstElement listing.rowContainer.label (promotedRows content))
      content listing copy rows := by
  refine ⟨(content.toForest.relabel (p.next + 2)).1, p.freshTrees (promotedRows content), ?_⟩
  have hcopy := Forest.isCopyOf_relabel (p.next + 2) content.toForest
  refine ⟨hcopy, hcopy.write_eq, ⟨_, _, _, _, _, rfl⟩,
    inserts_insertAfterFirstElement h (h.node?_rowContainer hlisting) _, fun hapart => ?_⟩
  have hmem := h.mem_nodes_of_mem_body (mem_of_markerContent? hcontent)
  have hlt := h.label_lt_next hmem
  rw [h.node?_insertAfterFirstElement _ _ hlt, h.node?_label hmem, Option.map_some,
    Node.updateBelow_eq_self]
  rw [Node.holds, List.contains_eq_mem, decide_eq_false_iff_not] at hapart
  exact hapart

/-- **What promoting the documentation changes.**  If there is no documentation or no listing, the
page stays as it is.  Otherwise a copy of the documentation is put at the top of the listing, and
this is all that changes. -/
theorem promote_cases {p : Page} (h : p.Labelled) :
    (p.promote? = none ∧ p.promote = p ∧ (p.markerContent? = none ∨ p.listing? = none)) ∨
    ∃ content listing copy rows, p.promote? = some p.promote ∧
      p.markerContent? = some content ∧ p.listing? = some listing ∧
      p.ShowsCopy p.promote content listing copy rows := by
  cases hpromote : p.promote? with
  | none =>
    refine Or.inl ⟨rfl, ?_, promoting?_eq_none_iff.mp hpromote⟩
    rw [promote, hpromote, Option.getD_none]
  | some q =>
    have hq : p.promote = q := by rw [promote, hpromote, Option.getD_some]
    rw [hq]
    obtain ⟨content, hcontent, hinsert⟩ := Option.bind_eq_some_iff.mp hpromote
    obtain ⟨listing, hlisting, rfl⟩ := Option.map_eq_some_iff.mp hinsert
    obtain ⟨copy, rows, hshows⟩ := showsCopy_insert h hcontent hlisting
    exact Or.inr ⟨content, listing, copy, rows, rfl, hcontent, hlisting, hshows⟩

/-- The cell with the name of the marker, and blocks after it. -/
def documented (blocks : Forest) : Forest :=
  .ofElement "td" [] (.ofText ("Ship::" ++ Declaration.markerName)) ++ blocks

/-- A page whose listing has a heading, and on which the marker is documented. -/
def documentedPage (blocks : Forest) : Page :=
  memberPage (.ofElement "tr" [] .nil) (documented blocks)

/-- A block with a paragraph. -/
def paragraphBlock (text : String) : Forest :=
  .ofElement "div" [] (.ofElement "p" [] (.ofText text))

theorem documentedPage_labelled (blocks : Forest) : (documentedPage blocks).Labelled :=
  (memberPage_consistent _ _).toLabelled

theorem promote_documentedPage : (documentedPage (paragraphBlock "Ships.")).Labelled ∧
    ∃ content listing copy rows,
      (documentedPage (paragraphBlock "Ships.")).markerContent? = some content ∧
      content.label = 6 ∧ listing.rowContainer.label = 1 ∧
      (documentedPage (paragraphBlock "Ships.")).ShowsCopy
        (documentedPage (paragraphBlock "Ships.")).promote content listing copy rows := by
  have hpage := documentedPage_labelled (paragraphBlock "Ships.")
  refine ⟨hpage, ?_⟩
  rcases promote_cases hpage with ⟨hnone, -⟩ | ⟨content, listing, copy, rows, -, hcontent,
    hlisting, hshows⟩
  · exact absurd hnone (by decide +kernel)
  · have hlabel : (documentedPage (paragraphBlock "Ships.")).markerContent?.map Node.label =
        some 6 := by decide +kernel
    have hplace : (documentedPage (paragraphBlock "Ships.")).listing?.map
        (·.rowContainer.label) = some 1 := by decide +kernel
    rw [hcontent] at hlabel
    rw [hlisting] at hplace
    exact ⟨content, listing, copy, rows, hcontent, Option.some.inj hlabel, Option.some.inj hplace,
      hshows⟩

/-! ### Whose documentation is promoted -/

/-- What is promoted is the first element in the block of the marker.  Nothing is promoted if the
block holds no element or if there is no block. -/
def PromotesOwn (p : Page) : Prop :=
  (∀ cell block later, p.MarkerBlock cell block later →
    p.promote? = p.promoting? block.elementChildren.head?) ∧
  ((∀ cell block later, ¬ p.MarkerBlock cell block later) → p.promote? = none)

section Own

variable {p : Page} {cell block : Node} {later : List Node}

/-- The search ends at the block of the marker if there is an element in it. -/
theorem MarkerBlock.promote?_eq (h : p.MarkerBlock cell block later)
    (hblock : block.elementChildren ≠ []) :
    p.promote? = p.promoting? block.elementChildren.head? := by
  obtain ⟨content, children, hchildren⟩ := List.exists_cons_of_ne_nil hblock
  rw [Page.promote?_eq, h.markerContent?_eq, List.filter_cons_of_pos h.isBlock,
    List.findSome?_cons, hchildren, List.head?_cons]

/-- Otherwise it goes on through the blocks after it. -/
theorem MarkerBlock.markerContent?_eq_none_iff (h : p.MarkerBlock cell block later)
    (hblock : block.elementChildren = []) : p.markerContent? = none ↔
      ∀ n ∈ later, p.isBlockOutside cell n = true → n.elementChildren = [] := by
  rw [h.markerContent?_eq, List.filter_cons_of_pos h.isBlock, List.findSome?_cons, hblock,
    List.head?_nil]
  show List.findSome? _ _ = none ↔ _
  simp only [List.findSome?_eq_none_iff, List.mem_filter, List.head?_eq_none_iff, and_imp]

/-- **Whose documentation is promoted.**  If the block of the marker holds an element, then the
first one is promoted, and without such a block nothing is.  Otherwise an element of a later block
is promoted in its place, unless there is no such element or no listing. -/
theorem promotesOwn_iff (p : Page) :
    ((∀ cell block later, ¬ p.MarkerBlock cell block later) → p.promote? = none) ∧
    (∀ cell block later, p.MarkerBlock cell block later → block.elementChildren ≠ [] →
      p.promote? = p.promoting? block.elementChildren.head?) ∧
    (p.PromotesOwn ↔ ∀ cell block later, p.MarkerBlock cell block later →
      block.elementChildren = [] →
        (∀ n ∈ later, p.isBlockOutside cell n = true → n.elementChildren = []) ∨
          p.listing? = none) := by
  have hnone : (∀ cell block later, ¬ p.MarkerBlock cell block later) → p.promote? = none := by
    intro h
    rw [promote?_eq, markerContent?_eq_none h]
    rfl
  refine ⟨hnone, fun cell block later h => h.promote?_eq, ?_⟩
  constructor
  · rintro ⟨hown, -⟩ cell block later h hblock
    have hpromote := hown cell block later h
    rw [hblock] at hpromote
    have hpromote : p.promoting? p.markerContent? = none := hpromote
    exact (promoting?_eq_none_iff.mp hpromote).imp_left
      (h.markerContent?_eq_none_iff hblock).mp
  · intro hlater
    refine ⟨fun cell block later h => ?_, hnone⟩
    by_cases hblock : block.elementChildren = []
    · have hsearch := (hlater cell block later h hblock).imp_left
        (h.markerContent?_eq_none_iff hblock).mpr
      rw [promote?_eq, promoting?_eq_none_iff.mpr hsearch, hblock]
      rfl
    · exact h.promote?_eq hblock

end Own

/-- The marker is documented by a text without elements, and another member by a paragraph. -/
def textBlocks : Forest :=
  .ofElement "div" [] (.ofText "Ships.") ++ paragraphBlock "Fires."

/-- The documentation of another member is promoted. -/
theorem not_promotesOwn_textBlocks : ¬ (documentedPage textBlocks).PromotesOwn := by
  have hblock : (documentedPage textBlocks).MarkerBlock
      (((documentedPage textBlocks).node? 3).getD default)
      (((documentedPage textBlocks).node? 5).getD default)
      ((documentedPage textBlocks).descendants.drop 5) := by
    refine ⟨by decide +kernel, by decide +kernel, (documentedPage textBlocks).descendants.take 2,
      [((documentedPage textBlocks).node? 4).getD default], ?_, ?_, ?_⟩
    all_goals decide +kernel
  intro hown
  rcases (promotesOwn_iff _).2.2.mp hown _ _ _ hblock (by decide +kernel) with hlater | hlisting
  · revert hlater
    decide +kernel
  · revert hlisting
    decide +kernel

end BindingDocs.Page
