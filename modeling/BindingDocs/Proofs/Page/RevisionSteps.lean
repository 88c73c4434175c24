import BindingDocs.Proofs.Page.InheritedTables
import BindingDocs.Proofs.Page.MarkerTraces

/-!
# The steps of a revision

Completing labels, reducing signatures and removing entries are made of few kinds of changes, each
at an element whose name is known: elements are taken out of their trees, the children of labels and
cells are replaced, and summaries are put into tables.  What one such change keeps is kept by all of
them.

## Main definitions

* `Page.Forest.Made` — trees of texts and of elements with given names.
* `Page.IsPut` — the trees that are put into elements of some name.
* `Page.Step`, `Page.Steps` — one such change, and several one after the other.

## Main results

* `Page.Steps.induction` — what each change keeps.
* `Page.steps_detachAll`, `Page.steps_label`, `Page.steps_clean` — **the parts of a revision.**
-/

namespace BindingDocs.Page

open Page (Forest Item Node)

/-! ### Trees that are put into a page -/

/-- The names of the attributes that new elements have. -/
def newAttributes : List String := ["class", "colspan", "href"]

/-- Trees of texts and of elements with these names. -/
inductive Forest.Made (tags : List String) : Forest → Prop
  | nil : Made tags .nil
  | text (s : String) : Made tags (.ofText s)
  | element {tag : String} {attrs : List (String × String)} {below : Forest} (htag : tag ∈ tags)
    (hattrs : ∀ a ∈ attrs, a.1 ∈ newAttributes) (hbelow : Made tags below) :
    Made tags (.ofElement tag attrs below)
  | append {f g : Forest} (hf : Made tags f) (hg : Made tags g) : Made tags (f ++ g)

theorem Forest.Made.mono {tags tags' : List String} {f : Forest} (h : f.Made tags)
    (hsub : tags ⊆ tags') : f.Made tags' := by
  induction h with
  | nil => exact .nil
  | text s => exact .text s
  | element htag hattrs _ ih => exact .element (hsub htag) hattrs ih
  | append _ _ ihf ihg => exact ihf.append ihg

theorem made_labelText (urls : Urls) (owner : String) : (labelText urls owner).Made ["a"] := by
  rw [labelText]
  split
  · exact .element (by decide) (by simp [newAttributes]) (.text _)
  · exact .text _

theorem made_argument (cls : String) (cell : Node) : (argument cls cell).Made ["span"] :=
  .element (by decide) (by simp [newAttributes]) (.text _)

theorem made_argumentPairs (names types : List Node) :
    (argumentPairs names types).Made ["span"] := by
  have hpair (name type : Node) : (argument "paramname" name ++ Forest.ofText ": " ++
      argument "paramtype" type).Made ["span"] :=
    ((made_argument _ name).append (.text _)).append (made_argument _ type)
  induction names generalizing types with
  | nil => exact .nil
  | cons name names ih =>
    cases types with
    | nil => exact .nil
    | cons type types =>
      cases names with
      | nil => exact hpair name type
      | cons name' names =>
        cases types with
        | nil => exact hpair name type
        | cons type' types => exact ((hpair name type).append (.text _)).append (ih _)

/-- A summary is a row with one cell, which holds spans and texts. -/
theorem exists_summaryRow_eq (width : Nat) (names types : List Node) (returns : String) :
    ∃ content, content.Made ["span"] ∧
      summaryRow width names types returns = .ofElement "tr" [("class", "nofloat argline")]
        (.ofElement "td" [("colspan", toString width)] content) := by
  refine ⟨_, ?_, rfl⟩
  have htitle : (Forest.ofElement "span" [("class", "argtypes")] (.ofText "Arg types:")).Made
      ["span"] := .element (by decide) (by simp [newAttributes]) (.text _)
  have hreturns : (Forest.ofElement "span" [("class", "returntype")]
      (.ofText (if returns = "" then "nil" else returns))).Made ["span"] :=
    .element (by decide) (by simp [newAttributes]) (.text _)
  exact (((htitle.append (.text _)).append (made_argumentPairs names types)).append
    (.text _)).append hreturns

theorem made_summaryRow (width : Nat) (names types : List Node) (returns : String) :
    (summaryRow width names types returns).Made ["tr", "td", "span"] := by
  obtain ⟨content, hcontent, hrow⟩ := exists_summaryRow_eq width names types returns
  rw [hrow]
  refine .element (by decide) (by simp [newAttributes]) (.element (by decide)
    (by simp [newAttributes]) (hcontent.mono (by simp)))

/-! ### Changes at elements whose name is known -/

/-- The trees that are put into elements of some name: texts of labels, names and summaries. -/
inductive IsPut : String → Forest → Prop
  | label (urls : Urls) (owner : String) : IsPut "span" (labelText urls owner)
  | name (s : String) : IsPut "td" (.ofText s)
  | summary {tag : String} (htag : tag = "table" ∨ tag = "tbody") (width : Nat)
    (names types : List Node) (returns : String) : IsPut tag (summaryRow width names types returns)

/-- A change at an element whose name is known. -/
inductive Step (p : Page) : Page → Prop
  | detach {tag : String} {l : Nat} (hl : p.GivenTo tag l) : Step p (p.detach l)
  | replace {tag : String} {l : Nat} {f : Forest} (hl : p.GivenTo tag l) (hf : IsPut tag f) :
    Step p ((p.clear l).append l f)
  | append {tag : String} {l : Nat} {f : Forest} (hl : p.GivenTo tag l) (hf : IsPut tag f) :
    Step p (p.append l f)

/-- The page `q` came from `p` by such changes. -/
def Steps (p q : Page) : Prop := Relation.ReflTransGen Step p q

variable {p q r : Page}

theorem Step.follows (hp : p.Labelled) (h : p.Step q) : p.Follows q := by
  cases h with
  | detach => exact follows_detach hp _
  | @replace _ l f =>
    have hclear := follows_clear hp l
    exact hclear.trans (follows_append hclear.labelled l f)
  | append => exact follows_append hp _ _

namespace Steps

theorem refl (p : Page) : p.Steps p := Relation.ReflTransGen.refl

theorem single (h : p.Step q) : p.Steps q := Relation.ReflTransGen.single h

theorem trans (hpq : p.Steps q) (hqr : q.Steps r) : p.Steps r := Relation.ReflTransGen.trans hpq hqr

theorem follows (hp : p.Labelled) (h : p.Steps q) : p.Follows q := by
  induction h with
  | refl => exact .refl hp
  | tail _ hstep ih => exact ih.trans (hstep.follows ih.labelled)

/-- **What each change keeps, several keep.** -/
theorem induction {P : Page → Prop} (hp : p.Labelled)
    (hstep : ∀ {q r : Page}, q.Labelled → q.Step r → P q → P r) (h : p.Steps q) (hP : P p) :
    P q := by
  induction h with
  | refl => exact hP
  | tail hqr hlast ih => exact hstep (follows hp hqr).labelled hlast ih

end Steps

/-! ### Removing entries -/

theorem Labelled.mem_nodes_of_mem_elements (h : p.Labelled) {n : Node} {tag : String}
    (hn : n ∈ p.elements tag) : n ∈ p.forest.nodes ∧ n.isElement tag = true := by
  obtain ⟨hbody, htag⟩ := mem_elements_iff.mp hn
  exact ⟨h.mem_nodes_of_mem_body hbody, htag⟩

/-- Taking elements out of their trees. -/
theorem steps_detachAll (h : p.Labelled) {ns : List Node}
    (hns : ∀ n ∈ ns, ∃ tag, p.GivenTo tag n.label) : p.Steps (p.detachAll ns) := by
  induction ns generalizing p with
  | nil => exact .refl p
  | cons n ns ih =>
    rw [List.forall_mem_cons] at hns
    obtain ⟨⟨tag, hn⟩, hns⟩ := hns
    have hfollows := follows_detach h n.label
    refine (Steps.single (.detach hn)).trans (ih hfollows.labelled fun m hm => ?_)
    obtain ⟨tag, hm⟩ := hns m hm
    exact ⟨tag, hfollows.givenTo hm⟩

theorem steps_removeMoreLinks (limit : Nat) (h : p.Labelled) :
    p.Steps (p.removeMoreLinks limit) := by
  refine steps_detachAll h fun n hn => ⟨"a", ?_⟩
  obtain ⟨hmem, ha⟩ :=
    h.mem_nodes_of_mem_elements (List.mem_of_mem_filter (List.mem_of_mem_take hn))
  exact h.givenTo hmem ha

/-! ### Completing labels -/

theorem steps_labelTables (urls : Urls) (ls : List Nat) (h : p.Labelled) :
    p.Steps (labelTables urls ls p).1 := by
  induction ls generalizing p with
  | nil => exact .refl p
  | cons l ls ih =>
    rw [labelTables]
    split
    · exact .refl p
    · exact ih h
    · next label owner hlabel =>
      obtain ⟨hmem, hspan⟩ := h.mem_nodes_of_labelOf hlabel
      have hstep : p.Step ((p.clear label.label).append label.label (labelText urls owner)) :=
        .replace (h.givenTo hmem hspan) (.label urls owner)
      exact (Steps.single hstep).trans (ih (hstep.follows h).labelled)

/-- Completing labels replaces what is in `span` elements. -/
theorem steps_label (urls : Urls) (h : p.Labelled) : p.Steps (p.label urls).1 :=
  steps_labelTables urls _ h

/-! ### Reducing signatures -/

theorem Labelled.exists_givenTo_rowContainer (h : p.Labelled) {table : Node}
    (hmem : table ∈ p.forest.nodes) (htable : table.isElement "table" = true) :
    ∃ tag, p.GivenTo tag table.rowContainer.label ∧ (tag = "table" ∨ tag = "tbody") := by
  rcases rowContainer_mem table with heq | ⟨hroot, hbody⟩
  · rw [heq]
    exact ⟨"table", h.givenTo hmem htable, .inl rfl⟩
  · have hmem := (Forest.nodes_below_sublist hmem).subset (Forest.roots_subset_nodes hroot)
    exact ⟨"tbody", h.givenTo hmem hbody, .inr rfl⟩

theorem steps_summarise (h : p.Labelled) {l : Nat} (hl : p.GivenTo "table" l)
    {cells : List Node} (hcells : ∀ n ∈ cells, p.GivenTo "td" n.label) (returns : String) :
    p.Steps (p.summarise l cells returns) := by
  have hdetach : p.Steps (p.detachAll (cells.filter (·.hasClass "td" "paramtype"))) :=
    steps_detachAll h fun n hn => ⟨"td", hcells n (List.mem_of_mem_filter hn)⟩
  rw [summarise]
  split
  · simp only
    split
    · next table hnode =>
      have hfollows := hdetach.follows h
      obtain ⟨hmem, hlabel⟩ := hfollows.labelled.node?_eq_some_iff.mp hnode
      have htable := (hfollows.givenTo hl).2 table hmem hlabel
      obtain ⟨tag, hgiven, htag⟩ := hfollows.labelled.exists_givenTo_rowContainer hmem htable
      exact hdetach.trans (.single (.append hgiven (.summary htag _ _ _ _)))
    · exact hdetach
  · exact .refl p

theorem steps_cleanTable? (h : p.Labelled) {l : Nat} (hl : p.GivenTo "table" l)
    (hq : p.cleanTable? l = some q) : p.Steps q := by
  obtain ⟨table, hnode, hq⟩ := Option.bind_eq_some_iff.mp hq
  have hmem := (h.node?_eq_some_iff.mp hnode).1
  have hcells : ∀ n ∈ table.elements "td", p.GivenTo "td" n.label := by
    intro n hn
    obtain ⟨hbelow, htd⟩ := Node.mem_elements_iff.mp hn
    exact h.givenTo ((Forest.nodes_below_sublist hmem).subset hbelow) htd
  split at hq
  · obtain ⟨m, -, rfl⟩ := Option.map_eq_some_iff.mp hq
    simp only
    split
    · next first hfirst =>
      have hgiven := hcells first (List.mem_of_head? hfirst)
      have hname : p.Step (p.setText first.label (String.ofList m.name)) :=
        .replace hgiven (.name _)
      have hfollows := hname.follows h
      exact (Steps.single hname).trans (steps_summarise hfollows.labelled (hfollows.givenTo hl)
        (fun n hn => hfollows.givenTo (hcells n hn)) _)
    · exact steps_summarise h hl hcells _
  · cases hq

theorem steps_cleanTables (h : p.Labelled) {ls : List Nat} (hls : ∀ l ∈ ls, p.GivenTo "table" l) :
    p.Steps (cleanTables ls p).1 := by
  induction ls generalizing p with
  | nil => exact .refl p
  | cons l ls ih =>
    rw [List.forall_mem_cons] at hls
    rw [cleanTables]
    split
    · next q hq =>
      have hstep := steps_cleanTable? h hls.1 hq
      have hfollows := hstep.follows h
      exact hstep.trans (ih hfollows.labelled fun m hm => hfollows.givenTo (hls.2 m hm))
    · exact ih h hls.2

/-- Reducing signatures replaces names and puts summaries into tables. -/
theorem steps_clean (h : p.Labelled) : p.Steps p.clean.1 := by
  refine steps_cleanTables h fun l hl => ?_
  obtain ⟨table, htable, rfl⟩ := List.mem_map.mp hl
  obtain ⟨hmem, helement⟩ := h.mem_nodes_of_mem_elements (List.mem_of_mem_filter htable)
  exact h.givenTo hmem helement

end BindingDocs.Page
