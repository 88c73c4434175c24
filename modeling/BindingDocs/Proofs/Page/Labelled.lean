import BindingDocs.Page.Basic
import BindingDocs.Proofs.Page.Forest
import Mathlib.Logic.Relation

/-!
# Looking around in a page

On a page where every node has a label of its own, a node is above another exactly if the other
stands somewhere below it.  A walk from a node upwards meets larger and larger trees, so it comes to
an end.

## Main definitions

* `Page.Labelled` — every node has a label of its own, and the document comes first.
* `Page.children`, `Page.parentLabel?` — the labels directly below and above a label.
* `Page.IsAbove` — walking upwards from one label leads to another.
* `Page.body` — what stands in the document.

## Main results

* `Page.Labelled.mem_children_iff` — children and parents agree.
* `Page.Labelled.ancestors_eq` — **the walk upwards is never cut off.**
* `Page.Labelled.upwards_induction` — induction along this walk.
* `Page.Labelled.mem_ancestors_iff` — the nodes above a label.
-/

namespace BindingDocs.Page

open Page (Forest Item Node)

/-- Every node has a label of its own, labels from `next` on are free, and the document is the first
tree. -/
structure Labelled (p : Page) : Prop where
  nodup : p.forest.preorder.Nodup
  lt_next : ∀ l ∈ p.forest.preorder, l < p.next
  document_first : ∃ body rest, p.forest = .cons root .document body rest

theorem exists_document_first_iff {f : Forest} :
    (∃ body rest, f = .cons root .document body rest) ↔
      f.roots.head?.map (fun n => (n.label, n.item)) = some (root, .document) := by
  cases f with
  | nil => simp [Forest.roots]
  | cons l i below next => simp [Forest.roots]

instance (p : Page) : Decidable p.Labelled :=
  decidable_of_iff (p.forest.preorder.Nodup ∧ (∀ l ∈ p.forest.preorder, l < p.next) ∧
    p.forest.roots.head?.map (fun n => (n.label, n.item)) = some (root, .document))
    ⟨fun h => ⟨h.1, h.2.1, exists_document_first_iff.mpr h.2.2⟩,
      fun h => ⟨h.nodup, h.lt_next, exists_document_first_iff.mp h.document_first⟩⟩

/-- The labels of the children of a node, as the node lists them. -/
def children (p : Page) (l : Nat) : List Nat := ((p.node? l).map (·.below.rootLabels)).getD []

/-- The label of the parent of a node, as the node knows it. -/
def parentLabel? (p : Page) (l : Nat) : Option Nat := (p.parent? l).map (·.label)

/-- Walking upwards from `l` leads to `a`. -/
def IsAbove (p : Page) (a l : Nat) : Prop :=
  Relation.TransGen (fun c b => p.parentLabel? c = some b) l a

/-- What stands in the document. -/
def body (p : Page) : Forest := p.document.below

/-- How many nodes stand below a label. -/
def weight (p : Page) (l : Nat) : Nat := ((p.node? l).map (·.below.size)).getD 0

theorem Node.mem_elements_iff {m n : Node} {tag : String} :
    n ∈ m.elements tag ↔ n ∈ m.below.nodes ∧ n.isElement tag = true := by
  rw [Node.elements, Node.descendants, Forest.walk_eq_nodes, List.mem_filter]

/-- Rows are kept in the table or in a child of it that is a body. -/
theorem rowContainer_mem (table : Node) : table.rowContainer = table ∨
    table.rowContainer ∈ table.below.roots ∧ table.rowContainer.isElement "tbody" = true := by
  rw [Node.rowContainer]
  cases hbody : table.elementChildren.find? (·.isElement "tbody") with
  | none => exact Or.inl rfl
  | some body =>
    have hroot := List.mem_of_mem_filter (List.mem_of_find?_eq_some hbody)
    have htbody := List.find?_some hbody
    exact Or.inr ⟨hroot, htbody⟩

theorem rowContainer_mem_nodes {f : Forest} {table : Node} (htable : table ∈ f.nodes) :
    table.rowContainer ∈ f.nodes := by
  rcases rowContainer_mem table with heq | ⟨hroot, -⟩
  · rwa [heq]
  · exact (Forest.nodes_below_sublist htable).subset (Forest.roots_subset_nodes hroot)

theorem descendants_eq (p : Page) : p.descendants = p.body.nodes := by
  rw [descendants, Node.descendants, Forest.walk_eq_nodes, body]

theorem mem_elements_iff {p : Page} {n : Node} {tag : String} :
    n ∈ p.elements tag ↔ n ∈ p.body.nodes ∧ n.isElement tag = true := Node.mem_elements_iff

namespace Labelled

variable {p : Page} {a c l : Nat} {n : Node}

theorem node?_eq_some_iff (h : p.Labelled) :
    p.node? l = some n ↔ n ∈ p.forest.nodes ∧ n.label = l :=
  Forest.find?_eq_some_iff h.nodup

theorem node?_label (h : p.Labelled) (hn : n ∈ p.forest.nodes) : p.node? n.label = some n :=
  h.node?_eq_some_iff.mpr ⟨hn, rfl⟩

theorem label_lt_next (h : p.Labelled) (hn : n ∈ p.forest.nodes) : n.label < p.next :=
  h.lt_next _ (Forest.label_mem_preorder hn)

/-! ### Children and parents -/

theorem mem_children (h : p.Labelled) : c ∈ p.children a ↔ p.forest.Lists a c := by
  rw [children]
  cases hnode : p.node? a with
  | none =>
    have habsent : a ∉ p.forest.preorder := Forest.find?_eq_none_iff.mp hnode
    simpa using fun hlists => habsent (Forest.Lists.mem_preorder_left hlists)
  | some n =>
    obtain ⟨hn, hlabel⟩ := h.node?_eq_some_iff.mp hnode
    constructor
    · intro hc
      exact ⟨n, hn, hlabel, hc⟩
    · rintro ⟨n', hn', hlabel', hc⟩
      rwa [Forest.eq_of_label_eq h.nodup hn hn' (hlabel.trans hlabel'.symm)]

/-- The node above a label is the one that lists it. -/
theorem parent?_eq_some_iff (h : p.Labelled) :
    p.parent? c = some n ↔ n ∈ p.forest.nodes ∧ c ∈ n.below.rootLabels := by
  rw [parent?, Option.bind_eq_some_iff]
  simp only [Forest.parent?_eq_some_iff h.nodup, reduceCtorEq, and_false, false_or,
    h.node?_eq_some_iff]
  constructor
  · rintro ⟨b, ⟨m, hm, hlabel, hc⟩, hn, rfl⟩
    rw [Forest.eq_of_label_eq h.nodup hn hm hlabel.symm]
    exact ⟨hm, hc⟩
  · rintro ⟨hn, hc⟩
    exact ⟨n.label, ⟨n, hn, rfl, hc⟩, hn, rfl⟩

theorem parentLabel?_eq_some_iff (h : p.Labelled) :
    p.parentLabel? c = some a ↔ p.forest.Lists a c := by
  rw [parentLabel?, Option.map_eq_some_iff]
  simp only [h.parent?_eq_some_iff]
  constructor
  · rintro ⟨n, ⟨hn, hc⟩, hlabel⟩
    exact ⟨n, hn, hlabel, hc⟩
  · rintro ⟨n, hn, hlabel, hc⟩
    exact ⟨n, ⟨hn, hc⟩, hlabel⟩

/-- **A node lists another among its children exactly if it is its parent.** -/
theorem mem_children_iff (h : p.Labelled) (a c : Nat) :
    c ∈ p.children a ↔ p.parentLabel? c = some a := by
  rw [h.mem_children, h.parentLabel?_eq_some_iff]

theorem nodup_children (h : p.Labelled) (a : Nat) : (p.children a).Nodup := by
  rw [children]
  cases hnode : p.node? a with
  | none => exact List.nodup_nil
  | some n =>
    have hn := (h.node?_eq_some_iff.mp hnode).1
    exact h.nodup.sublist ((Forest.rootLabels_sublist _).trans (Forest.preorder_below_sublist hn))

/-! ### Walking upwards -/

/-- A parent has more nodes below it than its child. -/
theorem weight_lt (h : p.Labelled) (hn : p.parent? c = some n) : p.weight c < n.below.size := by
  obtain ⟨hmem, hc⟩ := h.parent?_eq_some_iff.mp hn
  have hbelow := (Forest.rootLabels_sublist _).subset hc
  obtain ⟨m, hm, rfl⟩ := Forest.exists_node_of_mem_preorder hbelow
  rw [weight, h.node?_label ((Forest.nodes_below_sublist hmem).subset hm)]
  exact Forest.size_below_lt hm

theorem weight_label (h : p.Labelled) (hn : n ∈ p.forest.nodes) :
    p.weight n.label = n.below.size := by
  rw [weight, h.node?_label hn]
  rfl

theorem weight_lt_of_isAbove (h : p.Labelled) (ha : p.IsAbove a l) : p.weight l < p.weight a := by
  have hstep {c b : Nat} (hb : p.parentLabel? c = some b) : p.weight c < p.weight b := by
    obtain ⟨n, hn, rfl⟩ := Option.map_eq_some_iff.mp hb
    rw [h.weight_label (h.parent?_eq_some_iff.mp hn).1]
    exact h.weight_lt hn
  induction ha with
  | single hb => exact hstep hb
  | tail _ hb ih => exact Nat.lt_trans ih (hstep hb)

/-- No node is above itself. -/
theorem not_isAbove_self (h : p.Labelled) (l : Nat) : ¬ p.IsAbove l l :=
  fun ha => Nat.lt_irrefl _ (h.weight_lt_of_isAbove ha)

theorem ancestorsFuel_succ (h : p.Labelled) {fuel : Nat}
    (hfuel : p.forest.size ≤ fuel + p.weight l) :
    p.ancestorsFuel (fuel + 1) l = p.ancestorsFuel fuel l := by
  induction fuel generalizing l with
  | zero =>
    -- a parent would have more nodes below it than there are
    simp only [ancestorsFuel]
    split
    · next n hn =>
      have hlt := h.weight_lt hn
      have hsize := Forest.size_below_lt (h.parent?_eq_some_iff.mp hn).1
      omega
    · rfl
  | succ fuel ih =>
    rw [ancestorsFuel, ancestorsFuel]
    split
    · next n hn =>
      have hlt := h.weight_lt hn
      have hweight := h.weight_label (h.parent?_eq_some_iff.mp hn).1
      rw [ih (by omega)]
    · rfl

/-- **The walk upwards is never cut off**: it goes on as long as there is a parent. -/
theorem ancestors_eq (h : p.Labelled) (l : Nat) :
    p.ancestors l =
      match p.parent? l with
      | some n => n :: p.ancestors n.label
      | none => [] := by
  rw [ancestors, ← h.ancestorsFuel_succ (Nat.le_add_right _ _), ancestorsFuel]
  rfl

/-- Induction along the walk upwards: what holds of a node if it holds of its parent holds of
all. -/
theorem upwards_induction (h : p.Labelled) {motive : Nat → Prop}
    (step : ∀ l, (∀ n, p.parent? l = some n → motive n.label) → motive l) (l : Nat) : motive l := by
  obtain ⟨above, habove⟩ : ∃ above, p.ancestors l = above := ⟨_, rfl⟩
  induction above generalizing l with
  | nil =>
    refine step l fun n hn => ?_
    rw [h.ancestors_eq, hn] at habove
    cases habove
  | cons m above ih =>
    refine step l fun n hn => ih n.label ?_
    rw [h.ancestors_eq, hn] at habove
    exact List.tail_eq_of_cons_eq habove

theorem mem_of_mem_ancestors (h : p.Labelled) (hn : n ∈ p.ancestors l) :
    n ∈ p.forest.nodes ∧ l ∈ n.below.preorder := by
  rw [ancestors] at hn
  generalize p.forest.size = fuel at hn
  induction fuel generalizing l with
  | zero => simp [ancestorsFuel] at hn
  | succ fuel ih =>
    rw [ancestorsFuel] at hn
    split at hn
    · next m hm =>
      obtain ⟨hmem, hl⟩ := h.parent?_eq_some_iff.mp hm
      rcases List.mem_cons.mp hn with rfl | hn
      · exact ⟨hmem, (Forest.rootLabels_sublist _).subset hl⟩
      · -- the parent stands below the node, and so does its child
        obtain ⟨hmemn, hlabel⟩ := ih hn
        obtain ⟨m', hm', hlabel'⟩ := Forest.exists_node_of_mem_preorder hlabel
        have hm'mem := (Forest.nodes_below_sublist hmemn).subset hm'
        obtain rfl := Forest.eq_of_label_eq h.nodup hm'mem hmem hlabel'
        refine ⟨hmemn, (Forest.preorder_below_sublist hm').subset ?_⟩
        exact (Forest.rootLabels_sublist _).subset hl
    · simp at hn

theorem mem_ancestors_of_mem_preorder (h : p.Labelled) (hn : n ∈ p.forest.nodes)
    (hl : l ∈ n.below.preorder) : n ∈ p.ancestors l := by
  induction l using h.upwards_induction with
  | step l ih =>
    rw [h.ancestors_eq]
    rcases Forest.mem_preorder_iff.mp hl with hroot | ⟨b, m, hm, rfl, hlists⟩
    · rw [h.parent?_eq_some_iff.mpr ⟨hn, hroot⟩]
      exact List.mem_cons_self
    · have hmem := (Forest.nodes_below_sublist hn).subset hm
      have hparent := h.parent?_eq_some_iff.mpr ⟨hmem, hlists⟩
      rw [hparent]
      exact List.mem_cons_of_mem _ (ih m hparent (Forest.label_mem_preorder hm))

/-- A node that has no parent stands below no node. -/
theorem notMem_below (h : p.Labelled) (hl : p.parent? l = none) (hn : n ∈ p.forest.nodes) :
    l ∉ n.below.preorder := by
  intro hbelow
  have habove := h.mem_ancestors_of_mem_preorder hn hbelow
  rw [h.ancestors_eq, hl] at habove
  cases habove

/-- **The nodes above a label are those that it stands below.** -/
theorem mem_ancestors_iff (h : p.Labelled) :
    n ∈ p.ancestors l ↔ n ∈ p.forest.nodes ∧ l ∈ n.below.preorder := by
  constructor
  · exact h.mem_of_mem_ancestors
  · rintro ⟨hn, hl⟩
    exact h.mem_ancestors_of_mem_preorder hn hl

theorem isDescendant_iff (h : p.Labelled) :
    p.isDescendant l a = true ↔ ∃ n, p.node? a = some n ∧ l ∈ n.below.preorder := by
  rw [isDescendant, List.any_eq_true]
  simp only [beq_iff_eq, h.mem_ancestors_iff, h.node?_eq_some_iff]
  constructor
  · rintro ⟨n, ⟨hn, hl⟩, ha⟩
    exact ⟨n, ⟨hn, ha⟩, hl⟩
  · rintro ⟨n, ⟨hn, ha⟩, hl⟩
    exact ⟨n, ⟨hn, hl⟩, ha⟩

/-! ### The document -/

/-- The forest begins with the document. -/
theorem exists_forest_eq (h : p.Labelled) :
    ∃ rest, p.forest = .cons root .document p.body rest := by
  obtain ⟨body, rest, hforest⟩ := h.document_first
  have hbody : p.body = body := by
    rw [Page.body, document, node?, hforest, Forest.find?, if_pos rfl]
    rfl
  exact ⟨rest, hbody ▸ hforest⟩

theorem mem_nodes_of_mem_body (h : p.Labelled) (hn : n ∈ p.body.nodes) : n ∈ p.forest.nodes := by
  obtain ⟨rest, hforest⟩ := h.exists_forest_eq
  rw [hforest, Forest.nodes, List.mem_cons, List.mem_append]
  exact .inr (.inl hn)

theorem document_mem (h : p.Labelled) : ⟨root, .document, p.body⟩ ∈ p.forest.nodes := by
  obtain ⟨rest, hforest⟩ := h.exists_forest_eq
  rw [hforest]
  exact List.mem_cons_self

theorem nodup_body (h : p.Labelled) : p.body.preorder.Nodup := by
  have hsublist := Forest.preorder_below_sublist h.document_mem
  exact h.nodup.sublist hsublist

theorem root_notMem_body (h : p.Labelled) : root ∉ p.body.preorder := by
  obtain ⟨rest, hforest⟩ := h.exists_forest_eq
  have hnodup := h.nodup
  rw [hforest, Forest.preorder, List.nodup_cons, List.mem_append, not_or] at hnodup
  exact hnodup.1.1

/-- The document has no parent. -/
theorem parent?_root (h : p.Labelled) : p.parent? root = none := by
  rw [Option.eq_none_iff_forall_ne_some]
  intro n hn
  obtain ⟨hmem, hroot⟩ := h.parent?_eq_some_iff.mp hn
  obtain ⟨rest, hforest⟩ := h.exists_forest_eq
  have hnodup := h.nodup
  have hlists : p.forest.Lists n.label root := ⟨n, hmem, rfl, hroot⟩
  rw [hforest, Forest.preorder, List.nodup_cons, List.mem_append, not_or] at hnodup
  rw [hforest, Forest.lists_cons] at hlists
  rcases hlists with ⟨-, hbody⟩ | hbody | hrest
  · exact hnodup.1.1 ((Forest.rootLabels_sublist _).subset hbody)
  · exact hnodup.1.1 hbody.mem_preorder
  · exact hnodup.1.2 hrest.mem_preorder

theorem ancestors_root (h : p.Labelled) : p.ancestors root = [] := by
  rw [h.ancestors_eq, h.parent?_root]

/-- A node of the document has a parent, which is the document or stands in it. -/
theorem exists_parent_of_mem_body (h : p.Labelled) (hl : l ∈ p.body.preorder) :
    ∃ n, p.parent? l = some n ∧ (n.label = root ∨ n ∈ p.body.nodes) := by
  rcases Forest.mem_preorder_iff.mp hl with hroot | ⟨a, n, hn, -, hlists⟩
  · exact ⟨_, h.parent?_eq_some_iff.mpr ⟨h.document_mem, hroot⟩, .inl rfl⟩
  · exact ⟨n, h.parent?_eq_some_iff.mpr ⟨h.mem_nodes_of_mem_body hn, hlists⟩, .inr hn⟩

/-- The nodes of the document are those below it. -/
theorem mem_body_iff (h : p.Labelled) : l ∈ p.body.preorder ↔ p.isDescendant l root = true := by
  rw [h.isDescendant_iff]
  constructor
  · intro hl
    exact ⟨_, h.node?_label h.document_mem, hl⟩
  · rintro ⟨n, hn, hl⟩
    rw [h.node?_label h.document_mem] at hn
    cases hn
    exact hl

/-- What stands above a node of the document is the document or stands in it. -/
theorem mem_body_of_mem_ancestors (h : p.Labelled) (hl : l ∈ p.body.preorder)
    (hn : n ∈ p.ancestors l) : n.label = root ∨ n ∈ p.body.nodes := by
  induction l using h.upwards_induction with
  | step l ih =>
    obtain ⟨m, hparent, hm⟩ := h.exists_parent_of_mem_body hl
    rw [h.ancestors_eq, hparent] at hn
    rcases List.mem_cons.mp hn with rfl | hn
    · exact hm
    · rcases hm with hroot | hbody
      · rw [hroot, h.ancestors_root] at hn
        cases hn
      · exact ih m hparent (Forest.label_mem_preorder hbody) hn

end Labelled

end BindingDocs.Page
