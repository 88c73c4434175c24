import BindingDocs.Proofs.Page.HeapLinks
import BindingDocs.Proofs.Page.Labelled

/-!
# Forests and stored nodes

A forest says of each node where it stands, and so it says what the node knows when it is stored:
its parent and its children.  Read along the lists of children, the stored nodes give the forest
back, and along the parents the same nodes are met as in the forest.

Of stored nodes with links in agreement only items and children need to be compared: the parents
follow from the children.

## Main definitions

* `Page.toHeap` — a page as its nodes are stored.

## Main results

* `Labelled.consistent_toHeap` — the stored nodes of a page have links in agreement.
* `Labelled.toHeap_eq` — stored nodes that are those of a page.
* `Labelled.node?_toHeap`, `Labelled.ancestors_toHeap` — **the same is found**, downwards and
  upwards.
-/

namespace BindingDocs.Page

open Page (Forest Item Node)

/-- A page as its nodes are stored. -/
def toHeap (p : Page) : Heap :=
  ⟨(List.range p.next).map fun l =>
    (p.node? l).map fun n => ⟨n.item, p.parentLabel? l, n.below.rootLabels⟩⟩

/-! ### Comparing stored nodes -/

namespace Heap

variable {s t : Heap}

theorem ext_cell (hnext : s.next = t.next) (hcell : ∀ l, s.cell? l = t.cell? l) : s = t := by
  obtain ⟨cells⟩ := s
  obtain ⟨cells'⟩ := t
  rw [Heap.mk.injEq]
  refine List.ext_getElem hnext fun l hl hl' => ?_
  have heq := hcell l
  rwa [cell?, cell?, List.getElem?_eq_getElem hl, List.getElem?_eq_getElem hl', Option.join_some,
    Option.join_some] at heq

theorem cell?_eq (s : Heap) (l : Nat) :
    s.cell? l = (s.item? l).map fun i => ⟨i, s.parent? l, s.children l⟩ := by
  rw [item?, parent?, children]
  cases s.cell? l <;> rfl

/-- Items and children decide where the links are in agreement. -/
theorem Consistent.eq_of_children (hs : s.Consistent) (ht : t.Consistent) (hnext : s.next = t.next)
    (hitem : ∀ l, s.item? l = t.item? l) (hchildren : ∀ l, s.children l = t.children l) :
    s = t := by
  refine ext_cell hnext fun l => ?_
  have hparent : s.parent? l = t.parent? l := by
    refine Option.ext fun a => ?_
    rw [← hs.mem_children_iff, ← ht.mem_children_iff, hchildren]
  rw [cell?_eq, cell?_eq, hitem, hparent, hchildren]

end Heap

/-! ### What is stored -/

section View

variable {p q : Page} {a l m : Nat} {n : Node} {s : Heap}

theorem Labelled.node?_eq_none (h : p.Labelled) (hl : p.next ≤ l) : p.node? l = none :=
  Forest.find?_eq_none_iff.mpr fun hmem => Nat.not_lt.mpr hl (h.lt_next l hmem)

@[simp] theorem next_toHeap (p : Page) : p.toHeap.next = p.next := by
  rw [Heap.next, toHeap, List.length_map, List.length_range]

theorem Labelled.cell?_toHeap (h : p.Labelled) (l : Nat) :
    p.toHeap.cell? l =
      (p.node? l).map fun n => ⟨n.item, p.parentLabel? l, n.below.rootLabels⟩ := by
  rcases Nat.lt_or_ge l p.next with hl | hl
  · rw [Heap.cell?, toHeap, List.getElem?_map, List.getElem?_range hl]
    rfl
  · rw [h.node?_eq_none hl, Heap.cell?_of_next_le (by rwa [next_toHeap])]
    rfl

theorem Labelled.item?_toHeap (h : p.Labelled) (l : Nat) :
    p.toHeap.item? l = (p.node? l).map (·.item) := by
  rw [Heap.item?, h.cell?_toHeap, Option.map_map]
  rfl

theorem Labelled.children_toHeap (h : p.Labelled) (l : Nat) :
    p.toHeap.children l = p.children l := by
  rw [Heap.children, h.cell?_toHeap, Option.map_map]
  rfl

theorem Labelled.hasNode_toHeap (h : p.Labelled) :
    p.toHeap.hasNode l = true ↔ l ∈ p.forest.preorder := by
  rw [Heap.hasNode, h.cell?_toHeap, Option.isSome_map, Option.isSome_iff_ne_none, ne_eq, node?,
    Forest.find?_eq_none_iff, not_not]

theorem Labelled.parent?_toHeap (h : p.Labelled) (l : Nat) :
    p.toHeap.parent? l = p.parentLabel? l := by
  rw [Heap.parent?, h.cell?_toHeap]
  cases hnode : p.node? l with
  | some n => rfl
  | none =>
    -- what is no node has no parent
    symm
    rw [Option.map_none, Option.bind_none, Option.eq_none_iff_forall_ne_some]
    intro a ha
    have hlists := h.parentLabel?_eq_some_iff.mp ha
    exact Forest.find?_eq_none_iff.mp hnode hlists.mem_preorder

/-- **Stored nodes of a page have links in agreement.** -/
theorem Labelled.consistent_toHeap (h : p.Labelled) : p.toHeap.Consistent where
  mem_children_iff := by
    intro a c
    rw [h.children_toHeap, h.parent?_toHeap, h.mem_children_iff]
  nodup_children := by
    intro a
    rw [h.children_toHeap]
    exact h.nodup_children a
  not_isAbove_self := by
    intro l hl
    simp only [Heap.IsAbove, h.parent?_toHeap] at hl
    exact h.not_isAbove_self l hl

/-- Stored nodes that are those of a page. -/
theorem Labelled.toHeap_eq (h : q.Labelled) (hs : s.Consistent) (hnext : s.next = q.next)
    (hitem : ∀ l, s.item? l = (q.node? l).map (·.item))
    (hchildren : ∀ l, s.children l = q.children l) : q.toHeap = s := by
  refine h.consistent_toHeap.eq_of_children hs ?_ (fun l => ?_) fun l => ?_
  · rw [next_toHeap, hnext]
  · rw [h.item?_toHeap, hitem]
  · rw [h.children_toHeap, hchildren]

/-! ### What is found -/

/-- **Along the lists of children the trees are read again.** -/
theorem Labelled.trees_toHeap (h : p.Labelled) {f : Forest} (hf : f.nodes ⊆ p.forest.nodes)
    {fuel : Nat} (hfuel : f.size ≤ fuel) : p.toHeap.trees fuel f.rootLabels = f := by
  induction f generalizing fuel with
  | nil => cases fuel <;> rfl
  | cons m i below next ihb ihn =>
    rw [Forest.nodes, List.cons_subset, List.append_subset] at hf
    obtain ⟨hm, hbelow, hnext⟩ := hf
    rw [Forest.size] at hfuel
    obtain ⟨fuel, rfl⟩ := Nat.exists_eq_add_one_of_ne_zero (show fuel ≠ 0 by omega)
    have hnode : p.node? m = some ⟨m, i, below⟩ := h.node?_label hm
    rw [Forest.rootLabels, Heap.trees, h.cell?_toHeap, hnode]
    simp only [Option.map_some]
    rw [ihb hbelow (by omega), ihn hnext (by omega)]

theorem Forest.length_preorder (f : Forest) : f.preorder.length = f.size := by
  induction f with
  | nil => rfl
  | cons l i below next ihb ihn =>
    rw [preorder, size, List.length_cons, List.length_append, ihb, ihn]

theorem Labelled.size_le_next (h : p.Labelled) : p.forest.size ≤ p.next := by
  have hsubset : p.forest.preorder ⊆ List.range p.next := fun l hl =>
    List.mem_range.mpr (h.lt_next l hl)
  have hle := h.nodup.length_le_of_subset hsubset
  rwa [List.length_range, Forest.length_preorder] at hle

/-- **A node is found with everything below it.** -/
theorem Labelled.node?_toHeap (h : p.Labelled) (l : Nat) : p.toHeap.node? l = p.node? l := by
  rw [Heap.node?, h.cell?_toHeap, Option.map_map, next_toHeap]
  cases hnode : p.node? l with
  | none => rfl
  | some n =>
    obtain ⟨hn, rfl⟩ := h.node?_eq_some_iff.mp hnode
    have hsize : n.below.size ≤ p.next :=
      Nat.le_trans (Nat.le_of_lt (Forest.size_below_lt hn)) h.size_le_next
    have htrees := h.trees_toHeap (Forest.nodes_below_sublist hn).subset hsize
    simp only [Option.map_some, Function.comp_apply, htrees]

theorem Labelled.document_toHeap (h : p.Labelled) : p.toHeap.document = p.document := by
  rw [Heap.document, h.node?_toHeap, document]

theorem Labelled.descendants_toHeap (h : p.Labelled) : p.toHeap.descendants = p.descendants := by
  rw [Heap.descendants, h.document_toHeap, descendants]

theorem Labelled.elements_toHeap (h : p.Labelled) (tag : String) :
    p.toHeap.elements tag = p.elements tag := by
  rw [Heap.elements, h.document_toHeap, elements]

/-- **Along the parents the same nodes are met.** -/
theorem Labelled.ancestors_toHeap (h : p.Labelled) (l : Nat) :
    p.toHeap.ancestors l = (p.ancestors l).map (·.label) := by
  induction l using h.upwards_induction with
  | step l ih =>
    rw [h.consistent_toHeap.ancestors_eq, h.ancestors_eq, h.parent?_toHeap, parentLabel?]
    cases hparent : p.parent? l with
    | none => rfl
    | some n =>
      simp only [Option.map_some, List.map_cons]
      rw [ih n hparent]

theorem Labelled.isDescendant_toHeap (h : p.Labelled) (l a : Nat) :
    p.toHeap.isDescendant l a = p.isDescendant l a := by
  rw [Heap.isDescendant, h.ancestors_toHeap, isDescendant, Bool.eq_iff_iff, List.contains_iff_mem,
    List.mem_map, List.any_eq_true]
  simp only [beq_iff_eq]

end View

end BindingDocs.Page
