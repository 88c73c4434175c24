import BindingDocs.Proofs.Page.DocumentOrder
import BindingDocs.Proofs.Page.Insertion

/-!
# Copies outside the document

A node is copied one node after the other: each is made with a label that was free, filled, and put
below the copy of its parent.  What comes out is a tree of its own with the items of the original in
the same order, and the page is otherwise as it was.

From then on the two have nothing in common.  A change at some nodes is felt in the trees that
these stand in and in no other, so a tree stays as it is for as long as no change names a node of
it.  This holds of the copy while the original is changed, and of the original while the copy is.

## Main definitions

* `Mutation`, `mutate` — what is done to a page at single nodes, and one after the other.
* `Clones` — everything that is known of a page with a copy in it.

## Main results

* `Labelled.attach` — every node keeps a label of its own when a tree is put below a node.
* `deepClone_eq`, `append_toForest_eq_attach_deepClone` — copies by relabelling.
* `Mutation.mem_roots` — **a tree that no change names a node of stays as it is.**
* `deepClone_apart` — **a copy is like the original, and independent of it.**
-/

namespace BindingDocs.Page

open Page (Forest Item Node)

open scoped List

/-! ### Trees of a forest -/

namespace Forest

variable {f g : Forest} {a c l : Nat} {n r : Node} {u : Forest → Forest}

theorem roots_append (f g : Forest) : (f ++ g).roots = f.roots ++ g.roots := by
  induction f with
  | nil => rfl
  | cons m i below next _ ih => rw [cons_append, roots, roots, ih, List.cons_append]

theorem exists_root (hn : n ∈ f.nodes) : ∃ r ∈ f.roots, n ∈ r.toForest.nodes := by
  induction f with
  | nil => cases hn
  | cons m i below next _ ih =>
    rw [nodes, ← List.cons_append, List.mem_append] at hn
    rcases hn with hn | hn
    · refine ⟨⟨m, i, below⟩, List.mem_cons_self, ?_⟩
      rwa [Node.toForest, nodes, nodes, List.append_nil]
    · obtain ⟨r, hr, hnr⟩ := ih hn
      exact ⟨r, List.mem_cons_of_mem _ hr, hnr⟩

/-- No root is listed among the children of a node. -/
theorem not_lists_of_mem_roots (h : f.preorder.Nodup) (hr : r ∈ f.roots) (a : Nat) :
    ¬ f.Lists a r.label := by
  induction f with
  | nil => cases hr
  | cons m i below next _ ih =>
    rw [preorder, List.nodup_cons, List.mem_append, not_or] at h
    obtain ⟨⟨hmb, hmn⟩, hnodup⟩ := h
    obtain ⟨-, hn, hdisjoint⟩ := List.nodup_append.mp hnodup
    rw [lists_cons]
    rcases List.mem_cons.mp hr with rfl | hr
    · rintro (⟨-, hlisted⟩ | hlisted | hlisted)
      · exact hmb ((rootLabels_sublist _).subset hlisted)
      · exact hmb hlisted.mem_preorder
      · exact hmn hlisted.mem_preorder
    · have hnext : r.label ∈ next.preorder := label_mem_preorder (roots_subset_nodes hr)
      rintro (⟨-, hlisted⟩ | hlisted | hlisted)
      · exact hdisjoint _ ((rootLabels_sublist _).subset hlisted) _ hnext rfl
      · exact hdisjoint _ hlisted.mem_preorder _ hnext rfl
      · exact ih hn hr hlisted

/-- What is taken out elsewhere is not felt in a tree. -/
theorem mem_roots_without (hr : r ∈ f.roots) (hl : l ∉ r.toForest.preorder) :
    r ∈ (f.without l).roots := by
  induction f with
  | nil => cases hr
  | cons m i below next _ ih =>
    rw [without]
    rcases List.mem_cons.mp hr with rfl | hr
    · rw [Node.mem_toForest_iff, not_or] at hl
      rw [if_neg (Ne.symm hl.1), without_eq_self hl.2]
      exact List.mem_cons_self
    · split
      · exact ih hr
      · exact List.mem_cons_of_mem _ (ih hr)

/-- What is changed elsewhere is not felt in a tree. -/
theorem mem_roots_updateBelow (hr : r ∈ f.roots) (hl : l ∉ r.toForest.preorder) :
    r ∈ (f.updateBelow l u).roots := by
  induction f with
  | nil => cases hr
  | cons m i below next _ ih =>
    rw [updateBelow]
    rcases List.mem_cons.mp hr with rfl | hr
    · rw [Node.mem_toForest_iff, not_or] at hl
      rw [if_neg (Ne.symm hl.1), updateBelow_eq_self hl.2]
      exact List.mem_cons_self
    · split
      · exact List.mem_cons_of_mem _ hr
      · exact List.mem_cons_of_mem _ (ih hr)

theorem mem_roots_append_left (hr : r ∈ f.roots) (g : Forest) : r ∈ (f ++ g).roots := by
  rw [roots_append]
  exact List.mem_append_left _ hr

/-- The last tree is taken out. -/
theorem without_append_of_notMem (hf : l ∉ f.preorder) (i : Item) (below : Forest) :
    (f ++ cons l i below nil).without l = f := by
  induction f with
  | nil => rw [nil_append, without, if_pos rfl, without]
  | cons m j b next _ ih =>
    rw [preorder, List.mem_cons, List.mem_append, not_or, not_or] at hf
    rw [cons_append, without, if_neg (Ne.symm hf.1), without_eq_self hf.2.1, ih hf.2.2]

/-- The last tree is changed. -/
theorem updateBelow_append_of_notMem (hf : l ∉ f.preorder) (i : Item) (below : Forest) :
    (f ++ cons l i below nil).updateBelow l u = f ++ cons l i (u below) nil := by
  induction f with
  | nil => rw [nil_append, updateBelow, if_pos rfl, nil_append]
  | cons m j b next _ ih =>
    rw [preorder, List.mem_cons, List.mem_append, not_or, not_or] at hf
    rw [cons_append, updateBelow, if_neg (Ne.symm hf.1), updateBelow_eq_self hf.2.1, ih hf.2.2,
      cons_append]

/-- A copy has the items of the original in the same order. -/
theorem IsCopyOf.map_item_nodes {copy : Forest} (h : copy.IsCopyOf f) :
    copy.nodes.map Node.item = f.nodes.map Node.item := by
  induction h with
  | nil => rfl
  | cons l m i _ _ ihb ihn =>
    rw [nodes, nodes, List.map_cons, List.map_cons, List.map_append, List.map_append, ihb, ihn]

end Forest

/-! ### Trees of a page -/

section Trees

variable {p : Page} {c l : Nat} {n r : Node}

/-- The root of a tree has no parent. -/
theorem Labelled.isLoose_of_mem_roots (h : p.Labelled) (hr : r ∈ p.forest.roots) :
    p.IsLoose r.label :=
  h.isLoose_iff.mpr (Forest.not_lists_of_mem_roots h.nodup hr)

theorem Labelled.node?_of_mem_roots (h : p.Labelled) (hr : r ∈ p.forest.roots)
    (hn : n ∈ r.toForest.nodes) : p.node? n.label = some n :=
  h.node?_label (Forest.nodes_toForest_subset (Forest.roots_subset_nodes hr) hn)

theorem Labelled.root_mem (h : p.Labelled) : root ∈ p.forest.preorder := by
  obtain ⟨body, rest, hforest⟩ := h.document_first
  rw [hforest]
  exact List.mem_cons_self

theorem Labelled.next_ne_root (h : p.Labelled) : p.next ≠ root :=
  Nat.ne_of_gt (h.lt_next root h.root_mem)

/-- The last tree has no label of another. -/
theorem Labelled.last_notMem (h : p.Labelled) {f b : Forest} {i : Item}
    (hforest : p.forest = f ++ .cons c i b .nil) :
    ∀ l ∈ f.preorder, l ∉ (Forest.cons c i b .nil).preorder := by
  have hnodup := h.nodup
  rw [hforest, Forest.preorder_append, List.nodup_append] at hnodup
  exact fun l hl hin => hnodup.2.2 l hl l hin rfl

/-- Trees under labels that were free. -/
theorem Labelled.append_relabel (h : p.Labelled) (f : Forest) :
    Labelled ⟨p.forest ++ (f.relabel p.next).1, (f.relabel p.next).2⟩ where
  nodup := by
    rw [Forest.preorder_append, Forest.preorder_relabel, List.nodup_append]
    refine ⟨h.nodup, List.nodup_range', ?_⟩
    rintro a ha b hb rfl
    rw [List.mem_range'_1] at hb
    exact Nat.lt_irrefl _ (Nat.lt_of_lt_of_le (h.lt_next a ha) hb.1)
  lt_next := by
    intro l hl
    rw [Forest.preorder_append, List.mem_append, Forest.preorder_relabel, List.mem_range'_1] at hl
    show l < (f.relabel p.next).2
    rw [Forest.relabel_snd]
    rcases hl with hl | hl
    · exact Nat.lt_of_lt_of_le (h.lt_next l hl) (Nat.le_add_right _ _)
    · exact hl.2
  document_first := by
    obtain ⟨body, rest, hforest⟩ := h.document_first
    exact ⟨body, rest ++ (f.relabel p.next).1, by rw [hforest, Forest.cons_append]⟩

theorem Labelled.addLoose (h : p.Labelled) (i : Item) : (p.addLoose i).Labelled :=
  h.append_relabel (.cons 0 i .nil .nil)

theorem Labelled.isAttachable_iff (h : p.Labelled) (hn : p.node? c = some n) :
    p.isAttachable l c = true ↔
      c ≠ root ∧ p.parent? c = none ∧ l ∈ p.forest.preorder ∧ l ∉ n.toForest.preorder := by
  have hlabel := (h.node?_eq_some_iff.mp hn).2
  have hmem : (p.node? l).isSome = true ↔ l ∈ p.forest.preorder := by
    rw [node?, Option.isSome_iff_ne_none, ne_eq, Forest.find?_eq_none_iff, not_not]
  have hbelow : p.isDescendant l c = true ↔ l ∈ n.below.preorder := by
    rw [h.isDescendant_iff, hn]
    simp
  simp only [isAttachable, Bool.and_eq_true, bne_iff_ne, Option.isNone_iff_eq_none, hmem,
    Bool.not_eq_true', ← Bool.not_eq_true, hbelow, Node.mem_toForest_iff, hlabel, not_or, and_assoc]

/-- **Every node keeps a label of its own when a tree is put below a node.** -/
theorem Labelled.attach (h : p.Labelled) (l c : Nat) : (p.attach l c).Labelled := by
  rw [Page.attach, moveInto]
  split
  · next hattach =>
    cases hn : p.node? c with
    | none => exact h
    | some n =>
      obtain ⟨hroot, -, hl, hout⟩ := (h.isAttachable_iff hn).mp hattach
      have hperm := Forest.preorder_without h.nodup hn
      have hnodup : (p.forest.without c).preorder.Nodup :=
        (List.nodup_append.mp (hperm.nodup_iff.mp h.nodup)).1
      -- the node stands outside the tree, so it is still there when that is gone
      have hleft : l ∈ (p.forest.without c).preorder :=
        (List.mem_append.mp (hperm.mem_iff.mp hl)).resolve_right hout
      obtain ⟨m, hm, hlabel⟩ := Forest.exists_node_of_mem_preorder hleft
      have hfind : (p.forest.without c).find? l = some m :=
        (Forest.find?_eq_some_iff hnodup).mpr ⟨hm, hlabel⟩
      refine h.of_perm ?_ rfl ?_
      · refine (Forest.preorder_graft_of_find? (g := n.toForest) (fun b => ?_) hnodup hfind).trans
          hperm.symm
        exact ⟨b, .nil, by simp, by simp⟩
      · obtain ⟨body, rest, hforest⟩ := h.document_first
        simp only [hforest, Forest.without, if_neg (Ne.symm hroot), Forest.updateBelow]
        split
        · exact ⟨_, _, rfl⟩
        · exact ⟨_, _, rfl⟩
  · exact h

/-- The last tree of a page is put below another node. -/
theorem Labelled.attach_last (h : p.Labelled) {f b : Forest} {i : Item}
    (hforest : p.forest = f ++ .cons c i b .nil) (hl : l ∈ f.preorder) (hroot : c ≠ root) :
    p.attach l c = ⟨f.updateBelow l (· ++ .cons c i b .nil), p.next⟩ := by
  have hlast : ⟨c, i, b⟩ ∈ p.forest.roots := by
    rw [hforest, Forest.roots_append]
    exact List.mem_append_right _ List.mem_cons_self
  have hnode : p.node? c = some ⟨c, i, b⟩ := h.node?_label (Forest.roots_subset_nodes hlast)
  have hparent : p.parent? c = none := (h.isLoose_of_mem_roots hlast).1
  have hapart := h.last_notMem hforest
  have hmem : l ∈ p.forest.preorder := by
    rw [hforest, Forest.preorder_append]
    exact List.mem_append_left _ hl
  have hc : c ∉ f.preorder := fun hin => hapart c hin List.mem_cons_self
  have hattach : p.isAttachable l c = true :=
    (h.isAttachable_iff hnode).mpr ⟨hroot, hparent, hmem, hapart l hl⟩
  rw [Page.attach, if_pos hattach, moveInto, hnode, hforest]
  simp only [Forest.without_append_of_notMem hc, Node.toForest]

/-! ### Copies -/

/-- Copies come to stand below the last tree of a page under labels that were free. -/
theorem cloneBelow_eq (g : Forest) {p : Page} (h : p.Labelled) {f b : Forest} {i : Item}
    (hforest : p.forest = f ++ .cons c i b .nil) (hroot : c ≠ root) :
    cloneBelow c g p =
      ⟨f ++ .cons c i (b ++ (g.relabel p.next).1) .nil, (g.relabel p.next).2⟩ := by
  induction g generalizing p f c i b with
  | nil =>
    rw [cloneBelow, Forest.relabel, Forest.append_nil, ← hforest]
  | cons m j below next ihb ihn =>
    have hc : c ∈ p.forest.preorder := by
      rw [hforest, Forest.preorder_append]
      exact List.mem_append_right _ List.mem_cons_self
    have hcf : c ∉ f.preorder := fun hin => h.last_notMem hforest c hin List.mem_cons_self
    -- the first tree is copied as a whole before it is put below the node
    have hfirst : Labelled ⟨p.forest ++ .cons p.next j (below.relabel (p.next + 1)).1 .nil,
        (below.relabel (p.next + 1)).2⟩ := h.append_relabel (.cons m j below .nil)
    have hcopied : cloneBelow p.next below (p.addLoose j) =
        ⟨p.forest ++ .cons p.next j (below.relabel (p.next + 1)).1 .nil,
          (below.relabel (p.next + 1)).2⟩ := ihb (h.addLoose j) rfl h.next_ne_root
    have hput := hfirst.attach_last rfl hc h.next_ne_root
    have hlabelled := hfirst.attach c p.next
    rw [hput, hforest, Forest.updateBelow_append_of_notMem hcf] at hlabelled
    generalize hcopy : below.relabel (p.next + 1) = copy at hcopied hput hlabelled
    calc cloneBelow c (.cons m j below next) p
        = cloneBelow c next ((cloneBelow p.next below (p.addLoose j)).attach c p.next) := by
          rw [cloneBelow]
      _ = cloneBelow c next
            ⟨f ++ .cons c i (b ++ .cons p.next j copy.1 .nil) .nil, copy.2⟩ := by
          rw [hcopied, hput, hforest, Forest.updateBelow_append_of_notMem hcf]
      _ = ⟨f ++ .cons c i (b ++ .cons p.next j copy.1 .nil ++ (next.relabel copy.2).1) .nil,
            (next.relabel copy.2).2⟩ := ihn hlabelled rfl hroot
      _ = ⟨f ++ .cons c i (b ++ ((Forest.cons m j below next).relabel p.next).1) .nil,
            ((Forest.cons m j below next).relabel p.next).2⟩ := by
          rw [Forest.append_assoc, Forest.relabel, hcopy]
          rfl

/-- The copy of a node in a page: what it holds, under labels that were free. -/
def copyOf (n : Node) (p : Page) : Node := ⟨p.next, n.item, (n.below.relabel (p.next + 1)).1⟩

theorem toForest_copyOf (n : Node) (p : Page) :
    (p.copyOf n).toForest = (n.toForest.relabel p.next).1 := rfl

/-- **A copy is made by relabelling.** -/
theorem deepClone_eq (h : p.Labelled) (n : Node) : p.deepClone n =
    ⟨p.forest ++ (p.copyOf n).toForest, (n.toForest.relabel p.next).2⟩ :=
  cloneBelow_eq n.below (h.addLoose n.item) rfl h.next_ne_root

theorem Labelled.deepClone (h : p.Labelled) (n : Node) : (p.deepClone n).Labelled := by
  rw [deepClone_eq h]
  exact h.append_relabel n.toForest

/-- Trees that are put below a node are copies made outside the document first. -/
theorem append_toForest_eq_attach_deepClone (h : p.Labelled) (hl : l ∈ p.forest.preorder)
    (n : Node) : p.append l n.toForest = (p.deepClone n).attach l p.next := by
  have hclone := h.deepClone n
  rw [deepClone_eq h] at hclone ⊢
  exact (hclone.attach_last rfl hl h.next_ne_root).symm

/-! ### Changes at single nodes -/

/-- What is done to a page at single nodes. -/
inductive Mutation where
  /-- A new node outside every tree. -/
  | create (i : Item)
  | attach (l child : Nat)
  | detach (l : Nat)
  | clear (l : Nat)
  | replaceText (l : Nat) (old new : String)

/-- The page after it. -/
def Mutation.apply : Mutation → Page → Page
  | create i, p => p.addLoose i
  | attach l child, p => p.attach l child
  | detach l, p => p.detach l
  | clear l, p => p.clear l
  | replaceText l old new, p => p.replaceTextBelow l old new

/-- The nodes that it names. -/
def Mutation.labels : Mutation → List Nat
  | create _ => []
  | attach l child => [l, child]
  | detach l => [l]
  | clear l => [l]
  | replaceText l _ _ => [l]

/-- The page after one thing and another. -/
def mutate (ms : List Mutation) (p : Page) : Page := ms.foldl (fun p m => m.apply p) p

/-- None of them names a node of this tree. -/
def AllElsewhere (r : Node) (ms : List Mutation) : Prop :=
  ∀ m ∈ ms, ∀ l ∈ m.labels, l ∉ r.toForest.preorder

instance (r : Node) (ms : List Mutation) : Decidable (AllElsewhere r ms) :=
  inferInstanceAs (Decidable (∀ m ∈ ms, ∀ l ∈ m.labels, l ∉ r.toForest.preorder))

theorem Mutation.labelled (h : p.Labelled) (m : Mutation) : (m.apply p).Labelled := by
  cases m with
  | create i => exact h.addLoose i
  | attach l child => exact h.attach l child
  | detach l => exact (follows_detach h l).labelled
  | clear l => exact (follows_clear h l).labelled
  | replaceText l old new => exact (follows_replaceTextBelow h l old new).labelled

/-- **A tree that no change names a node of stays as it is.** -/
theorem Mutation.mem_roots (hr : r ∈ p.forest.roots) {m : Mutation}
    (hm : ∀ l ∈ m.labels, l ∉ r.toForest.preorder) : r ∈ (m.apply p).forest.roots := by
  cases m with
  | create i => exact Forest.mem_roots_append_left hr _
  | attach l child =>
    have hl := hm l (by simp [labels])
    have hchild := hm child (by simp [labels])
    rw [apply, Page.attach, moveInto]
    split
    · split
      · exact Forest.mem_roots_updateBelow (Forest.mem_roots_without hr hchild) hl
      · exact hr
    · exact hr
  | detach l =>
    have hl := hm l List.mem_cons_self
    rw [apply, Page.detach]
    split
    · exact Forest.mem_roots_append_left (Forest.mem_roots_without hr hl) _
    · exact hr
  | clear l =>
    have hl := hm l List.mem_cons_self
    rw [apply, Page.clear]
    split
    · exact Forest.mem_roots_append_left (Forest.mem_roots_updateBelow hr hl) _
    · exact hr
  | replaceText l old new => exact Forest.mem_roots_updateBelow hr (hm l List.mem_cons_self)

theorem Labelled.mutate (h : p.Labelled) (ms : List Mutation) : (mutate ms p).Labelled := by
  induction ms generalizing p with
  | nil => exact h
  | cons m ms ih => exact ih (m.labelled h)

theorem mem_roots_mutate (hr : r ∈ p.forest.roots) {ms : List Mutation} (hms : AllElsewhere r ms) :
    r ∈ (mutate ms p).forest.roots := by
  induction ms generalizing p with
  | nil => exact hr
  | cons m ms ih =>
    obtain ⟨hm, hms⟩ := List.forall_mem_cons.mp hms
    exact ih (Mutation.mem_roots hr hm) hms

/-- Every node of the tree stays as it is. -/
theorem Labelled.node?_mutate (h : p.Labelled) (hr : r ∈ p.forest.roots)
    (hn : n ∈ r.toForest.nodes) {ms : List Mutation} (hms : AllElsewhere r ms) :
    (Page.mutate ms p).node? n.label = some n :=
  (h.mutate ms).node?_of_mem_roots (mem_roots_mutate hr hms) hn

/-! ### A copy and its original -/

/-- The page `q` is the page `p` with the tree `copy` in addition, which is like the node `n`. -/
structure Clones (p q : Page) (n copy : Node) : Prop where
  labelled : q.Labelled
  forest : q.forest = p.forest ++ copy.toForest
  fresh : ∀ l ∈ copy.toForest.preorder, l ∉ p.forest.preorder
  loose : q.IsLoose copy.label
  nodes : ∀ l ∈ p.forest.preorder, q.node? l = p.node? l
  parents : ∀ l ∈ p.forest.preorder, q.parentLabel? l = p.parentLabel? l
  document : q.document = p.document
  items : copy.toForest.nodes.map Node.item = n.toForest.nodes.map Node.item
  textContent : copy.textContent = n.textContent
  written : ∀ raw silent,
    Html.write raw silent copy.toForest = Html.write raw silent n.toForest

theorem fresh_copyOf (h : p.Labelled) (n : Node) :
    ∀ l ∈ (p.copyOf n).toForest.preorder, l ∉ p.forest.preorder := by
  intro l hl hold
  rw [toForest_copyOf, Forest.preorder_relabel, List.mem_range'_1] at hl
  exact Nat.lt_irrefl _ (Nat.lt_of_lt_of_le (h.lt_next l hold) hl.1)

theorem copyOf_mem_roots (h : p.Labelled) (n : Node) :
    p.copyOf n ∈ (p.deepClone n).forest.roots := by
  rw [deepClone_eq h, Forest.roots_append]
  exact List.mem_append_right _ List.mem_cons_self

theorem node?_deepClone (h : p.Labelled) (n : Node) (hl : l ∈ p.forest.preorder) :
    (p.deepClone n).node? l = p.node? l := by
  obtain ⟨m, hm, rfl⟩ := Forest.exists_node_of_mem_preorder hl
  rw [h.node?_label hm, (h.deepClone n).node?_eq_some_iff, deepClone_eq h, Forest.nodes_append]
  exact ⟨List.mem_append_left _ hm, rfl⟩

theorem clones_deepClone (h : p.Labelled) (n : Node) :
    p.Clones (p.deepClone n) n (p.copyOf n) where
  labelled := h.deepClone n
  forest := by rw [deepClone_eq h]
  fresh := fresh_copyOf h n
  loose := (h.deepClone n).isLoose_of_mem_roots (copyOf_mem_roots h n)
  nodes := fun l hl => node?_deepClone h n hl
  parents := by
    intro l hl
    have hfresh : l ∉ (p.copyOf n).toForest.preorder := fun hin => fresh_copyOf h n l hin hl
    refine Option.ext fun a => ?_
    rw [(h.deepClone n).parentLabel?_eq_some_iff, h.parentLabel?_eq_some_iff, deepClone_eq h,
      Forest.lists_append, or_iff_left fun hlists => hfresh hlists.mem_preorder]
  document := by rw [Page.document, Page.document, node?_deepClone h n h.root_mem]
  items := (Forest.isCopyOf_relabel p.next n.toForest).map_item_nodes
  textContent := by
    have hitems := congrArg (List.filterMap Item.text?)
      (Forest.isCopyOf_relabel p.next n.toForest).map_item_nodes
    rw [List.filterMap_map, List.filterMap_map] at hitems
    rw [Node.textContent_eq_join, Node.textContent_eq_join]
    exact congrArg String.join hitems
  written := (Forest.isCopyOf_relabel p.next n.toForest).write_eq

/-- **A copy is like the original, and independent of it.**  It has no parent and no node of the
page, which is left as it was.  From then on the copy stays as it is, and is written as it was, for
as long as its own nodes are not named, whatever is done to the original and to everything else.
The original stays as it is for as long as the nodes of its tree are not named, whatever is done to
the copy. -/
theorem deepClone_apart (h : p.Consistent) (hn : n ∈ p.forest.nodes) :
    p.Clones (p.deepClone n) n (p.copyOf n) ∧
    (∀ ms, AllElsewhere (p.copyOf n) ms →
      (mutate ms (p.deepClone n)).node? (p.copyOf n).label = some (p.copyOf n)) ∧
    ∃ r ∈ p.forest.roots, n ∈ r.toForest.nodes ∧ ∀ ms, AllElsewhere r ms →
      (mutate ms (p.deepClone n)).node? n.label = some n := by
  have hclone := h.toLabelled.deepClone n
  refine ⟨clones_deepClone h.toLabelled n, fun ms hms => ?_, ?_⟩
  · exact hclone.node?_mutate (copyOf_mem_roots h.toLabelled n) List.mem_cons_self hms
  · obtain ⟨r, hr, hnr⟩ := Forest.exists_root hn
    refine ⟨r, hr, hnr, fun ms hms => hclone.node?_mutate ?_ hnr hms⟩
    rw [deepClone_eq h.toLabelled]
    exact Forest.mem_roots_append_left hr _

end Trees

/-- A table of one row and one cell. -/
def cellPage : Page :=
  ⟨.cons root .document (.cons 1 (.element { name := "table" })
    (.cons 2 (.element { name := "tr" }) (.cons 3 (.element { name := "td" }) .nil .nil) .nil) .nil)
    .nil, 4⟩

theorem cellPage_labelled : cellPage.Labelled := ⟨by decide, by decide, ⟨_, _, rfl⟩⟩

/-- The row of the table. -/
def cellPageRow : Node := (cellPage.node? 2).getD default

/-- The row gets a text and is taken out of the table, and the copy does not change.  The copy is
emptied, and the row does not change. -/
theorem deepClone_apart_cellPage :
    cellPage.Consistent ∧ cellPageRow ∈ cellPage.forest.nodes ∧
    (mutate [.create (.text "a"), .attach 3 6, .replaceText 2 "a" "b", .detach 2]
      (cellPage.deepClone cellPageRow)).node? 4 = some (cellPage.copyOf cellPageRow) ∧
    (mutate [.clear 4] (cellPage.deepClone cellPageRow)).node? 2 = some cellPageRow := by
  have hpage := cellPage_labelled.consistent
  have hrow : cellPageRow ∈ cellPage.forest.nodes := by decide
  obtain ⟨-, hcopy, r, hr, -, hrow'⟩ := deepClone_apart hpage hrow
  obtain rfl := List.mem_singleton.mp hr
  exact ⟨hpage, hrow, hcopy _ (by decide), hrow' [.clear 4] (by decide)⟩

end BindingDocs.Page
