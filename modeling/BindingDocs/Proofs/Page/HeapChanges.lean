import BindingDocs.Proofs.Page.Copies
import BindingDocs.Proofs.Page.HeapForest
import BindingDocs.Proofs.Page.HeapRevisions

/-!
# Changes of a forest and of stored nodes

What is done to the forest of a page can be done to its stored nodes instead.  Trees are put into a
forest as a whole, under new labels in document order.  The stored nodes are made one after the
other, and each tree is put below its parent when it is complete; labels are given in the same
order.

## Main results

* `toHeap_detach`, `toHeap_clear`, `toHeap_replaceTextBelow` — what is taken out, and texts.
* `toHeap_append`, `plant_toHeap`, `toHeap_deepClone` — new trees.
* `toHeap_insertAfterFirstElement` — new trees among the children of a node.
-/

namespace BindingDocs.Page

open Page (Forest Item Node)

/-! ### What is taken out -/

section Taking

variable {p : Page}

theorem next_detach (l : Nat) (p : Page) : (p.detach l).next = p.next := by
  rw [detach]
  split <;> rfl

theorem toHeap_detach (h : p.Labelled) (l : Nat) :
    (p.detach l).toHeap = p.toHeap.detach l := by
  have hs := h.consistent_toHeap
  refine (follows_detach h l).labelled.toHeap_eq (hs.detach l) ?_ (fun m => ?_) fun m => ?_
  · rw [Heap.next_detach, next_toHeap, next_detach]
  · rw [Heap.item?_detach, h.item?_toHeap, h.node?_detach, Option.map_map]
    rfl
  · rw [hs.children_detach, h.children_toHeap, children, children, h.node?_detach]
    cases p.node? m with
    | none => rfl
    | some n => simp [Node.without]

theorem toHeap_detachAll (h : p.Labelled) (ns : List Node) :
    (p.detachAll ns).toHeap = p.toHeap.detachAll ns := by
  induction ns generalizing p with
  | nil => rfl
  | cons n ns ih =>
    rw [detachAll, List.foldl_cons, ← detachAll, ih (follows_detach h n.label).labelled,
      toHeap_detach h, Heap.detachAll, Heap.detachAll, List.foldl_cons]

theorem Labelled.node?_clear (h : p.Labelled) (l m : Nat) :
    (p.clear l).node? m = (p.node? m).map (Node.updateBelow l fun _ => .nil) := by
  cases hl : p.node? l with
  | none =>
    -- nothing is changed, and no node has the label or holds it
    rw [Page.clear, hl]
    cases hm : p.node? m with
    | none => rfl
    | some n =>
      obtain ⟨hn, -⟩ := h.node?_eq_some_iff.mp hm
      rw [Option.map_some, Node.updateBelow_eq_self fun hin => ?_]
      refine Forest.find?_eq_none_iff.mp hl ?_
      rcases Node.mem_toForest_iff.mp hin with rfl | hin
      · exact Forest.label_mem_preorder hn
      · exact (Forest.preorder_below_sublist hn).subset hin
  | some k =>
    by_cases hm : m = l
    · subst hm
      have hlabel := (h.node?_eq_some_iff.mp hl).2
      rw [Page.node?_clear hl, hl, Option.map_some, Node.updateBelow, if_pos hlabel]
    · rw [h.node?_clear_of_ne hl hm]
      cases hnode : p.node? m with
      | none => rfl
      | some n =>
        have hlabel := (h.node?_eq_some_iff.mp hnode).2
        rw [Option.map_some, Option.map_some, Node.updateBelow, if_neg (hlabel.trans_ne hm)]

theorem toHeap_clear (h : p.Labelled) (l : Nat) : (p.clear l).toHeap = p.toHeap.clear l := by
  refine (follows_clear h l).labelled.toHeap_eq (h.consistent_toHeap.clear l) ?_ (fun m => ?_)
    fun m => ?_
  · rw [Heap.next_clear, next_toHeap, next_clear]
  · rw [Heap.item?_clear, h.item?_toHeap, h.node?_clear, Option.map_map]
    rfl
  · rw [Heap.children_clear, h.children_toHeap, children, children, h.node?_clear]
    cases hnode : p.node? m with
    | none => simp
    | some n =>
      have hlabel := (h.node?_eq_some_iff.mp hnode).2
      simp only [Option.map_some, Option.getD_some, Node.updateBelow, hlabel]
      split
      · rfl
      · rw [Forest.rootLabels_updateBelow]

end Taking

/-! ### What is put somewhere -/

namespace Forest

variable {f g : Forest} {l m : Nat} {u : Forest → Forest}

/-- Every node after the last trees were put somewhere among the children of a node before them. -/
theorem find?_graft_last (h : (f ++ g).preorder.Nodup) (hl : l ∈ f.preorder)
    (hu : ∀ b, ∃ before after, b = before ++ after ∧ u b = before ++ (g ++ after)) (m : Nat) :
    (f.updateBelow l u).find? m = ((f ++ g).find? m).map (Node.updateBelow l u) := by
  rw [preorder_append, List.nodup_append] at h
  obtain ⟨hf, hg, hdisjoint⟩ := h
  rw [find?_append]
  cases hfind : g.find? m with
  | none =>
    rw [find?_graft hf (find?_eq_none_iff.mp hfind) hu, Option.orElse_eq_orElse,
      Option.orElse_eq_or, Option.or_none]
  | some n =>
    obtain ⟨hn, rfl⟩ := mem_nodes_of_find? hfind
    have hold : f.find? n.label = none := find?_eq_none_iff.mpr fun hin =>
      hdisjoint _ hin _ (label_mem_preorder hn) rfl
    have hself : n.updateBelow l u = n := by
      refine Node.updateBelow_eq_self fun hin => hdisjoint l hl l ?_ rfl
      rcases Node.mem_toForest_iff.mp hin with rfl | hin
      · exact label_mem_preorder hn
      · exact (preorder_below_sublist hn).subset hin
    rw [hold]
    show _ = some (n.updateBelow l u)
    rw [hself]
    -- the tree stands below the node now
    obtain ⟨k, hk, rfl⟩ := exists_node_of_mem_preorder hl
    have hfindk : f.find? k.label = some k := (find?_eq_some_iff hf).mpr ⟨hk, rfl⟩
    have hnodup : (f.updateBelow k.label u).preorder.Nodup := by
      refine (preorder_graft_of_find? hu hf hfindk).nodup_iff.mpr ?_
      exact List.nodup_append.mpr ⟨hf, hg, hdisjoint⟩
    refine (find?_eq_some_iff hnodup).mpr ⟨?_, rfl⟩
    have hput := mem_nodes_of_find? (find?_updateBelow (u := u) hfindk)
    obtain ⟨before, after, -, hbelow⟩ := hu k.below
    refine (nodes_below_sublist hput.1).subset ?_
    simp only [hbelow, nodes_append, List.mem_append]
    exact .inr (.inl hn)

theorem map_rootLabels_go (g f : Forest) :
    (insertAfterFirstElement.go g f).map rootLabels =
      (f.roots.findIdx? (·.item.isElement)).map fun k =>
        f.rootLabels.take (k + 1) ++ (g.rootLabels ++ f.rootLabels.drop (k + 1)) := by
  induction f with
  | nil => rfl
  | cons m i below next _ ih =>
    rw [insertAfterFirstElement.go, roots, List.findIdx?_cons]
    split
    · simp [rootLabels]
    · have hcons : rootLabels ∘ cons m i below = (m :: ·) ∘ rootLabels := rfl
      rw [Option.map_map, hcons, ← Option.map_map, ih, Option.map_map, Option.map_map]
      rfl

/-- Where trees are put among the roots of a forest. -/
theorem rootLabels_insertAfterFirstElement (g f : Forest) {place : Nat}
    (hplace : place = ((f.roots.findIdx? (·.item.isElement)).map (· + 1)).getD 0) :
    (insertAfterFirstElement g f).rootLabels =
      f.rootLabels.take place ++ (g.rootLabels ++ f.rootLabels.drop place) := by
  have hgo := map_rootLabels_go g f
  rw [insertAfterFirstElement, hplace]
  cases hfind : f.roots.findIdx? (·.item.isElement) with
  | none =>
    rw [hfind, Option.map_none, Option.map_eq_none_iff] at hgo
    rw [hgo]
    exact rootLabels_append g f
  | some k =>
    rw [hfind, Option.map_some] at hgo
    obtain ⟨f', hf', heq⟩ := Option.map_eq_some_iff.mp hgo
    rw [hf']
    exact heq

end Forest

section Putting

variable {p q : Page} {f g : Forest} {a l m : Nat} {n r : Node} {u : Forest → Forest}

/-- The last trees of a page can be put below every node before them. -/
theorem Labelled.fits_toHeap (h : p.Labelled) (hforest : p.forest = f ++ g) (hl : l ∈ f.preorder)
    (hr : r ∈ g.roots) : p.toHeap.fits l r.label = true := by
  have hnodup := h.nodup
  rw [hforest, Forest.preorder_append, List.nodup_append] at hnodup
  have hrg : r ∈ g.nodes := Forest.roots_subset_nodes hr
  have hroot : r ∈ p.forest.roots := by
    rw [hforest, Forest.roots_append]
    exact List.mem_append_right _ hr
  have hmem : l ∈ p.forest.preorder := by
    rw [hforest, Forest.preorder_append]
    exact List.mem_append_left _ hl
  have hnode := h.node?_label (Forest.roots_subset_nodes hroot)
  refine h.consistent_toHeap.fits_iff.mpr ⟨h.hasNode_toHeap.mpr hmem, ?_, ?_, ?_, ?_⟩
  · exact h.hasNode_toHeap.mpr (Forest.label_mem_preorder (Forest.roots_subset_nodes hroot))
  · rw [h.parent?_toHeap, parentLabel?, (h.isLoose_of_mem_roots hroot).1]
    rfl
  · rintro rfl
    exact hnodup.2.2 _ hl _ (Forest.label_mem_preorder hrg) rfl
  · rw [← h.consistent_toHeap.isDescendant_iff, h.isDescendant_toHeap, h.isDescendant_iff]
    rintro ⟨k, hk, hbelow⟩
    rw [hnode] at hk
    cases hk
    exact hnodup.2.2 _ hl _ ((Forest.preorder_below_sublist hrg).subset hbelow) rfl

theorem Labelled.exists_node?_of_mem_left (h : p.Labelled) (hforest : p.forest = f ++ g)
    (hl : l ∈ f.preorder) : ∃ n, p.node? l = some n := by
  obtain ⟨n, hn, rfl⟩ := Forest.exists_node_of_mem_preorder hl
  refine ⟨n, h.node?_label ?_⟩
  rw [hforest, Forest.nodes_append]
  exact List.mem_append_left _ hn

/-- The last trees of a page are put somewhere among the children of a node before them. -/
theorem Labelled.toHeap_graft (h : p.Labelled) (hforest : p.forest = f ++ g) (hl : l ∈ f.preorder)
    (hu : ∀ b, ∃ before after, b = before ++ after ∧ u b = before ++ (g ++ after))
    (hq : Labelled ⟨f.updateBelow l u, p.next⟩) {s : Heap} (hs : s.Consistent)
    (hnext : s.next = p.next) (hitem : ∀ m, s.item? m = p.toHeap.item? m)
    (hn : p.node? l = some n)
    (hchildren : ∀ m, s.children m =
      if m = l then (u n.below).rootLabels else p.toHeap.children m) :
    toHeap ⟨f.updateBelow l u, p.next⟩ = s := by
  have hnode (m : Nat) : node? ⟨f.updateBelow l u, p.next⟩ m =
      (p.node? m).map (Node.updateBelow l u) := by
    rw [node?, node?, hforest]
    exact Forest.find?_graft_last (hforest ▸ h.nodup) hl hu m
  refine hq.toHeap_eq hs hnext (fun m => ?_) fun m => ?_
  · rw [hitem, h.item?_toHeap, hnode, Option.map_map]
    rfl
  · rw [hchildren, h.children_toHeap, children, children, hnode]
    by_cases hm : m = l
    · have hlabel := (h.node?_eq_some_iff.mp hn).2
      simp [hm, hn, Node.updateBelow, hlabel]
    · rw [if_neg hm]
      cases hmnode : p.node? m with
      | none => rfl
      | some k =>
        have hlabel := (h.node?_eq_some_iff.mp hmnode).2
        simp [Node.updateBelow, hlabel, hm]

theorem Labelled.toHeap_graft_append (h : p.Labelled) {c : Nat} {i : Item} {below : Forest}
    (hforest : p.forest = f ++ .cons c i below .nil) (hl : l ∈ f.preorder)
    (hq : Labelled ⟨f.updateBelow l (· ++ .cons c i below .nil), p.next⟩) :
    toHeap ⟨f.updateBelow l (· ++ .cons c i below .nil), p.next⟩ = p.toHeap.append l c := by
  have hfits := h.fits_toHeap hforest hl (r := ⟨c, i, below⟩) List.mem_cons_self
  have hs := h.consistent_toHeap
  obtain ⟨n, hn⟩ := h.exists_node?_of_mem_left hforest hl
  refine h.toHeap_graft hforest hl (fun b => ⟨b, .nil, by simp, by simp⟩) hq (hs.append hfits) ?_
    (fun m => Heap.item?_append ..) hn fun m => ?_
  · rw [Heap.next_append, next_toHeap]
  · rw [Heap.children_append (hs.fits_iff.mp hfits).1]
    split
    · next heq =>
      rw [heq, h.children_toHeap, children, hn, Forest.rootLabels_append]
      rfl
    · rfl

/-- The place is the same whether items are read off nodes or looked up by labels. -/
theorem Labelled.placeAfterFirstElement_toHeap (h : p.Labelled) (hn : n ∈ p.forest.nodes) :
    p.toHeap.placeAfterFirstElement n.below.rootLabels =
      ((n.below.roots.findIdx? (·.item.isElement)).map (· + 1)).getD 0 := by
  have hread : ∀ r ∈ n.below.roots,
      (p.toHeap.item? r.label).any (·.isElement) = r.item.isElement := by
    intro r hr
    have hmem := (Forest.nodes_below_sublist hn).subset (Forest.roots_subset_nodes hr)
    rw [h.item?_toHeap, h.node?_label hmem]
    rfl
  have hfind (q : Node → Bool) (rs : List Node) :
      rs.findIdx? q = (rs.map q).findIdx? id := by
    rw [List.findIdx?_map]
    rfl
  have hcomp : (fun l => (p.toHeap.item? l).any (·.isElement)) ∘ Node.label =
      fun r => (p.toHeap.item? r.label).any (·.isElement) := rfl
  rw [Heap.placeAfterFirstElement, ← Forest.map_label_roots, List.findIdx?_map, hcomp, hfind,
    List.map_congr_left hread, ← hfind]

theorem Labelled.toHeap_graft_insert (h : p.Labelled) (hforest : p.forest = f ++ g)
    (hl : l ∈ f.preorder)
    (hq : Labelled ⟨f.updateBelow l (Forest.insertAfterFirstElement g), p.next⟩) :
    toHeap ⟨f.updateBelow l (Forest.insertAfterFirstElement g), p.next⟩ =
      p.toHeap.insertAfterFirstElement l g.rootLabels := by
  have hs := h.consistent_toHeap
  obtain ⟨n, hn⟩ := h.exists_node?_of_mem_left hforest hl
  obtain ⟨hmem, hlabel⟩ := h.node?_eq_some_iff.mp hn
  have hlnode : p.toHeap.hasNode l = true :=
    h.hasNode_toHeap.mpr (hlabel ▸ Forest.label_mem_preorder hmem)
  have hnodup : g.rootLabels.Nodup := by
    have hg := h.nodup
    rw [hforest, Forest.preorder_append, List.nodup_append] at hg
    exact hg.2.1.sublist (Forest.rootLabels_sublist g)
  have hfits : ∀ c ∈ g.rootLabels, p.toHeap.fits l c = true := by
    intro c hc
    rw [← Forest.map_label_roots, List.mem_map] at hc
    obtain ⟨r, hr, rfl⟩ := hc
    exact h.fits_toHeap hforest hl hr
  refine h.toHeap_graft hforest hl (Forest.exists_insertAfterFirstElement g) hq
    (hs.insertAfterFirstElement hnodup hlnode hfits) ?_
    (fun m => Heap.item?_insertAfterFirstElement ..) hn fun m => ?_
  · rw [Heap.next_insertAfterFirstElement, next_toHeap]
  · have hchildren : p.toHeap.children l = n.below.rootLabels := by
      rw [h.children_toHeap, children, hn]
      rfl
    rw [Heap.children_insertAfterFirstElement hlnode, hchildren,
      h.placeAfterFirstElement_toHeap hmem]
    split
    · exact (Forest.rootLabels_insertAfterFirstElement g n.below rfl).symm
    · rfl

/-! ### New nodes -/

theorem toHeap_addLoose (h : p.Labelled) (i : Item) :
    (p.addLoose i).toHeap = p.toHeap.create i := by
  have hs := h.consistent_toHeap
  have hnode (m : Nat) : (p.addLoose i).node? m =
      if m = p.next then some ⟨p.next, i, .nil⟩ else p.node? m := by
    rw [node?, addLoose, Forest.find?_append, Forest.find?, ← node?]
    by_cases hm : m = p.next
    · rw [if_pos hm.symm, if_pos hm, hm, h.node?_eq_none (Nat.le_refl _)]
      rfl
    · rw [if_neg (Ne.symm hm), if_neg hm]
      cases p.node? m <;> rfl
  refine (h.addLoose i).toHeap_eq (Heap.follows_create hs i).consistent ?_ (fun m => ?_) fun m => ?_
  · rw [Heap.next_create, next_toHeap]
    rfl
  · rw [Heap.item?, Heap.cell?_create, hnode, next_toHeap]
    split
    · rfl
    · exact h.item?_toHeap m
  · rw [Heap.children_create, h.children_toHeap, children, children, hnode]
    split
    · next heq => rw [heq, h.node?_eq_none (Nat.le_refl _)]; rfl
    · rfl

theorem append_nil (l : Nat) (p : Page) : p.append l .nil = p := by
  have hsame (f : Forest) : f.updateBelow l (· ++ .nil) = f := by
    induction f with
    | nil => rfl
    | cons m i below next ihb ihn =>
      rw [Forest.updateBelow, Forest.append_nil, ihb, ihn, ite_self]
  simp only [append, Forest.relabel, hsame]

/-- Trees are put below a node one after the other. -/
theorem append_cons (l m : Nat) (i : Item) (below next : Forest) (p : Page) :
    p.append l (.cons m i below next) = (p.append l (.cons m i below .nil)).append l next := by
  simp only [append, Forest.relabel, Forest.updateBelow_updateBelow, Forest.append_assoc,
    Forest.cons_append, Forest.nil_append]

/-- A copy is made by putting the nodes below the original after its new root. -/
theorem append_addLoose (h : p.Labelled) (n : Node) :
    (p.addLoose n.item).append p.next n.below = p.deepClone n := by
  have hnew : p.next ∉ p.forest.preorder := fun hin => Nat.lt_irrefl _ (h.lt_next _ hin)
  rw [deepClone_eq h, append, addLoose]
  simp only
  rw [Forest.updateBelow_append_of_notMem hnew]
  rfl

/-- **Trees that are put below a node.** -/
theorem toHeap_append (h : p.Labelled) (hl : l ∈ p.forest.preorder) (f : Forest) :
    (p.append l f).toHeap = Heap.grow l f p.toHeap := by
  induction f generalizing p l with
  | nil => rw [append_nil, Heap.grow]
  | cons m i below next ihb ihn =>
    have hnew : p.next ∈ (p.addLoose i).forest.preorder := by
      rw [addLoose, Forest.preorder_append, List.mem_append]
      exact .inr List.mem_cons_self
    have hgrown : (p.deepClone ⟨m, i, below⟩).toHeap =
        Heap.grow p.next below (p.toHeap.create i) := by
      rw [← toHeap_addLoose h, ← ihb (h.addLoose i) hnew, ← append_addLoose h]
    have hput := (follows_append h l (.cons m i below .nil)).labelled
    have hstill : l ∈ (p.append l (.cons m i below .nil)).forest.preorder := by
      refine Forest.mem_preorder_updateBelow hl fun n _ _ hc => ?_
      rw [Forest.preorder_append]
      exact List.mem_append_left _ hc
    have hclone := h.deepClone ⟨m, i, below⟩
    rw [append_cons, ihn hput hstill, Heap.grow, next_toHeap, ← hgrown]
    rw [deepClone_eq h] at hclone ⊢
    congr 1
    exact hclone.toHeap_graft_append rfl hl hput

/-- A tree is put below a node. -/
theorem toHeap_attach (h : p.Labelled) {c : Nat} (hn : p.node? c = some n)
    (hattach : p.isAttachable l c = true) : (p.attach l c).toHeap = p.toHeap.append l c := by
  obtain ⟨hroot, hparent, hl, hout⟩ := (h.isAttachable_iff hn).mp hattach
  have hmoved := (h.attach l c)
  rw [attach, if_pos hattach, moveInto, hn] at hmoved ⊢
  have hperm := Forest.preorder_without h.nodup hn
  obtain ⟨hmem, rfl⟩ := h.node?_eq_some_iff.mp hn
  -- the same page with the tree behind all others
  have hlast : Labelled ⟨p.forest.without n.label ++ n.toForest, p.next⟩ := by
    refine h.of_perm ?_ rfl ?_
    · rw [Forest.preorder_append]
      exact hperm.symm
    · obtain ⟨body, rest, hforest⟩ := h.document_first
      refine ⟨body.without n.label, rest.without n.label ++ n.toForest, ?_⟩
      rw [hforest, Forest.without, if_neg (Ne.symm hroot), Forest.cons_append]
  have hsame : toHeap ⟨p.forest.without n.label ++ n.toForest, p.next⟩ = p.toHeap := by
    have hnode (m : Nat) :
        node? ⟨p.forest.without n.label ++ n.toForest, p.next⟩ m = p.node? m := by
      rw [node?, Forest.find?_without_append h.nodup hn, ← node?]
      cases hm : p.node? m with
      | none => rfl
      | some k =>
        have hk := (h.node?_eq_some_iff.mp hm).1
        rw [Option.map_some, Node.without_eq_self (h.notMem_below hparent hk)]
    refine hlast.toHeap_eq h.consistent_toHeap (next_toHeap p) (fun m => ?_) fun m => ?_
    · rw [hnode, h.item?_toHeap]
    · rw [children, hnode, h.children_toHeap, children]
  have hleft : l ∈ (p.forest.without n.label).preorder :=
    (List.mem_append.mp (hperm.mem_iff.mp hl)).resolve_right hout
  rw [← hsame]
  exact hlast.toHeap_graft_append rfl hleft hmoved

/-- **Trees that are made outside of all others.** -/
theorem plant_toHeap (h : p.Labelled) (f : Forest) :
    Heap.plant f p.toHeap =
      ((p.freshTrees f).rootLabels, toHeap ⟨p.forest ++ p.freshTrees f, (f.relabel p.next).2⟩) := by
  induction f generalizing p with
  | nil =>
    rw [Heap.plant, freshTrees, Forest.relabel, Forest.append_nil]
    rfl
  | cons m i below next _ ihn =>
    have hgrown : Heap.grow p.next below (p.toHeap.create i) =
        (p.deepClone ⟨m, i, below⟩).toHeap := by
      rw [← toHeap_addLoose h, ← append_addLoose h, toHeap_append (h.addLoose i)]
      rw [addLoose, Forest.preorder_append, List.mem_append]
      exact .inr List.mem_cons_self
    have hclone := h.deepClone ⟨m, i, below⟩
    rw [Heap.plant, next_toHeap, hgrown, ihn hclone, deepClone_eq h]
    simp only [freshTrees, Forest.relabel, Forest.append_assoc]
    rfl

/-- **Copies.** -/
theorem toHeap_deepClone (h : p.Labelled) (hn : p.node? l = some n) :
    (p.deepClone n).toHeap = p.toHeap.deepClone l := by
  rw [Heap.deepClone, h.node?_toHeap, hn]
  simp only
  rw [plant_toHeap h, deepClone_eq h, toForest_copyOf, freshTrees]

theorem toHeap_insertAfterFirstElement (h : p.Labelled) (hl : l ∈ p.forest.preorder) (f : Forest) :
    (p.insertAfterFirstElement l f).toHeap =
      (Heap.plant f p.toHeap).2.insertAfterFirstElement l (Heap.plant f p.toHeap).1 := by
  rw [plant_toHeap h]
  exact (h.append_relabel f).toHeap_graft_insert rfl hl
    (follows_insertAfterFirstElement h l f).labelled

end Putting

/-! ### Texts -/

/-- What is stored of a node, its parent aside. -/
def Node.stored (n : Node) : Item × List Nat := (n.item, n.below.rootLabels)

namespace Forest

variable {f : Forest} {l m : Nat} {n : Node} {r : Item → Item}

theorem find?_mapItems (r : Item → Item) (m : Nat) (f : Forest) :
    (f.mapItems r).find? m = (f.find? m).map fun n => ⟨n.label, r n.item, n.below.mapItems r⟩ := by
  induction f with
  | nil => rfl
  | cons k i below next ihb ihn =>
    rw [mapItems, find?, find?, ihb, ihn]
    split
    · rfl
    · cases below.find? m <;> rfl

/-- Items are changed below a node, and the lists of children stay as they are. -/
theorem map_stored_updateBelow_mapItems (h : f.preorder.Nodup) (hn : f.find? l = some n) (m : Nat) :
    ((f.updateBelow l (mapItems r)).find? m).map Node.stored =
      (f.find? m).map fun k =>
        (if m ∈ n.below.preorder then r k.item else k.item, k.below.rootLabels) := by
  have houtside (g : Forest) (hg : ∀ c ∈ g.preorder, c ∉ n.below.preorder) :
      (g.find? m).map Node.stored = (g.find? m).map fun k =>
        (if m ∈ n.below.preorder then r k.item else k.item, k.below.rootLabels) := by
    cases hm : g.find? m with
    | none => rfl
    | some c =>
      obtain ⟨hc, rfl⟩ := mem_nodes_of_find? hm
      simp [Node.stored, hg _ (label_mem_preorder hc)]
  induction f with
  | nil => cases hn
  | cons k i below next ihb ihn =>
    rw [preorder, List.nodup_cons, List.mem_append, not_or] at h
    obtain ⟨⟨hkb, hkn⟩, hnodup⟩ := h
    obtain ⟨hb, hnx, hdisjoint⟩ := List.nodup_append.mp hnodup
    rw [find?, Option.orElse_eq_orElse, Option.orElse_eq_or] at hn ⊢
    rw [updateBelow]
    by_cases hk : k = l
    · rw [if_pos hk] at hn ⊢
      cases hn
      rw [find?, Option.orElse_eq_orElse, Option.orElse_eq_or]
      split
      · next hkm => simp [← hkm, hkb, Node.stored]
      · have hinside : ((below.mapItems r).find? m).map Node.stored = (below.find? m).map fun k =>
            (if m ∈ below.preorder then r k.item else k.item, k.below.rootLabels) := by
          rw [find?_mapItems, Option.map_map]
          cases hm : below.find? m with
          | none => rfl
          | some c =>
            obtain ⟨hc, rfl⟩ := mem_nodes_of_find? hm
            simp [Node.stored, label_mem_preorder hc]
        rw [Option.map_or, Option.map_or, hinside,
          houtside next fun c hc hcb => hdisjoint c hcb c hc rfl]
    · rw [if_neg hk] at hn ⊢
      rw [find?, Option.orElse_eq_orElse, Option.orElse_eq_or]
      cases hfind : below.find? l with
      | some n' =>
        rw [hfind, Option.some_or, Option.some.injEq] at hn
        subst hn
        obtain ⟨hmem, hlabel⟩ := mem_nodes_of_find? hfind
        have hsubset := (preorder_below_sublist hmem).subset
        have hlnext : l ∉ next.preorder := fun hl =>
          hdisjoint l (hlabel ▸ label_mem_preorder hmem) l hl rfl
        split
        · next hkm => simp [← hkm, mt (@hsubset k) hkb, Node.stored]
        · rw [Option.map_or, Option.map_or, ihb hb hfind, updateBelow_eq_self hlnext,
            houtside next fun c hc hcb => hdisjoint c (hsubset hcb) c hc rfl]
      | none =>
        rw [hfind, Option.none_or] at hn
        have hsubset := (preorder_below_sublist (mem_nodes_of_find? hn).1).subset
        split
        · next hkm => simp [← hkm, mt (@hsubset k) hkn, Node.stored]
        · rw [Option.map_or, Option.map_or, ihn hnx hn,
            updateBelow_eq_self (find?_eq_none_iff.mp hfind),
            houtside below fun c hc hcb => hdisjoint c hc c (hsubset hcb) rfl]

end Forest

namespace Heap

variable (old new : String)

theorem item?_replaceTextAt (l : Nat) (s : Heap) (m : Nat) :
    (s.replaceTextAt old new l).item? m =
      (s.item? m).map fun i => if m = l then i.replaceText old new else i := by
  rw [replaceTextAt, item?, item?, cell?_modify, Option.map_map]
  by_cases hl : l = m
  · rw [if_pos hl, Option.map_map]
    simp [Function.comp_def, hl]
  · rw [if_neg hl]
    simp [Function.comp_def, Ne.symm hl]

/-- Each text is replaced once. -/
theorem item?_foldl_replaceTextAt {ns : List Node} (h : (ns.map Node.label).Nodup) (s : Heap)
    (m : Nat) : (ns.foldl (fun s n => s.replaceTextAt old new n.label) s).item? m =
      (s.item? m).map fun i => if m ∈ ns.map Node.label then i.replaceText old new else i := by
  induction ns generalizing s with
  | nil => simp
  | cons n ns ih =>
    rw [List.map_cons, List.nodup_cons] at h
    rw [List.foldl_cons, ih h.2, item?_replaceTextAt, Option.map_map]
    refine congrArg (Option.map · (s.item? m)) (funext fun i => ?_)
    simp only [Function.comp_apply, List.map_cons, List.mem_cons]
    by_cases hm : m = n.label
    · rw [if_pos hm, if_neg (hm ▸ h.1), if_pos (.inl hm)]
    · simp [hm]

theorem children_foldl_replaceTextAt (ns : List Node) (s : Heap) (m : Nat) :
    (ns.foldl (fun s n => s.replaceTextAt old new n.label) s).children m = s.children m := by
  induction ns generalizing s with
  | nil => rfl
  | cons n ns ih => rw [List.foldl_cons, ih, children_replaceTextAt]

theorem next_foldl_replaceTextAt (ns : List Node) (s : Heap) :
    (ns.foldl (fun s n => s.replaceTextAt old new n.label) s).next = s.next := by
  induction ns generalizing s with
  | nil => rfl
  | cons n ns ih => rw [List.foldl_cons, ih, next_replaceTextAt]

end Heap

section Texts

variable {p : Page}

theorem toHeap_replaceTextBelow (h : p.Labelled) (l : Nat) (old new : String) :
    (p.replaceTextBelow l old new).toHeap = p.toHeap.replaceTextBelow l old new := by
  have hs := h.consistent_toHeap
  have hfollows := follows_replaceTextBelow h l old new
  cases hn : p.node? l with
  | none =>
    rw [Heap.replaceTextBelow, h.node?_toHeap, hn, replaceTextBelow,
      Forest.updateBelow_eq_self (Forest.find?_eq_none_iff.mp hn)]
    rfl
  | some n =>
    have hmem := (h.node?_eq_some_iff.mp hn).1
    have hstored (m : Nat) := Forest.map_stored_updateBelow_mapItems
      (r := Item.replaceText old new) h.nodup hn m
    have hlabels : (n.descendants.map Node.label) = n.below.preorder := by
      rw [Node.descendants, Forest.walk_eq_nodes, Forest.map_label_nodes]
    have hnodup : (n.descendants.map Node.label).Nodup :=
      hlabels ▸ h.nodup.sublist (Forest.preorder_below_sublist hmem)
    have hheap : p.toHeap.replaceTextBelow l old new =
        n.descendants.foldl (fun s n => s.replaceTextAt old new n.label) p.toHeap := by
      rw [Heap.replaceTextBelow, h.node?_toHeap, hn]
      rfl
    refine hfollows.labelled.toHeap_eq (Heap.follows_replaceTextBelow hs l old new).consistent ?_
      (fun m => ?_) fun m => ?_
    · rw [hheap, Heap.next_foldl_replaceTextAt, next_toHeap]
      rfl
    · have hitem := congrArg (Option.map Prod.fst) (hstored m)
      rw [Option.map_map, Option.map_map] at hitem
      rw [hheap, Heap.item?_foldl_replaceTextAt _ _ hnodup, hlabels, h.item?_toHeap, Option.map_map]
      exact hitem.symm
    · have hlists := congrArg (Option.map Prod.snd) (hstored m)
      rw [Option.map_map, Option.map_map] at hlists
      rw [hheap, Heap.children_foldl_replaceTextAt, h.children_toHeap]
      exact congrArg (Option.getD · []) hlists.symm

end Texts

end BindingDocs.Page
