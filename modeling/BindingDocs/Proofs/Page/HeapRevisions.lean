import BindingDocs.Page.HeapRevise
import BindingDocs.Proofs.Page.HeapLinks
import BindingDocs.Proofs.Page.InheritedTables

/-!
# Stored pages stay trees

Revisions collect nodes, change links, and come back to nodes that they collected before, which may
stand elsewhere or nowhere by then.  What saves the links is that a revision puts only nodes
somewhere that it has made itself.  They have no parent, and no older node is below them, since the
parents of older nodes are older nodes.

Whatever is done one after the other, children and parents agree in the end, a node that is taken
out of its place is nowhere until it is put somewhere, and walking upwards comes to an end.

## Main definitions

* `Heap.Follows` — what was done gave no node a parent, except for some.
* `Heap.Rewrite`, `Heap.perform` — everything that is done to a page, and one after the other.
* `Heap.admits` — nodes are put below others only where they fit.

## Main results

* `Heap.follows_grow`, `Heap.follows_plant` — new trees.
* `Heap.follows_revise` — what revisions keep.
* `Heap.consistent_perform` — **links stay in agreement whatever is done.**
-/

namespace BindingDocs.Page.Heap

open Page (Forest Item Node)

variable {s t v : Heap} {a c l : Nat} {ls cs xs ys : List Nat} {i : Item} {n : Node}

/-- The links of `t` are in agreement.  Its nodes are those of `s` and new ones, and what has a
parent in `t` had it in `s`, or is new, or is one of the nodes `placed`. -/
structure Follows (placed : List Nat) (s t : Heap) : Prop where
  consistent : t.Consistent
  next_le : s.next ≤ t.next
  hasNode : ∀ {l}, s.hasNode l = true → t.hasNode l = true
  parent : ∀ {l a}, l < s.next → l ∉ placed → t.parent? l = some a → s.parent? l = some a

namespace Follows

theorem refl (h : s.Consistent) : Follows [] s s :=
  ⟨h, Nat.le_refl _, fun h => h, fun _ _ h => h⟩

theorem trans (hst : Follows xs s t) (htv : Follows ys t v) :
    Follows (xs ++ ys) s v where
  consistent := htv.consistent
  next_le := Nat.le_trans hst.next_le htv.next_le
  hasNode := fun h => htv.hasNode (hst.hasNode h)
  parent := by
    intro l a hl hxs ha
    rw [List.mem_append, not_or] at hxs
    exact hst.parent hl hxs.1 (htv.parent (Nat.lt_of_lt_of_le hl hst.next_le) hxs.2 ha)

/-- Nodes that are new may have got any parent. -/
theorem of_new (h : Follows xs s t) (hnew : ∀ l ∈ xs, s.next ≤ l) : Follows [] s t where
  consistent := h.consistent
  next_le := h.next_le
  hasNode := h.hasNode
  parent := fun hl _ ha => h.parent hl (fun hp => Nat.not_lt.mpr (hnew _ hp) hl) ha

/-- A node that had no parent has none, unless it was put somewhere. -/
theorem parent_eq_none (h : Follows xs s t) (hl : l < s.next) (hxs : l ∉ xs)
    (hnone : s.parent? l = none) : t.parent? l = none := by
  rw [Option.eq_none_iff_forall_ne_some]
  intro a ha
  rw [h.parent hl hxs ha] at hnone
  cases hnone

/-- What is above an old node is old. -/
theorem lt_of_isAbove (hs : s.Consistent) (h : Follows [] s t) (hl : l < s.next)
    (ha : t.IsAbove a l) : a < s.next := by
  have hstep {c b : Nat} (hc : c < s.next) (hb : t.parent? c = some b) : b < s.next :=
    hasNode_lt (hs.hasNode_parent (h.parent hc List.not_mem_nil hb))
  induction ha with
  | single hb => exact hstep hl hb
  | tail _ hb ih => exact hstep ih hb

/-- A child stays one, or is nowhere, unless it was put somewhere. -/
theorem mem_children_or (hs : s.Consistent) (h : Follows xs s t) (hxs : c ∉ xs)
    (hc : c ∈ s.children a) : c ∈ t.children a ∨ t.IsLoose c := by
  rw [h.consistent.isLoose_iff, h.consistent.mem_children_iff]
  have hlt := hasNode_lt (hs.hasNode_child hc)
  rw [hs.mem_children_iff] at hc
  cases hparent : t.parent? c with
  | none => exact .inr rfl
  | some b => exact .inl (hc ▸ (h.parent hlt hxs hparent).symm)

theorem isLoose (h : Follows xs s t) (hl : s.hasNode l = true)
    (hxs : l ∉ xs) (hloose : s.IsLoose l) : t.IsLoose l :=
  h.consistent.isLoose_iff.mpr (h.parent_eq_none (hasNode_lt hl) hxs hloose.1)

end Follows

/-! ### Single changes -/

theorem follows_detach (h : s.Consistent) (l : Nat) : Follows [] s (s.detach l) where
  consistent := h.detach l
  next_le := Nat.le_of_eq (next_detach l s).symm
  hasNode := fun hl => by rwa [hasNode_detach]
  parent := by
    intro m a _ _ ha
    rw [parent?_detach] at ha
    split at ha
    · cases ha
    · exact ha

theorem follows_clear (h : s.Consistent) (l : Nat) : Follows [] s (s.clear l) where
  consistent := h.clear l
  next_le := Nat.le_of_eq (next_clear l s).symm
  hasNode := fun hl => by rwa [hasNode_clear]
  parent := by
    intro m a _ _ ha
    rw [h.parent?_clear] at ha
    split at ha
    · cases ha
    · exact ha

theorem follows_append (h : s.Consistent) (hfits : s.fits a c = true) :
    Follows [c] s (s.append a c) where
  consistent := h.append hfits
  next_le := Nat.le_of_eq (next_append a c s).symm
  hasNode := fun hl => by rwa [hasNode_append]
  parent := by
    intro m b _ hm hb
    rwa [parent?_append (h.fits_iff.mp hfits).2.1, if_neg hm] at hb

theorem follows_insertAfterFirstElement (h : s.Consistent) (hnodup : cs.Nodup)
    (ha : s.hasNode a = true) (hcs : ∀ c ∈ cs, s.fits a c = true) :
    Follows cs s (s.insertAfterFirstElement a cs) where
  consistent := h.insertAfterFirstElement hnodup ha hcs
  next_le := Nat.le_of_eq (next_insertAfterFirstElement a cs s).symm
  hasNode := fun hl => by rwa [hasNode_insertAfterFirstElement]
  parent := by
    intro m b _ hm hb
    rwa [parent?_insertAfterFirstElement fun c hc => (h.fits_iff.mp (hcs c hc)).2.1,
      if_neg hm] at hb

theorem follows_replaceTextAt (h : s.Consistent) (old new : String) (l : Nat) :
    Follows [] s (s.replaceTextAt old new l) where
  consistent := h.replaceTextAt old new l
  next_le := Nat.le_of_eq (next_replaceTextAt old new l s).symm
  hasNode := fun hl => by rwa [hasNode_replaceTextAt]
  parent := fun _ _ ha => parent?_replaceTextAt old new l s _ ▸ ha

/-- Any number of changes that give no old node a parent. -/
theorem follows_foldl {α : Type} {step : Heap → α → Heap}
    (hstep : ∀ s : Heap, s.Consistent → ∀ x, Follows [] s (step s x)) (h : s.Consistent)
    (xs : List α) : Follows [] s (xs.foldl step s) := by
  induction xs generalizing s with
  | nil => exact .refl h
  | cons x xs ih =>
    have hfirst := hstep s h x
    exact hfirst.trans (ih hfirst.consistent)

theorem follows_replaceTextBelow (h : s.Consistent) (l : Nat) (old new : String) :
    Follows [] s (s.replaceTextBelow l old new) :=
  follows_foldl (fun _ h n => follows_replaceTextAt h old new n.label) h _

theorem follows_detachAll (h : s.Consistent) (ns : List Node) : Follows [] s (s.detachAll ns) :=
  follows_foldl (fun _ h n => follows_detach h n.label) h ns

/-! ### New nodes -/

theorem cell?_create (i : Item) (s : Heap) (m : Nat) :
    (s.create i).cell? m = if m = s.next then some ⟨i, none, []⟩ else s.cell? m := by
  rcases Nat.lt_trichotomy m s.next with hlt | heq | hgt
  · rw [if_neg (Nat.ne_of_lt hlt), create, cell?, List.getElem?_append_left hlt, cell?]
  · rw [if_pos heq, heq, create, cell?, next, List.getElem?_concat_length]
    rfl
  · rw [if_neg (Nat.ne_of_gt hgt), cell?_of_next_le (Nat.le_of_lt hgt)]
    refine cell?_of_next_le ?_
    rw [next, create, List.length_append]
    exact hgt

@[simp] theorem next_create (i : Item) (s : Heap) : (s.create i).next = s.next + 1 := by
  rw [next, create, List.length_append]
  rfl

@[simp] theorem parent?_create (i : Item) (s : Heap) (m : Nat) :
    (s.create i).parent? m = s.parent? m := by
  rw [parent?, parent?, cell?_create]
  split
  · next heq => rw [cell?_of_next_le (Nat.le_of_eq heq.symm)]; rfl
  · rfl

@[simp] theorem children_create (i : Item) (s : Heap) (m : Nat) :
    (s.create i).children m = s.children m := by
  rw [children, children, cell?_create]
  split
  · next heq => rw [cell?_of_next_le (Nat.le_of_eq heq.symm)]; rfl
  · rfl

theorem hasNode_create (i : Item) (s : Heap) : (s.create i).hasNode s.next = true := by
  rw [hasNode, cell?_create, if_pos rfl]
  rfl

theorem parent?_next (s : Heap) : s.parent? s.next = none := by
  rw [parent?, cell?_of_next_le (Nat.le_refl _)]
  rfl

theorem follows_create (h : s.Consistent) (i : Item) : Follows [] s (s.create i) where
  consistent := h.of_links (parent?_create i s) (children_create i s)
  next_le := by rw [next_create]; exact Nat.le_succ _
  hasNode := by
    intro l hl
    rw [hasNode, cell?_create, if_neg (Nat.ne_of_lt (hasNode_lt hl))]
    exact hl
  parent := fun _ _ ha => parent?_create i s _ ▸ ha

/-- **A new node fits below every node that was there before.** -/
theorem Follows.fits (hs : s.Consistent) (h : Follows [] s t) (ha : s.hasNode a = true)
    (hnew : s.next ≤ c) (hc : t.hasNode c = true) (hloose : t.parent? c = none) :
    t.fits a c = true := by
  have hlt := hasNode_lt ha
  refine h.consistent.fits_iff.mpr ⟨h.hasNode ha, hc, hloose, ?_, fun habove => ?_⟩
  · rintro rfl
    exact Nat.not_lt.mpr hnew hlt
  · exact Nat.not_lt.mpr hnew (h.lt_of_isAbove hs hlt habove)

/-- The root of a new tree has no parent while the tree grows. -/
theorem follows_root (h : s.Consistent) (hgrow : Follows [] (s.create i) t) :
    Follows [] s t ∧ t.hasNode s.next = true ∧ t.parent? s.next = none := by
  refine ⟨(follows_create h i).trans hgrow, hgrow.hasNode (hasNode_create i s), ?_⟩
  refine hgrow.parent_eq_none ?_ List.not_mem_nil ?_
  · rw [next_create]
    exact Nat.lt_succ_self _
  · rw [parent?_create, parent?_next]

/-- **New trees are put below a node.** -/
theorem follows_grow (h : s.Consistent) (hl : s.hasNode l = true) (f : Forest) :
    Follows [] s (grow l f s) := by
  induction f generalizing s l with
  | nil => exact .refl h
  | cons _ i below next ihb ihn =>
    rw [grow]
    -- the tree is complete before it is put below the node
    have hbelow := ihb (follows_create h i).consistent (hasNode_create i s)
    obtain ⟨htree, hroot, hloose⟩ := follows_root h hbelow
    have happend := follows_append htree.consistent (htree.fits h hl (Nat.le_refl _) hroot hloose)
    have hput := (htree.trans happend).of_new fun c hc =>
      Nat.le_of_eq (List.mem_singleton.mp hc).symm
    exact hput.trans (ihn hput.consistent (hput.hasNode hl))

/-- **New trees have roots of their own, which have no parent.** -/
theorem follows_plant (h : s.Consistent) (f : Forest) :
    Follows [] s (plant f s).2 ∧ (plant f s).1.Nodup ∧
      ∀ c ∈ (plant f s).1, s.next ≤ c ∧ (plant f s).2.hasNode c = true ∧
        (plant f s).2.parent? c = none := by
  induction f generalizing s with
  | nil => exact ⟨.refl h, List.nodup_nil, nofun⟩
  | cons _ i below next _ ihn =>
    have hbelow := follows_grow (follows_create h i).consistent (hasNode_create i s) below
    obtain ⟨htree, hroot, hloose⟩ := follows_root h hbelow
    have hlt := hasNode_lt hroot
    obtain ⟨hnext, hnodup, hroots⟩ := ihn htree.consistent
    rw [plant]
    refine ⟨htree.trans hnext, List.nodup_cons.mpr ⟨fun hmem => ?_, hnodup⟩, ?_⟩
    · exact Nat.not_lt.mpr (hroots _ hmem).1 hlt
    · rw [List.forall_mem_cons]
      refine ⟨⟨Nat.le_refl _, hnext.hasNode hroot, ?_⟩, fun c hc => ?_⟩
      · exact hnext.parent_eq_none hlt List.not_mem_nil hloose
      · obtain ⟨hle, hrest⟩ := hroots c hc
        exact ⟨Nat.le_trans htree.next_le hle, hrest⟩

theorem follows_deepClone (h : s.Consistent) (l : Nat) : Follows [] s (s.deepClone l) := by
  rw [deepClone]
  split
  · exact (follows_plant h _).1
  · exact .refl h

/-- The root of a copy. -/
theorem deepClone_root (h : s.Consistent) (hl : s.hasNode l = true) :
    (s.deepClone l).hasNode s.next = true ∧ (s.deepClone l).parent? s.next = none := by
  obtain ⟨cell, hcell⟩ := Option.isSome_iff_exists.mp hl
  have hnode : s.node? l = some ⟨l, cell.item, s.trees s.next cell.children⟩ := by
    rw [node?, hcell]
    rfl
  rw [deepClone, hnode]
  exact ((follows_plant h _).2.2 s.next List.mem_cons_self).2

/-! ### Nodes that are found -/

theorem hasNode_of_mem_trees {fuel : Nat} (h : n ∈ (s.trees fuel ls).nodes) :
    s.hasNode n.label = true := by
  induction fuel generalizing ls with
  | zero => cases h
  | succ fuel ih =>
    cases ls with
    | nil => cases h
    | cons l ls =>
      rw [trees] at h
      split at h
      · next cell hcell =>
        rw [Forest.nodes, List.mem_cons, List.mem_append] at h
        rcases h with rfl | h | h
        · rw [hasNode, hcell]
          rfl
        · exact ih h
        · exact ih h
      · exact ih h

theorem hasNode_of_node? {m : Node} (hn : s.node? l = some n) (hm : m ∈ n.toForest.nodes) :
    s.hasNode m.label = true := by
  obtain ⟨cell, hcell, rfl⟩ := Option.map_eq_some_iff.mp hn
  rcases Forest.mem_nodes_toForest_iff.mp hm with rfl | hm
  · rw [hasNode, hcell]
    rfl
  · exact hasNode_of_mem_trees hm

theorem hasNode_of_mem_below {m : Node} (hn : s.node? l = some n) (hm : m ∈ n.below.nodes) :
    s.hasNode m.label = true :=
  hasNode_of_node? hn (Forest.mem_nodes_toForest_iff.mpr (.inr hm))

theorem hasNode_of_mem_document (h : n ∈ s.document.below.nodes) : s.hasNode n.label = true := by
  rw [document] at h
  cases hroot : s.node? root with
  | none =>
    rw [hroot] at h
    cases h
  | some document =>
    rw [hroot] at h
    exact hasNode_of_mem_below hroot h

/-! ### Revisions -/

theorem follows_removeMoreLinks (h : s.Consistent) (limit : Nat) :
    Follows [] s (s.removeMoreLinks limit) := follows_detachAll h _

theorem follows_promote (h : s.Consistent) : Follows [] s s.promote := by
  rw [promote]
  split
  · next content table _ htable =>
    have hmem := (Node.mem_elements_iff.mp (List.mem_of_find?_eq_some htable)).1
    have hnode := hasNode_of_mem_document (rowContainer_mem_nodes hmem)
    obtain ⟨hplant, hnodup, hroots⟩ := follows_plant h (promotedRows content)
    have hfits : ∀ c ∈ (plant (promotedRows content) s).1,
        (plant (promotedRows content) s).2.fits table.rowContainer.label c = true := fun c hc =>
      hplant.fits h hnode (hroots c hc).1 (hroots c hc).2.1 (hroots c hc).2.2
    have hinsert := follows_insertAfterFirstElement hplant.consistent hnodup
      (hplant.hasNode hnode) hfits
    exact (hplant.trans hinsert).of_new fun c hc => (hroots c hc).1
  · exact .refl h

/-- Replacing the children of a node by new trees. -/
theorem follows_replace (h : s.Consistent) (hl : s.hasNode l = true) (f : Forest) :
    Follows [] s (grow l f (s.clear l)) := by
  have hclear := follows_clear h l
  exact hclear.trans (follows_grow hclear.consistent (hclear.hasNode hl) f)

theorem follows_labelTables (h : s.Consistent) (urls : Urls) (ls : List Nat) :
    Follows [] s (labelTables urls ls s).1 := by
  induction ls generalizing s with
  | nil => exact .refl h
  | cons l ls ih =>
    rw [labelTables]
    split
    · exact .refl h
    · exact ih h
    · next label owner hlabel =>
      obtain ⟨table, htable, hmem, -⟩ := exists_table_of_labelOf hlabel
      have hnode := hasNode_of_mem_below htable hmem
      have hreplace := follows_replace h hnode (labelText urls owner)
      exact hreplace.trans (ih hreplace.consistent)

theorem follows_label (h : s.Consistent) (urls : Urls) : Follows [] s (s.label urls).1 :=
  follows_labelTables h urls _

theorem follows_summarise (h : s.Consistent) (l : Nat) (cells : List Node) (returns : String) :
    Follows [] s (s.summarise l cells returns) := by
  rw [summarise]
  split
  · have hdetach := follows_detachAll h (cells.filter (·.hasClass "td" "paramtype"))
    simp only
    split
    · next table htable =>
      refine hdetach.trans (follows_grow hdetach.consistent (hasNode_of_node? htable ?_) _)
      exact rowContainer_mem_nodes List.mem_cons_self
    · exact hdetach
  · exact .refl h

theorem follows_cleanTable? (h : s.Consistent) (ht : s.cleanTable? l = some t) :
    Follows [] s t := by
  obtain ⟨table, htable, ht⟩ := Option.bind_eq_some_iff.mp ht
  split at ht
  · obtain ⟨m, -, rfl⟩ := Option.map_eq_some_iff.mp ht
    simp only
    split
    · next first hfirst =>
      have hmem := (Node.mem_elements_iff.mp (List.mem_of_head? hfirst)).1
      have hnode := hasNode_of_mem_below htable hmem
      have htext : Follows [] s (s.setText first.label (String.ofList m.name)) :=
        follows_replace h hnode _
      exact htext.trans (follows_summarise htext.consistent _ _ _)
    · exact follows_summarise h _ _ _
  · cases ht

theorem follows_cleanTables (h : s.Consistent) (ls : List Nat) :
    Follows [] s (cleanTables ls s).1 := by
  induction ls generalizing s with
  | nil => exact .refl h
  | cons l ls ih =>
    rw [cleanTables]
    split
    · next t ht =>
      have hclean := follows_cleanTable? h ht
      exact hclean.trans (ih hclean.consistent)
    · exact ih h

theorem follows_clean (h : s.Consistent) : Follows [] s s.clean.1 := follows_cleanTables h _

theorem follows_prepared (h : s.Consistent) : Follows [] s s.prepared := by
  have hlinks := follows_removeMoreLinks h 2
  have hfirst := follows_replaceTextBelow hlinks.consistent root "Public Member Function"
    "Member Function"
  exact (hlinks.trans hfirst).trans
    (follows_replaceTextBelow hfirst.consistent root "More..." "[details]")

theorem follows_completed (h : s.Consistent) : Follows [] s s.completed.1 := by
  have hprepared := follows_prepared h
  have hpromote := follows_promote hprepared.consistent
  rw [completed]
  exact (hprepared.trans hpromote).trans (follows_label hpromote.consistent _)

/-- **What a revision keeps**, also when it breaks off. -/
theorem follows_revise (h : s.Consistent) : Follows [] s s.revise.1 := by
  have hcompleted := follows_completed h
  unfold revise
  generalize s.completed = r at hcompleted
  obtain ⟨t, e | k⟩ := r
  · exact hcompleted
  · have hclean := hcompleted.trans (follows_clean hcompleted.consistent)
    dsimp only
    exact hclean.trans (follows_detachAll hclean.consistent s.prepared.markerNodes)

/-! ### One thing after another -/

/-- Everything that is done to a page. -/
inductive Rewrite where
  /-- A new node without links. -/
  | create (i : Item)
  | deepClone (l : Nat)
  | append (a c : Nat)
  | insertAfterFirstElement (a : Nat) (cs : List Nat)
  | detach (l : Nat)
  | clear (l : Nat)
  | replaceText (l : Nat) (old new : String)
  | removeMoreLinks (limit : Nat)
  | promote
  | label (urls : Urls)
  | clean
  | revise

namespace Rewrite

/-- The page after it, or as far as it was changed before an error. -/
def apply : Rewrite → Heap → Heap
  | create i, s => s.create i
  | deepClone l, s => s.deepClone l
  | append a c, s => s.append a c
  | insertAfterFirstElement a cs, s => s.insertAfterFirstElement a cs
  | detach l, s => s.detach l
  | clear l, s => s.clear l
  | replaceText l old new, s => s.replaceTextBelow l old new
  | removeMoreLinks limit, s => s.removeMoreLinks limit
  | promote, s => s.promote
  | label urls, s => (s.label urls).1
  | clean, s => s.clean.1
  | revise, s => s.revise.1

/-- The nodes that it is told to put somewhere. -/
def placed : Rewrite → List Nat
  | append _ c => [c]
  | insertAfterFirstElement _ cs => cs
  | _ => []

/-- The nodes that it is told to take out of their places. -/
def removed : Rewrite → Heap → List Nat
  | detach l, s => if (s.parent? l).isSome then [l] else []
  | clear l, s => s.children l
  | _, _ => []

/-- Whether it makes a node or a copy of one. -/
def makes : Rewrite → Heap → Bool
  | create _, _ => true
  | deepClone l, s => s.hasNode l
  | _, _ => false

/-- Whether the nodes that are to be put somewhere fit there, and are all different. -/
def fits : Rewrite → Heap → Bool
  | append a c, s => s.fits a c
  | insertAfterFirstElement a cs, s => s.hasNode a && decide cs.Nodup && cs.all (s.fits a)
  | _, _ => true

/-- **What one thing keeps.** -/
theorem follows (r : Rewrite) (h : s.Consistent) (hfits : r.fits s = true) :
    Follows r.placed s (r.apply s) := by
  cases r with
  | create i => exact follows_create h i
  | deepClone l => exact follows_deepClone h l
  | append a c => exact follows_append h hfits
  | insertAfterFirstElement a cs =>
    rw [fits, Bool.and_eq_true, Bool.and_eq_true, decide_eq_true_eq, List.all_eq_true] at hfits
    exact follows_insertAfterFirstElement h hfits.1.2 hfits.1.1 hfits.2
  | detach l => exact follows_detach h l
  | clear l => exact follows_clear h l
  | replaceText l old new => exact follows_replaceTextBelow h l old new
  | removeMoreLinks limit => exact follows_removeMoreLinks h limit
  | promote => exact follows_promote h
  | label urls => exact follows_label h urls
  | clean => exact follows_clean h
  | revise => exact follows_revise h

/-- What is taken out of its place had one. -/
theorem hasNode_of_mem_removed (h : s.Consistent) {r : Rewrite} (hl : l ∈ r.removed s) :
    s.hasNode l = true := by
  cases r with
  | detach k =>
    rw [removed] at hl
    split at hl
    · next hparent =>
      obtain ⟨a, ha⟩ := Option.isSome_iff_exists.mp hparent
      rw [List.mem_singleton.mp hl]
      exact hasNode_of_parent? ha
    · cases hl
  | clear k => exact h.hasNode_child hl
  | _ => cases hl

/-- **What is taken out of its place has no parent and is listed nowhere.** -/
theorem isLoose_of_mem_removed (h : s.Consistent) {r : Rewrite} (hl : l ∈ r.removed s) :
    (r.apply s).IsLoose l := by
  cases r with
  | detach k =>
    rw [removed] at hl
    split at hl
    · rw [List.mem_singleton.mp hl]
      refine (h.detach k).isLoose_iff.mpr ?_
      rw [parent?_detach, if_pos List.mem_cons_self]
    · cases hl
  | clear k =>
    refine (h.clear k).isLoose_iff.mpr ?_
    exact (h.parent?_clear k l).trans (if_pos hl)
  | _ => cases hl

/-- What is made has the label that was free, and no parent. -/
theorem root_of_makes (h : s.Consistent) {r : Rewrite} (hmakes : r.makes s = true) :
    r.placed = [] ∧ (r.apply s).hasNode s.next = true ∧ (r.apply s).parent? s.next = none := by
  cases r with
  | create i => exact ⟨rfl, (follows_root h (.refl (follows_create h i).consistent)).2⟩
  | deepClone l => exact ⟨rfl, deepClone_root h hmakes⟩
  | _ => cases hmakes

end Rewrite

/-- The page after one thing and another. -/
def perform (rs : List Rewrite) (s : Heap) : Heap := rs.foldl (fun s r => r.apply s) s

/-- The nodes that are put somewhere. -/
def allPlaced (rs : List Rewrite) : List Nat := rs.flatMap Rewrite.placed

/-- Whether nodes are put below others only where they fit. -/
def admits : List Rewrite → Heap → Bool
  | [], _ => true
  | r :: rs, s => r.fits s && admits rs (r.apply s)

theorem perform_append (rs rs' : List Rewrite) (s : Heap) :
    perform (rs ++ rs') s = perform rs' (perform rs s) := List.foldl_append

theorem admits_append {rs rs' : List Rewrite} (h : admits (rs ++ rs') s = true) :
    admits rs s = true ∧ admits rs' (perform rs s) = true := by
  induction rs generalizing s with
  | nil => exact ⟨rfl, h⟩
  | cons r rs ih =>
    rw [List.cons_append, admits, Bool.and_eq_true] at h
    obtain ⟨hrs, hrs'⟩ := ih h.2
    rw [admits, h.1, hrs]
    exact ⟨rfl, hrs'⟩

/-- What any number of things keep. -/
theorem follows_perform (h : s.Consistent) {rs : List Rewrite} (hrs : admits rs s = true) :
    Follows (allPlaced rs) s (perform rs s) := by
  induction rs generalizing s with
  | nil => exact .refl h
  | cons r rs ih =>
    rw [admits, Bool.and_eq_true] at hrs
    have hfirst := r.follows h hrs.1
    exact hfirst.trans (ih hfirst.consistent hrs.2)

/-- **Links stay in agreement whatever is done**, also when a revision breaks off, as long as nodes
are put below others only where they fit.  A node stays where it stands or is nowhere any more, and
a node that is taken out of its place is nowhere, until it is put somewhere again.  Walking upwards
from a node comes to an end where there is no parent.  And what is made, a node or a copy, fits
below every node that was there before, until it is put somewhere or an older node is. -/
theorem consistent_perform (h : s.Consistent) {rs : List Rewrite} (hrs : admits rs s = true) :
    (perform rs s).Consistent ∧
    (∀ before after, rs = before ++ after → ∀ a c, c ∈ (perform before s).children a →
      c ∉ allPlaced after → c ∈ (perform rs s).children a ∨ (perform rs s).IsLoose c) ∧
    (∀ before r after, rs = before ++ r :: after → ∀ l ∈ r.removed (perform before s),
      l ∉ allPlaced after → (perform rs s).IsLoose l) ∧
    (∀ l, (perform rs s).ancestors l =
      match (perform rs s).parent? l with
      | some a => a :: (perform rs s).ancestors a
      | none => []) ∧
    ∀ before r after, rs = before ++ r :: after → r.makes (perform before s) = true →
      (∀ l ∈ allPlaced after, (perform before s).next < l) →
      ∀ a, (perform before s).hasNode a = true →
        (perform rs s).fits a (perform before s).next = true := by
  have hperform := (follows_perform h hrs).consistent
  refine ⟨hperform, ?_, ?_, hperform.ancestors_eq, ?_⟩
  · rintro before after rfl a c hc hplaced
    obtain ⟨hbefore, hafter⟩ := admits_append hrs
    have hstart := (follows_perform h hbefore).consistent
    rw [perform_append]
    exact (follows_perform hstart hafter).mem_children_or hstart hplaced hc
  · rintro before r after rfl l hl hplaced
    obtain ⟨hbefore, hafter⟩ := admits_append hrs
    rw [admits, Bool.and_eq_true] at hafter
    have hstart := (follows_perform h hbefore).consistent
    have hstep := r.follows hstart hafter.1
    rw [perform_append]
    exact (follows_perform hstep.consistent hafter.2).isLoose
      (hstep.hasNode (Rewrite.hasNode_of_mem_removed hstart hl)) hplaced
      (Rewrite.isLoose_of_mem_removed hstart hl)
  · rintro before r after rfl hmakes hplaced a ha
    obtain ⟨hbefore, hafter⟩ := admits_append hrs
    rw [admits, Bool.and_eq_true] at hafter
    have hstart := (follows_perform h hbefore).consistent
    have hstep := r.follows hstart hafter.1
    obtain ⟨hnone, hnode, hloose⟩ := Rewrite.root_of_makes hstart hmakes
    have hrest := follows_perform hstep.consistent hafter.2
    have hall : Follows [] (perform before s) (perform after (r.apply (perform before s))) := by
      refine (hstep.trans hrest).of_new fun l hl => ?_
      rw [hnone, List.nil_append] at hl
      exact Nat.le_of_lt (hplaced l hl)
    rw [perform_append]
    refine hall.fits hstart ha (Nat.le_refl _) (hrest.hasNode hnode) ?_
    exact hrest.parent_eq_none (hasNode_lt hnode) (fun hl => Nat.lt_irrefl _ (hplaced _ hl)) hloose

/-- No nodes at all. -/
theorem consistent_empty : Consistent ⟨[]⟩ where
  mem_children_iff := fun _ _ => ⟨nofun, nofun⟩
  nodup_children := fun _ => List.nodup_nil
  not_isAbove_self := by
    intro l hl
    cases hl with
    | single hb => cases hb
    | tail _ hb => cases hb

/-- A link and a table of an inherited member with two signatures. -/
def twoSignatures : Heap :=
  grow root
    (.ofElement "a" [] (.ofText "More...") ++
      .ofElement "table" []
        (.ofElement "td" [("class", "memname")] (.ofText "A::f") ++
          .ofElement "td" [("class", "memname")] (.ofText "B::f, inherited")))
    (create .document ⟨[]⟩)

/-- The table gets a text and is copied, the page is revised up to the error, the copy is put behind
the table, and a cell of the table is taken out. -/
def copyTable : List Rewrite :=
  [.create (.text "!"), .append 3 8, .deepClone 3, .revise, .append 0 9, .detach 4]

theorem consistent_perform_copyTable :
    twoSignatures.Consistent ∧ admits copyTable twoSignatures = true ∧
    (perform copyTable twoSignatures).Consistent ∧ (perform copyTable twoSignatures).IsLoose 4 ∧
    twoSignatures.children 0 = [1, 3] ∧ twoSignatures.children 3 = [4, 6] ∧
    (perform copyTable twoSignatures).children 0 = [3, 9] ∧
    (perform copyTable twoSignatures).children 3 = [6, 8] ∧
    (perform copyTable twoSignatures).children 9 = [10, 12, 14] ∧
    (perform copyTable twoSignatures).parent? 1 = none ∧
    (perform (copyTable.take 3) twoSignatures).revise.2 = some (.ambiguousSignature 2) := by
  have hcreate := (follows_create consistent_empty .document).consistent
  have hpage : twoSignatures.Consistent :=
    (follows_grow hcreate (hasNode_create .document ⟨[]⟩) _).consistent
  have hadmits : admits copyTable twoSignatures = true := by decide +kernel
  obtain ⟨hperform, -, hremoved, -⟩ := consistent_perform hpage hadmits
  refine ⟨hpage, hadmits, hperform, ?_, ?_⟩
  · exact hremoved (copyTable.take 5) (.detach 4) [] rfl 4 (by decide +kernel) List.not_mem_nil
  · decide +kernel

end BindingDocs.Page.Heap
