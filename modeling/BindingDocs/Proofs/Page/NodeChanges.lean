import BindingDocs.Proofs.Page.InheritedLabels

/-!
# One node while the page changes

A node keeps its label and its item, whatever is done to the page, and a change at some label is
felt below it or not at all.  So any number of changes can be followed at one node: what is below it
afterwards follows from what was below it, also when the node itself was taken out of the document
on the way.

## Main definitions

* `Node.updateBelow`, `Node.without`, `Node.withoutAll` — a node after changes at or below it.
* `AddsNo` — changes that put no element of some name into a page.

## Main results

* `Labelled.node?_setText`, `Labelled.node?_append`, `Labelled.node?_detach` — **every node after a
  change.**
* `Node.label_rowContainer_updateBelow`, `Node.label_rowContainer_without` — rows stay where they
  are kept.
* `Follows.mem_below` — what stands below a node stood below it before, or is new.
* `Node.mem_below_withoutAll` — what stays below a node when others are taken out.
-/

namespace BindingDocs.Page

open Page (Forest Item Node)

/-! ### A node after changes -/

namespace Node

variable {n : Node} {s d : Nat} {u : Forest → Forest} {ds : List Node}

/-- The node with the children at a label changed, which may be the label of the node itself. -/
def updateBelow (s : Nat) (u : Forest → Forest) (n : Node) : Node :=
  { n with below := if n.label = s then u n.below else n.below.updateBelow s u }

/-- The node without what stands below it at a label. -/
def without (d : Nat) (n : Node) : Node := { n with below := n.below.without d }

/-- The node without what stands below it at the labels of some nodes. -/
def withoutAll (ds : List Node) (n : Node) : Node := ds.foldl (fun n d => n.without d.label) n

@[simp] theorem label_updateBelow (s : Nat) (u : Forest → Forest) (n : Node) :
    (n.updateBelow s u).label = n.label := rfl

@[simp] theorem item_updateBelow (s : Nat) (u : Forest → Forest) (n : Node) :
    (n.updateBelow s u).item = n.item := rfl

@[simp] theorem label_without (d : Nat) (n : Node) : (n.without d).label = n.label := rfl

@[simp] theorem item_without (d : Nat) (n : Node) : (n.without d).item = n.item := rfl

theorem withoutAll_cons (d : Node) (ds : List Node) (n : Node) :
    n.withoutAll (d :: ds) = (n.without d.label).withoutAll ds := rfl

@[simp] theorem label_withoutAll (ds : List Node) (n : Node) :
    (n.withoutAll ds).label = n.label := by
  induction ds generalizing n with
  | nil => rfl
  | cons d ds ih => rw [withoutAll_cons, ih, label_without]

@[simp] theorem item_withoutAll (ds : List Node) (n : Node) : (n.withoutAll ds).item = n.item := by
  induction ds generalizing n with
  | nil => rfl
  | cons d ds ih => rw [withoutAll_cons, ih, item_without]

/-- A change elsewhere leaves the node as it is. -/
theorem updateBelow_eq_self (h : s ∉ n.toForest.preorder) : n.updateBelow s u = n := by
  rw [mem_toForest_iff, not_or] at h
  rw [updateBelow, if_neg (Ne.symm h.1), Forest.updateBelow_eq_self h.2]

theorem without_eq_self (h : d ∉ n.below.preorder) : n.without d = n := by
  rw [without, Forest.without_eq_self h]

theorem withoutAll_eq_self (h : ∀ d ∈ ds, d.label ∉ n.below.preorder) : n.withoutAll ds = n := by
  induction ds with
  | nil => rfl
  | cons d ds ih =>
    obtain ⟨hd, hds⟩ := List.forall_mem_cons.mp h
    rw [withoutAll_cons, without_eq_self hd, ih hds]

end Node

/-! ### Where rows are kept -/

section RowContainer

variable {n : Node} {s d : Nat} {u : Forest → Forest}

theorem Forest.map_place_roots_updateBelow (s : Nat) (u : Forest → Forest) (f : Forest) :
    (f.updateBelow s u).roots.map Node.place = f.roots.map Node.place := by
  induction f with
  | nil => rfl
  | cons m i below next _ ih =>
    rw [updateBelow]
    split
    · rfl
    · rw [roots, roots, List.map_cons, List.map_cons, ih]
      rfl

theorem Forest.map_place_roots_without (d : Nat) (f : Forest) :
    (f.without d).roots.map Node.place = (f.roots.map Node.place).filter (·.1 ≠ d) := by
  induction f with
  | nil => rfl
  | cons m i below next _ ih =>
    rw [without, roots, List.map_cons]
    by_cases hm : m = d
    · rw [if_pos hm, ih, List.filter_cons_of_neg (by simp [Node.place, hm])]
    · rw [if_neg hm, roots, List.map_cons, ih, List.filter_cons_of_pos (by simp [Node.place, hm])]
      rfl

/-- Whether a body of a table stands at a place. -/
def isBodyPlace (place : Nat × Option Element) : Bool := place.2.map (·.name) == some "tbody"

/-- Where rows are kept can be read from the places of the children. -/
theorem Node.label_rowContainer (n : Node) :
    n.rowContainer.label =
      ((((n.below.roots.map Node.place).filter isBodyPlace).head?).map (·.1)).getD n.label := by
  have hbody : ∀ r : Node, (r.isElement "tbody" && r.item.isElement) = isBodyPlace r.place := by
    intro r
    rw [Item.isElement, Node.isElement, Node.localName?, isBodyPlace, Node.place]
    cases r.item.element? with
    | none => rfl
    | some e => simp
  have hcomp : (isBodyPlace ∘ Node.place) = fun r => isBodyPlace r.place := rfl
  rw [rowContainer, elementChildren, ← List.head?_filter, List.filter_filter, List.filter_map,
    List.head?_map, hcomp]
  simp only [hbody]
  cases (n.below.roots.filter fun r => isBodyPlace r.place).head? <;> rfl

theorem Node.label_rowContainer_updateBelow (h : n.label ≠ s) :
    (n.updateBelow s u).rowContainer.label = n.rowContainer.label := by
  rw [label_rowContainer, label_rowContainer, updateBelow, if_neg h]
  simp only [Forest.map_place_roots_updateBelow]

theorem Node.label_rowContainer_without
    (h : ∀ r ∈ n.below.roots, r.label = d → r.isElement "tbody" = false) :
    (n.without d).rowContainer.label = n.rowContainer.label := by
  rw [label_rowContainer, label_rowContainer, without]
  simp only [Forest.map_place_roots_without, List.filter_filter]
  congr 3
  refine List.filter_congr fun place hplace => ?_
  obtain ⟨r, hr, rfl⟩ := List.mem_map.mp hplace
  by_cases hd : r.label = d
  · have hbody := h r hr hd
    rw [Node.isElement, Node.localName?] at hbody
    simp [isBodyPlace, Node.place, hbody]
  · simp [Node.place, hd]

/-- Rows stay where they are kept when nodes are taken out that are no bodies of tables. -/
theorem Node.label_rowContainer_withoutAll {ds : List Node}
    (h : ∀ d ∈ ds, ∀ r ∈ n.below.roots, r.label = d.label → r.isElement "tbody" = false) :
    (n.withoutAll ds).rowContainer.label = n.rowContainer.label := by
  induction ds generalizing n with
  | nil => rfl
  | cons d ds ih =>
    obtain ⟨hd, hds⟩ := List.forall_mem_cons.mp h
    rw [withoutAll_cons, ih fun e he r hr hlabel => ?_, label_rowContainer_without hd]
    -- a child that is left has the place of an old one
    have hplace : r.place ∈ (n.below.roots.map Node.place).filter (·.1 ≠ d.label) :=
      Forest.map_place_roots_without d.label n.below ▸ List.mem_map_of_mem hr
    obtain ⟨r', hr', heq⟩ := List.mem_map.mp (List.mem_of_mem_filter hplace)
    rw [← isElement_eq heq]
    exact hds e he r' hr' ((Prod.mk.inj heq).1.trans hlabel)

end RowContainer

/-! ### Every node after a change -/

namespace Forest

variable {f g : Forest} {l s d : Nat} {n : Node} {u : Forest → Forest}

/-- Every node after trees were put somewhere among the children of one. -/
theorem find?_graft (h : f.preorder.Nodup) (hl : l ∉ g.preorder)
    (hu : ∀ b, ∃ before after, b = before ++ after ∧ u b = before ++ (g ++ after)) :
    (f.updateBelow s u).find? l = (f.find? l).map (Node.updateBelow s u) := by
  induction f with
  | nil => rfl
  | cons m i below next ihb ihn =>
    rw [preorder, List.nodup_cons, List.mem_append, not_or] at h
    obtain ⟨⟨hmb, hmn⟩, hnodup⟩ := h
    obtain ⟨hb, hn, -⟩ := List.nodup_append.mp hnodup
    rw [updateBelow, find?]
    by_cases hm : m = s
    · subst hm
      rw [if_pos rfl, find?]
      by_cases hml : m = l
      · rw [if_pos hml, if_pos hml, Option.map_some, Node.updateBelow, if_pos rfl]
      · -- the new trees do not hold the label, and the old ones do not hold `m`
        have hsame : ∀ g : Forest, m ∉ g.preorder →
            (g.find? l).map (Node.updateBelow m u) = g.find? l := by
          intro g hg
          cases hfind : g.find? l with
          | none => rfl
          | some n =>
            have hmem := (mem_nodes_of_find? hfind).1
            rw [Option.map_some, Node.updateBelow_eq_self fun hn => ?_]
            rcases Node.mem_toForest_iff.mp hn with rfl | hn
            · exact hg (label_mem_preorder hmem)
            · exact hg ((preorder_below_sublist hmem).subset hn)
        obtain ⟨before, after, hbelow, hput⟩ := hu below
        have hchildren : (u below).find? l = below.find? l := by
          rw [hput, hbelow, find?_append, find?_append, find?_append, find?_eq_none_iff.mpr hl]
          rfl
        rw [if_neg hml, if_neg hml, hchildren, Option.orElse_eq_orElse, Option.orElse_eq_or,
          Option.map_or, hsame below hmb, hsame next hmn]
    · rw [if_neg hm, find?, ihb hb, ihn hn]
      by_cases hml : m = l
      · rw [if_pos hml, if_pos hml, Option.map_some, Node.updateBelow, if_neg hm]
      · rw [if_neg hml, if_neg hml]
        cases below.find? l <;> rfl

/-- Every node after a tree was taken out and put at the end. -/
theorem find?_without_append (h : f.preorder.Nodup) (hn : f.find? d = some n) (l : Nat) :
    (f.without d ++ n.toForest).find? l = (f.find? l).map (Node.without d) := by
  obtain ⟨hmem, rfl⟩ := mem_nodes_of_find? hn
  have hperm := preorder_without h hn
  have hnodup := hperm.nodup_iff.mp h
  rw [← preorder_append] at hperm hnodup
  cases hfind : f.find? l with
  | none => exact find?_eq_none_iff.mpr fun hl => find?_eq_none_iff.mp hfind (hperm.mem_iff.mpr hl)
  | some m =>
    obtain ⟨hm, rfl⟩ := mem_nodes_of_find? hfind
    rw [Option.map_some, find?_eq_some_iff hnodup, nodes_append, List.mem_append]
    refine ⟨?_, rfl⟩
    by_cases hin : m.label ∈ n.toForest.preorder
    · -- a node of the tree does not hold the root of the tree
      right
      obtain ⟨m', hm', hlabel⟩ := exists_node_of_mem_preorder hin
      obtain rfl := eq_of_label_eq h (nodes_toForest_subset hmem hm') hm hlabel
      rwa [Node.without_eq_self fun hbelow => ?_]
      have hself := label_notMem_below h hmem
      rcases Node.mem_toForest_iff.mp hin with heq | hin
      · rw [eq_of_label_eq h hm hmem heq] at hbelow
        exact hself hbelow
      · obtain ⟨k, hk, hkl⟩ := exists_node_of_mem_preorder hin
        rw [eq_of_label_eq h ((nodes_below_sublist hmem).subset hk) hm hkl] at hk
        exact hself ((preorder_below_sublist hk).subset hbelow)
    · left
      have hleft : m.label ∈ (f.without n.label).preorder := by
        have hl := hperm.mem_iff.mp (label_mem_preorder hm)
        rw [preorder_append, List.mem_append] at hl
        exact hl.resolve_right hin
      obtain ⟨m', hm', hlabel⟩ := exists_node_of_mem_preorder hleft
      obtain ⟨k, hk, rfl⟩ := mem_nodes_without hm'
      obtain rfl := eq_of_label_eq h hk hm hlabel
      exact hm'

end Forest

section Changes

variable {p : Page} {l s d : Nat}

theorem Labelled.node?_append (h : p.Labelled) (s : Nat) (f : Forest) (hl : l < p.next) :
    (p.append s f).node? l =
      (p.node? l).map (Node.updateBelow s (· ++ (f.relabel p.next).1)) := by
  have hfresh : l ∉ (f.relabel p.next).1.preorder := by
    rw [Forest.preorder_relabel, List.mem_range'_1]
    omega
  exact Forest.find?_graft h.nodup hfresh fun b => ⟨b, .nil, by simp, by simp⟩

theorem Labelled.node?_detach (h : p.Labelled) (d l : Nat) :
    (p.detach d).node? l = (p.node? l).map (Node.without d) := by
  rw [detach]
  split
  · next _ n _ hn => exact Forest.find?_without_append h.nodup hn l
  · next hnone =>
    cases hfind : p.node? l with
    | none => rfl
    | some n =>
      have hn := (h.node?_eq_some_iff.mp hfind).1
      rw [Option.map_some, Node.without_eq_self fun hd => ?_]
      obtain ⟨m, hm, rfl⟩ := Forest.exists_node_of_mem_preorder hd
      have hnode := h.node?_label ((Forest.nodes_below_sublist hn).subset hm)
      cases hparent : p.parent? m.label with
      | none => exact h.notMem_below hparent hn hd
      | some parent => exact hnone parent m hparent hnode

theorem Labelled.node?_detachAll (h : p.Labelled) (ds : List Node) (l : Nat) :
    (p.detachAll ds).node? l = (p.node? l).map (Node.withoutAll ds) := by
  induction ds generalizing p with
  | nil =>
    show p.node? l = (p.node? l).map id
    rw [Option.map_id, id]
  | cons d ds ih =>
    rw [detachAll, List.foldl_cons, ← detachAll, ih (follows_detach h d.label).labelled,
      h.node?_detach, Option.map_map]
    rfl

theorem Labelled.node?_setText (h : p.Labelled) (hs : s ∈ p.forest.preorder) (t : String)
    (hl : l < p.next) :
    (p.setText s t).node? l =
      (p.node? l).map (Node.updateBelow s fun _ => ((Forest.ofText t).relabel p.next).1) := by
  obtain ⟨n, hn, rfl⟩ := Forest.exists_node_of_mem_preorder hs
  have hnode := h.node?_label hn
  rw [setText, h.node?_clear_append hnode _ hl]
  split
  · next heq => rw [heq, hnode, Option.map_some, Node.updateBelow, if_pos rfl]
  · next hne =>
    cases hfind : p.node? l with
    | none => rfl
    | some m =>
      have hlabel := (h.node?_eq_some_iff.mp hfind).2
      rw [Option.map_some, Option.map_some, Node.updateBelow, if_neg (hlabel.trans_ne hne)]

end Changes

/-! ### What stays below a node -/

/-- What stands below a node stood below it before, or is new. -/
theorem Follows.mem_below {p q : Page} (hp : p.Labelled) (h : p.Follows q) {n m : Node} {c : Nat}
    (hn : n ∈ q.forest.nodes) (hm : m ∈ p.forest.nodes) (hlabel : m.label = n.label)
    (hc : c < p.next) (hbelow : c ∈ n.below.preorder) : c ∈ m.below.preorder := by
  induction c using h.labelled.upwards_induction with
  | step c ih =>
    rcases Forest.mem_preorder_iff.mp hbelow with hroot | ⟨b, k, hk, rfl, hlisted⟩
    · obtain ⟨m', hm', hlabel', hchild⟩ := h.lists hc ⟨n, hn, rfl, hroot⟩
      rw [Forest.eq_of_label_eq hp.nodup hm' hm (hlabel'.trans hlabel.symm)] at hchild
      exact (Forest.rootLabels_sublist _).subset hchild
    · have hkmem := (Forest.nodes_below_sublist hn).subset hk
      obtain ⟨k', hk', hklabel, hchild⟩ := h.lists hc ⟨k, hkmem, rfl, hlisted⟩
      have hklt : k.label < p.next := hklabel ▸ hp.label_lt_next hk'
      have hparent := h.labelled.parent?_eq_some_iff.mpr ⟨hkmem, hlisted⟩
      have hkbelow := ih k hparent hklt (Forest.label_mem_preorder hk)
      obtain ⟨k'', hk'', hklabel''⟩ := Forest.exists_node_of_mem_preorder hkbelow
      have hk''mem := (Forest.nodes_below_sublist hm).subset hk''
      rw [Forest.eq_of_label_eq hp.nodup hk''mem hk' (hklabel''.trans hklabel.symm)] at hk''
      exact (Forest.preorder_below_sublist hk'').subset
        ((Forest.rootLabels_sublist _).subset hchild)

theorem Forest.mem_preorder_updateBelow {f : Forest} {c s : Nat} {u : Forest → Forest}
    (hc : c ∈ f.preorder)
    (hs : ∀ n ∈ f.nodes, n.label = s → c ∈ n.below.preorder → c ∈ (u n.below).preorder) :
    c ∈ (f.updateBelow s u).preorder := by
  induction f with
  | nil => cases hc
  | cons m i below next ihb ihn =>
    rw [preorder, List.mem_cons, List.mem_append] at hc
    have hbelow := fun hc => ihb hc fun n hn => hs n (by simp [nodes, hn])
    have hnext := fun hc => ihn hc fun n hn => hs n (by simp [nodes, hn])
    rw [updateBelow]
    split
    · next hm =>
      have hput := hs ⟨m, i, below⟩ List.mem_cons_self hm
      rw [preorder, List.mem_cons, List.mem_append]
      exact hc.imp_right (Or.imp_left hput)
    · rw [preorder, List.mem_cons, List.mem_append]
      exact hc.imp_right (Or.imp hbelow hnext)

theorem Node.mem_below_append {n : Node} {c : Nat} (hc : c ∈ n.below.preorder) (s : Nat)
    (g : Forest) : c ∈ (n.updateBelow s (· ++ g)).below.preorder := by
  have hput {b : Forest} (hb : c ∈ b.preorder) : c ∈ (b ++ g).preorder := by
    rw [Forest.preorder_append]
    exact List.mem_append_left _ hb
  rw [updateBelow]
  split
  · exact hput hc
  · exact Forest.mem_preorder_updateBelow hc fun _ _ _ => hput

/-- What stands neither at nor below the nodes that are taken out stays. -/
theorem Forest.mem_preorder_without {f : Forest} {c d : Nat} (hc : c ∈ f.preorder) (hne : c ≠ d)
    (hd : ∀ n ∈ f.nodes, n.label = d → c ∉ n.below.preorder) : c ∈ (f.without d).preorder := by
  induction f with
  | nil => cases hc
  | cons m i below next ihb ihn =>
    rw [preorder, List.mem_cons, List.mem_append] at hc
    have hbelow := fun hc => ihb hc fun n hn => hd n (by simp [nodes, hn])
    have hnext := fun hc => ihn hc fun n hn => hd n (by simp [nodes, hn])
    rw [without]
    split
    · next hm =>
      rcases hc with rfl | hc | hc
      · exact absurd hm hne
      · exact absurd hc (hd ⟨m, i, below⟩ List.mem_cons_self hm)
      · exact hnext hc
    · rw [preorder, List.mem_cons, List.mem_append]
      exact hc.imp_right (Or.imp hbelow hnext)

theorem Forest.preorder_without_subset (d : Nat) (f : Forest) :
    (f.without d).preorder ⊆ f.preorder := by
  intro c hc
  obtain ⟨n, hn, rfl⟩ := exists_node_of_mem_preorder hc
  obtain ⟨m, hm, heq⟩ := mem_nodes_without hn
  rw [heq]
  exact label_mem_preorder (n := m) hm

theorem Node.mem_below_withoutAll {n : Node} {c : Nat} {ds : List Node}
    (hc : c ∈ n.below.preorder) (hne : ∀ d ∈ ds, c ≠ d.label)
    (hds : ∀ d ∈ ds, ∀ k ∈ n.below.nodes, k.label = d.label → c ∉ k.below.preorder) :
    c ∈ (n.withoutAll ds).below.preorder := by
  induction ds generalizing n with
  | nil => exact hc
  | cons d ds ih =>
    obtain ⟨hned, hne⟩ := List.forall_mem_cons.mp hne
    obtain ⟨hd, hds⟩ := List.forall_mem_cons.mp hds
    rw [withoutAll_cons]
    refine ih (Forest.mem_preorder_without hc hned hd) hne fun e he k hk hlabel hbelow => ?_
    obtain ⟨m, hm, rfl⟩ := Forest.mem_nodes_without hk
    exact hds e he m hm hlabel (Forest.preorder_without_subset _ _ hbelow)

/-! ### What is put into a page -/

/-- A node of a forest in which trees were put below one was there before, or is one of them. -/
theorem Forest.mem_nodes_updateBelow_append {f g : Forest} {l : Nat} {n : Node}
    (h : n ∈ (f.updateBelow l (· ++ g)).nodes) :
    (∃ m ∈ f.nodes, m.label = n.label ∧ m.item = n.item) ∨ n ∈ g.nodes := by
  have hu (b : Forest) : ∃ before after, b = before ++ after ∧ b ++ g = before ++ (g ++ after) :=
    ⟨b, .nil, by simp, by simp⟩
  rcases mem_nodes_graft hu h with ⟨m, hm, hlabel, hitem, -⟩ | hnew
  · exact Or.inl ⟨m, hm, hlabel, hitem⟩
  · exact Or.inr hnew

/-- The page `q` came from `p` by changes that put no element of this name into it. -/
structure AddsNo (tag : String) (p q : Page) : Prop extends Follows p q where
  lacks : ∀ n ∈ q.forest.nodes, p.next ≤ n.label → n.isElement tag = false

namespace AddsNo

variable {tag : String} {p q r : Page}

/-- No new labels, no new nodes. -/
theorem of_next_eq (h : p.Follows q) (hnext : q.next = p.next) : AddsNo tag p q := by
  refine ⟨h, fun n hn hle => absurd hle (Nat.not_le.mpr ?_)⟩
  exact hnext ▸ h.labelled.label_lt_next hn

theorem refl (h : p.Labelled) : AddsNo tag p p := of_next_eq (.refl h) rfl

theorem trans (hpq : AddsNo tag p q) (hqr : AddsNo tag q r) : AddsNo tag p r where
  toFollows := hpq.toFollows.trans hqr.toFollows
  lacks := by
    intro n hn hle
    rcases Nat.lt_or_ge n.label q.next with hlt | hge
    · obtain ⟨m, hm, hplace⟩ := hqr.exists_place hn hlt
      rw [← isElement_eq hplace]
      exact hpq.lacks m hm ((Prod.mk.inj hplace).1 ▸ hle)
    · exact hqr.lacks n hn hge

theorem append (h : p.Labelled) (l : Nat) {f : Forest} (hf : f.Lacks tag) :
    AddsNo tag p (p.append l f) := by
  refine ⟨follows_append h l f, fun n hn hle => ?_⟩
  rcases Forest.mem_nodes_updateBelow_append hn with ⟨m, hm, hlabel, -⟩ | hnew
  · have hlt := h.label_lt_next hm
    omega
  · exact hf.relabel hnew

end AddsNo

theorem next_clear (l : Nat) (p : Page) : (p.clear l).next = p.next := by
  rw [clear]
  split <;> rfl

theorem next_detachAll (ds : List Node) (p : Page) : (p.detachAll ds).next = p.next := by
  induction ds generalizing p with
  | nil => rfl
  | cons d ds ih =>
    have hone : (p.detach d.label).next = p.next := by
      rw [detach]
      split <;> rfl
    rw [detachAll, List.foldl_cons, ← detachAll, ih, hone]

theorem next_setText (l : Nat) (s : String) (p : Page) : (p.setText l s).next = p.next + 1 := by
  rw [← next_clear l p]
  rfl

/-! ### Nodes by their labels -/

section Document

variable {p : Page} {l : Nat} {n a : Node}

/-- A node with a label that stands below a node stands there itself. -/
theorem Labelled.mem_below_of_node? (h : p.Labelled) (hn : p.node? l = some n)
    (ha : a ∈ p.forest.nodes) (hl : l ∈ a.below.preorder) : n ∈ a.below.nodes := by
  obtain ⟨k, hk, rfl⟩ := Forest.exists_node_of_mem_preorder hl
  rw [h.node?_label ((Forest.nodes_below_sublist ha).subset hk)] at hn
  rwa [← Option.some.inj hn]

theorem Labelled.mem_body_of_node? (h : p.Labelled) (hn : p.node? l = some n)
    (hl : l ∈ p.body.preorder) : n ∈ p.body.nodes := by
  have hbelow := h.mem_below_of_node? hn h.document_mem
  exact hbelow hl

theorem body_of_node? {n : Node} (h : p.node? root = some n) : p.body = n.below := by
  rw [body, document, h, Option.getD_some]

end Document

end BindingDocs.Page
