import BindingDocs.Html.Write
import BindingDocs.Proofs.Page.DisclosureLinks
import BindingDocs.Proofs.Page.NodeChanges

/-!
# Trees put into a page

Copies of trees are put after the first element among the children of a node.  They get labels that
were never used, so nothing that is done to the old nodes later is felt in them.  Every old node
keeps its item, its parent and its place among the old nodes, and apart from the node that was
chosen it keeps its children too.

## Main definitions

* `Forest.CutAfterFirstElement` — the two parts of a forest around the end of its first element.
* `Forest.IsCopyOf` — the same trees under other labels.
* `Page.Inserts` — everything that is known of a page into which trees were put.

## Main results

* `Forest.IsCopyOf.write_eq` — **a copy is written like the original.**
* `Page.inserts_insertAfterFirstElement` — **trees that are put into a page change nothing else.**
-/

namespace BindingDocs.Page

open Page (Forest Item Node)

open scoped List

namespace Forest

variable {f g copy : Forest} {l k : Nat} {n : Node} {u : Forest → Forest}

/-! ### Where the trees are put -/

/-- The forest is cut in two parts, the first of which ends with the first element and is empty if
there is none. -/
def CutAfterFirstElement (f before after : Forest) : Prop :=
  f = before ++ after ∧
    ((before = nil ∧ ∀ n ∈ f.roots, n.item.isElement = false) ∨
      ∃ (front : Forest) (n : Node), before = front ++ n.toForest ∧ n.item.isElement = true ∧
        ∀ m ∈ front.roots, m.item.isElement = false)

theorem go_eq_none_iff : insertAfterFirstElement.go g f = none ↔
    ∀ n ∈ f.roots, n.item.isElement = false := by
  induction f with
  | nil => simp [insertAfterFirstElement.go, roots]
  | cons m i below next _ ih =>
    rw [insertAfterFirstElement.go, roots, List.forall_mem_cons, ← ih]
    cases i.isElement <;> simp

theorem go_eq_some {f' : Forest} (h : insertAfterFirstElement.go g f = some f') :
    ∃ (front : Forest) (n : Node) (after : Forest), f = front ++ (n.toForest ++ after) ∧
      n.item.isElement = true ∧ (∀ m ∈ front.roots, m.item.isElement = false) ∧
      f' = front ++ (n.toForest ++ (g ++ after)) := by
  induction f generalizing f' with
  | nil => cases h
  | cons m i below next _ ih =>
    rw [insertAfterFirstElement.go] at h
    split at h
    · next hi =>
      cases h
      exact ⟨nil, ⟨m, i, below⟩, next, rfl, hi, by simp [roots], rfl⟩
    · next hi =>
      obtain ⟨next', hnext', rfl⟩ := Option.map_eq_some_iff.mp h
      obtain ⟨front, n, after, rfl, hn, hfront, rfl⟩ := ih hnext'
      refine ⟨cons m i below front, n, after, rfl, hn, ?_, rfl⟩
      rw [roots, List.forall_mem_cons]
      exact ⟨Bool.eq_false_iff.mpr hi, hfront⟩

/-- The trees are put where the forest is cut after its first element. -/
theorem exists_cutAfterFirstElement (g f : Forest) : ∃ before after,
    f.CutAfterFirstElement before after ∧
      insertAfterFirstElement g f = before ++ (g ++ after) := by
  rw [insertAfterFirstElement]
  split
  · next f' hgo =>
    obtain ⟨front, n, after, rfl, hn, hfront, rfl⟩ := go_eq_some hgo
    exact ⟨front ++ n.toForest, after,
      ⟨(append_assoc _ _ _).symm, .inr ⟨front, n, rfl, hn, hfront⟩⟩, (append_assoc _ _ _).symm⟩
  · next hgo => exact ⟨nil, f, ⟨rfl, .inl ⟨rfl, go_eq_none_iff.mp hgo⟩⟩, rfl⟩

/-! ### Old nodes -/

theorem filter_entries_of_lt (h : ∀ l ∈ f.preorder, l < k) :
    f.entries.filter (·.1 < k) = f.entries := by
  refine List.filter_eq_self.mpr fun e he => decide_eq_true (h e.1 ?_)
  rw [← map_fst_entries]
  exact List.mem_map_of_mem he

theorem filter_entries_of_le (h : ∀ l ∈ f.preorder, k ≤ l) : f.entries.filter (·.1 < k) = [] := by
  refine List.filter_eq_nil_iff.mpr fun e he => ?_
  rw [decide_eq_true_eq, Nat.not_lt]
  refine h e.1 ?_
  rw [← map_fst_entries]
  exact List.mem_map_of_mem he

/-- Without the new trees, the nodes are the old ones in the same order. -/
theorem entries_graft (hu : ∀ b, ∃ before after, b = before ++ after ∧
      u b = before ++ (g ++ after)) (hf : ∀ l ∈ f.preorder, l < k) (hg : ∀ l ∈ g.preorder, k ≤ l) :
    (f.updateBelow l u).entries.filter (·.1 < k) = f.entries := by
  induction f with
  | nil => rfl
  | cons m i below next ihb ihn =>
    rw [preorder, List.forall_mem_cons, List.forall_mem_append] at hf
    obtain ⟨hm, hbelow, hnext⟩ := hf
    have hkept (es : List (Nat × Item)) :
        ((m, i) :: es).filter (·.1 < k) = (m, i) :: es.filter (·.1 < k) :=
      List.filter_cons_of_pos (decide_eq_true hm)
    rw [updateBelow, entries_cons]
    split
    · obtain ⟨before, after, rfl, hput⟩ := hu below
      rw [preorder_append, List.forall_mem_append] at hbelow
      rw [entries_cons, hkept, hput]
      simp only [entries_append, List.filter_append, filter_entries_of_lt hbelow.1,
        filter_entries_of_lt hbelow.2, filter_entries_of_lt hnext, filter_entries_of_le hg,
        List.nil_append]
    · rw [entries_cons, hkept, List.filter_append,
        ihb hbelow, ihn hnext]

/-! ### Copies -/

/-- The same trees under other labels. -/
inductive IsCopyOf : Forest → Forest → Prop
  | nil : IsCopyOf nil nil
  | cons (l m : Nat) (i : Item) {below below' next next' : Forest} (hbelow : IsCopyOf below below')
      (hnext : IsCopyOf next next') : IsCopyOf (cons l i below next) (cons m i below' next')

theorem isCopyOf_relabel (k : Nat) (f : Forest) : (f.relabel k).1.IsCopyOf f := by
  induction f generalizing k with
  | nil => exact .nil
  | cons l i below next ihb ihn => exact .cons k l i (ihb _) (ihn _)

/-- **A copy is written like the original.** -/
theorem IsCopyOf.write_eq (h : copy.IsCopyOf f) (raw silent : Bool) :
    Html.write raw silent copy = Html.write raw silent f := by
  induction h generalizing raw silent with
  | nil => rfl
  | cons l m i _ _ ihb ihn =>
    simp only [Html.write, ihb, ihn]

end Forest

/-! ### Pages -/

/-- The page `q` is the page `p` with the trees `new` among the children of the node labelled `c`,
after its first element.  The new trees have labels that were free, and there are no other new
nodes.  Every node that was there has the item and the parent that it had, the nodes stand in the
order in which they stood, and all but one have the same children. -/
structure Inserts (p q : Page) (c : Nat) (new : Forest) : Prop where
  labelled : q.Labelled
  position : ∃ n before after, p.node? c = some n ∧ n.below.CutAfterFirstElement before after ∧
    q.node? c = some { n with below := before ++ (new ++ after) }
  fresh : ∀ l ∈ new.preorder, p.next ≤ l
  labels : q.forest.preorder.Perm (p.forest.preorder ++ new.preorder)
  entries : q.forest.entries.filter (·.1 < p.next) = p.forest.entries
  children : ∀ l ∈ p.forest.preorder, l ≠ c → q.children l = p.children l
  parents : ∀ l ∈ p.forest.preorder, q.parentLabel? l = p.parentLabel? l

section Pages

variable {p : Page} {c l : Nat} {n : Node}

/-- The trees that are put into the page, with the labels that they get. -/
def freshTrees (p : Page) (f : Forest) : Forest := (f.relabel p.next).1

theorem fresh_freshTrees (p : Page) (f : Forest) : ∀ l ∈ (p.freshTrees f).preorder, p.next ≤ l := by
  intro l hl
  rw [freshTrees, Forest.preorder_relabel, List.mem_range'_1] at hl
  exact hl.1

theorem graft_freshTrees (p : Page) (f b : Forest) : ∃ before after, b = before ++ after ∧
    Forest.insertAfterFirstElement (p.freshTrees f) b = before ++ (p.freshTrees f ++ after) :=
  Forest.exists_insertAfterFirstElement _ b

/-- Every old node after trees were put into the page. -/
theorem Labelled.node?_insertAfterFirstElement (h : p.Labelled) (c : Nat) (f : Forest)
    (hl : l < p.next) : (p.insertAfterFirstElement c f).node? l =
      (p.node? l).map (Node.updateBelow c (Forest.insertAfterFirstElement (p.freshTrees f))) := by
  have hfresh : l ∉ (p.freshTrees f).preorder := fun hmem =>
    Nat.lt_irrefl _ (Nat.lt_of_lt_of_le hl (fresh_freshTrees p f l hmem))
  exact Forest.find?_graft h.nodup hfresh (graft_freshTrees p f)

/-- The children of old nodes after trees were put into the page. -/
theorem Labelled.children_insertAfterFirstElement (h : p.Labelled) (f : Forest)
    (hl : l ∈ p.forest.preorder) : p.children l ⊆ (p.insertAfterFirstElement c f).children l ∧
      (l ≠ c → (p.insertAfterFirstElement c f).children l = p.children l) := by
  obtain ⟨n, hn, rfl⟩ := Forest.exists_node_of_mem_preorder hl
  have hnode := h.node?_label hn
  have hafter := h.node?_insertAfterFirstElement c f (h.lt_next _ hl)
  rw [hnode, Option.map_some] at hafter
  simp only [children, hnode, hafter, Option.map_some, Option.getD_some]
  by_cases hc : n.label = c
  · obtain ⟨before, after, hbelow, hput⟩ := graft_freshTrees p f n.below
    rw [Node.updateBelow, if_pos hc, hput, Forest.rootLabels_append, Forest.rootLabels_append,
      hbelow, Forest.rootLabels_append]
    refine ⟨fun a ha => ?_, fun hne => absurd hc hne⟩
    rw [List.mem_append] at ha ⊢
    exact ha.imp_right (List.mem_append_right _)
  · rw [Node.updateBelow, if_neg hc, Forest.rootLabels_updateBelow]
    exact ⟨List.Subset.refl _, fun _ => rfl⟩

theorem Labelled.parentLabel?_insertAfterFirstElement (h : p.Labelled) (c : Nat) (f : Forest)
    (hl : l ∈ p.forest.preorder) :
    (p.insertAfterFirstElement c f).parentLabel? l = p.parentLabel? l := by
  have hfollows := follows_insertAfterFirstElement h c f
  refine Option.ext fun a => ?_
  rw [hfollows.labelled.parentLabel?_eq_some_iff, h.parentLabel?_eq_some_iff]
  constructor
  · exact hfollows.lists (h.lt_next l hl)
  · intro hlists
    rw [← h.mem_children] at hlists
    rw [← hfollows.labelled.mem_children]
    have ha := (h.mem_children.mp hlists).mem_preorder_left
    exact (h.children_insertAfterFirstElement f ha).1 hlists

/-- **Trees that are put into a page change nothing else.** -/
theorem inserts_insertAfterFirstElement (h : p.Labelled) (hc : p.node? c = some n) (f : Forest) :
    p.Inserts (p.insertAfterFirstElement c f) c (p.freshTrees f) where
  labelled := (follows_insertAfterFirstElement h c f).labelled
  position := by
    obtain ⟨before, after, hcut, hput⟩ :=
      Forest.exists_cutAfterFirstElement (p.freshTrees f) n.below
    refine ⟨n, before, after, hc, hcut, ?_⟩
    rw [← hput]
    exact Forest.find?_updateBelow hc
  fresh := fresh_freshTrees p f
  labels := Forest.preorder_graft_of_find? (graft_freshTrees p f) h.nodup hc
  entries := Forest.entries_graft (graft_freshTrees p f) h.lt_next (fresh_freshTrees p f)
  children := fun l hl => (h.children_insertAfterFirstElement f hl).2
  parents := fun l hl => h.parentLabel?_insertAfterFirstElement c f hl

end Pages

end BindingDocs.Page
