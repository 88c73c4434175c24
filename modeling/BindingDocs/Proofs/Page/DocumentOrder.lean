import BindingDocs.Proofs.Page.Consistency

/-!
# Document order

What stands below a node is listed in document order: each child with everything below it, then the
next child.  The list can be made without recursion.  One keeps the labels still to visit, the next
one last, takes that one off and puts its children in its place, the first child last.  When the
labels of some trees have come up in this way, everything in these trees has been visited, and the
labels that were waiting are waiting still.  This is the invariant of the loop; it also says that
the loop comes to an end.

From below, the same order is met by walking upwards: a node is listed exactly if such a walk leads
from it to the node that the list belongs to.

## Main definitions

* `Page.Walk`, `Page.Walk.step?` — a walk under way, and one step of it.
* `Page.Walk.Leads`, `Page.Walk.Ends` — any number of steps, and a walk to its end.

## Main results

* `Page.Walk.leads_forest` — **what becomes of the labels of some trees.**
* `Node.descendants_eq_flatMap` — the list in terms of the lists of the children.
* `Page.descendants_in_order` — **the nodes below a node**, in whichever of the three ways they are
  found.
-/

namespace BindingDocs.Page

open Page (Forest Item Node)

/-- A walk under way. -/
structure Walk where
  /-- The labels still to visit, the next one last. -/
  pending : List Nat
  /-- The labels visited so far. -/
  visited : List Nat
deriving DecidableEq, Repr

namespace Walk

/-- The walk through what stands below a label, before its first step. -/
def below (p : Page) (l : Nat) : Walk := ⟨(p.children l).reverse, []⟩

/-- One step: the next label is visited, and its children are still to visit; nothing if no label
is left. -/
def step? (p : Page) (w : Walk) : Option Walk :=
  w.pending.getLast?.map fun l =>
    ⟨w.pending.dropLast ++ (p.children l).reverse, w.visited ++ [l]⟩

/-- Any number of steps. -/
def Leads (p : Page) (v w : Walk) : Prop :=
  Relation.ReflTransGen (fun v w => step? p v = some w) v w

/-- The walk comes to an end, and then these are the labels visited. -/
def Ends (p : Page) (w : Walk) (labels : List Nat) : Prop := w.Leads p ⟨[], labels⟩

variable {p : Page} {f : Forest} {w : Walk} {labels : List Nat} {l : Nat}

theorem step?_concat (p : Page) (base visited : List Nat) (l : Nat) :
    step? p ⟨base ++ [l], visited⟩ =
      some ⟨base ++ (p.children l).reverse, visited ++ [l]⟩ := by
  rw [step?, List.getLast?_concat, List.dropLast_concat, Option.map_some]

/-- No step is left at the end. -/
theorem step?_nil (p : Page) (visited : List Nat) : step? p ⟨[], visited⟩ = none := rfl

/-- A walk ends in one way. -/
theorem Ends.unique {labels' : List Nat} (h : w.Ends p labels) (h' : w.Ends p labels') :
    labels = labels' := by
  induction h using Relation.ReflTransGen.head_induction_on with
  | refl =>
    rcases Relation.ReflTransGen.cases_head h' with heq | ⟨v, hstep, -⟩
    · exact congrArg visited heq
    · rw [step?_nil] at hstep
      cases hstep
  | head hstep _ ih =>
    rcases Relation.ReflTransGen.cases_head h' with rfl | ⟨v, hstep', hrest⟩
    · rw [step?_nil] at hstep
      cases hstep
    · rw [hstep] at hstep'
      cases hstep'
      exact ih hrest

/-- **What becomes of the labels of some trees**: everything in the trees is visited in document
order, whatever labels wait behind them. -/
theorem leads_forest (hp : p.Labelled) (hf : f.nodes ⊆ p.forest.nodes) (base visited : List Nat) :
    Leads p ⟨base ++ f.rootLabels.reverse, visited⟩ ⟨base, visited ++ f.preorder⟩ := by
  induction f generalizing base visited with
  | nil =>
    simp only [Forest.rootLabels, Forest.preorder, List.reverse_nil, List.append_nil]
    exact Relation.ReflTransGen.refl
  | cons l i below next ihb ihn =>
    rw [Forest.nodes, List.cons_subset, List.append_subset] at hf
    obtain ⟨hl, hbelow, hnext⟩ := hf
    have hchildren : p.children l = below.rootLabels := by
      rw [children, hp.node?_label hl]
      rfl
    -- the root of the first tree is next; then its children are, and then the other trees
    have hfirst : Leads p ⟨base ++ next.rootLabels.reverse ++ [l], visited⟩
        ⟨base ++ next.rootLabels.reverse ++ below.rootLabels.reverse, visited ++ [l]⟩ :=
      Relation.ReflTransGen.single (hchildren ▸ step?_concat p _ visited l)
    have hsecond := ihb hbelow (base ++ next.rootLabels.reverse) (visited ++ [l])
    have hthird := ihn hnext base (visited ++ [l] ++ below.preorder)
    have hall : Leads p _ _ := (hfirst.trans hsecond).trans hthird
    rw [Forest.rootLabels, Forest.preorder, List.reverse_cons, ← List.append_assoc]
    simpa only [List.append_assoc, List.cons_append, List.nil_append] using hall

/-- The walk through what stands below a node. -/
theorem ends_below (hp : p.Labelled) {n : Node} (hn : n ∈ p.forest.nodes) :
    (below p n.label).Ends p n.below.preorder := by
  have hleads := leads_forest hp (Forest.nodes_below_sublist hn).subset [] []
  rw [below, children, hp.node?_label hn]
  exact hleads

end Walk

/-! ### The list of what stands below a node -/

theorem Forest.nodes_eq_flatMap (f : Forest) :
    f.nodes = f.roots.flatMap fun c => c :: c.below.nodes := by
  induction f with
  | nil => rfl
  | cons l i below next _ ih =>
    rw [nodes, roots, List.flatMap_cons, ih, List.cons_append]

theorem Node.descendants_eq (n : Node) : n.descendants = n.below.nodes :=
  Forest.walk_eq_nodes n.below

/-- Each child is followed by what stands below it. -/
theorem Node.descendants_eq_flatMap (n : Node) :
    n.descendants = n.below.roots.flatMap fun c => c :: c.descendants := by
  simp only [descendants_eq]
  exact n.below.nodes_eq_flatMap

theorem Labelled.mem_descendants_iff {p : Page} (h : p.Labelled) {r n : Node}
    (hr : r ∈ p.forest.nodes) (hn : n ∈ p.forest.nodes) :
    n ∈ r.descendants ↔ n.label ∈ r.below.preorder := by
  rw [Node.descendants_eq]
  constructor
  · exact Forest.label_mem_preorder
  · intro hl
    obtain ⟨m, hm, hlabel⟩ := Forest.exists_node_of_mem_preorder hl
    have hmem := (Forest.nodes_below_sublist hr).subset hm
    rwa [← Forest.eq_of_label_eq h.nodup hmem hn hlabel]

/-- The text of a node is made of the texts in it, in document order. -/
theorem Node.textContent_eq_join (n : Node) :
    n.textContent = String.join (n.toForest.nodes.filterMap (·.item.text?)) := by
  rw [textContent, descendants_eq, toForest, Forest.nodes, Forest.nodes, List.append_nil]

/-- **The nodes below a node.**  The loop over the labels that are still to visit comes to an end,
and then it has visited what is listed, which is each child followed by what stands below it.
Nothing is listed twice, a node is listed exactly if walking upwards from it leads to the node, and
the text of the node is made of the texts in this order. -/
theorem descendants_in_order {p : Page} (h : p.Consistent) {r : Node} (hr : r ∈ p.forest.nodes) :
    (∀ labels, (Walk.below p r.label).Ends p labels ↔ labels = r.descendants.map (·.label)) ∧
    r.descendants = r.below.nodes ∧
    r.descendants = (r.below.roots.flatMap fun c => c :: c.descendants) ∧
    (r.descendants.map (·.label)).Nodup ∧
    (∀ n ∈ p.forest.nodes, p.isDescendant n.label r.label = true ↔ n ∈ r.descendants) ∧
    r.textContent = String.join (r.toForest.nodes.filterMap (·.item.text?)) := by
  have hlabels : r.descendants.map (·.label) = r.below.preorder := by
    rw [Node.descendants_eq]
    exact r.below.map_label_nodes
  refine ⟨?_, r.descendants_eq, r.descendants_eq_flatMap, ?_, fun n hn => ?_,
    r.textContent_eq_join⟩
  · intro labels
    have hends := Walk.ends_below h.toLabelled hr
    rw [hlabels]
    exact ⟨fun hlabels' => hlabels'.unique hends, fun heq => heq ▸ hends⟩
  · rw [hlabels]
    exact h.nodup.sublist (Forest.preorder_below_sublist hr)
  · rw [h.mem_descendants_iff hr hn, h.isDescendant_iff, h.node?_label hr]
    simp

/-- A list whose first entry holds a text and an element with another. -/
def listPage : Page := Page.empty.append root
  (.ofElement "ul" [] (.ofElement "li" [] (.ofText "a" ++ .ofElement "b" [] (.ofText "b")) ++
    .ofElement "li" [] (.ofText "c")))

/-- The list. -/
def pageList : Node := (listPage.node? 1).getD default

theorem descendants_in_order_pageList :
    listPage.Consistent ∧ pageList ∈ listPage.forest.nodes ∧
    (Walk.below listPage pageList.label).Ends listPage [2, 3, 4, 5, 6, 7] ∧
    listPage.isDescendant 5 pageList.label = true := by
  have hempty : Page.empty.Labelled := ⟨by decide, by decide, _, _, rfl⟩
  have hpage : listPage.Consistent := (follows_append hempty root _).labelled.consistent
  have hlist : pageList ∈ listPage.forest.nodes := by decide
  obtain ⟨hends, -, -, -, hwalk, -⟩ := descendants_in_order hpage hlist
  have hinner : (listPage.node? 5).getD default ∈ listPage.forest.nodes := by decide
  exact ⟨hpage, hlist, (hends _).mpr (by decide), (hwalk _ hinner).mpr (by decide)⟩

end BindingDocs.Page
