import BindingDocs.Proofs.Page.MarkerTraces
import BindingDocs.Proofs.Page.Substitution

/-!
# Disclosure links

The first disclosure links of a page are chosen before any of them is taken out.  A link may hold
another one, which then leaves the document with it and is taken out of the link afterwards.  So
what is left can be told from the page as it was: the nodes that are none of the chosen links and
stand in none of them.

## Main definitions

* `Node.entry`, `Forest.entries` — a node without what stands below it, and all nodes of a forest.
* `Node.holds` — whether a label is that of a node or of something below it.
* `Page.moreLinks` — the first disclosure links of a page.

## Main results

* `Page.entries_detachAll` — **what removals leave of a document**, in document order.
* `Page.entries_removeMoreLinks` — **what is left when disclosure links are removed.**
-/

namespace BindingDocs.Page

open Page (Forest Item Node)

open scoped List

/-- A node without what stands below it. -/
def Node.entry (n : Node) : Nat × Item := (n.label, n.item)

/-- Whether a label is that of the node or of something below it. -/
def Node.holds (n : Node) (l : Nat) : Bool := n.toForest.preorder.contains l

theorem Node.holds_iff {n : Node} {l : Nat} :
    n.holds l = true ↔ l = n.label ∨ l ∈ n.below.preorder := by
  rw [holds, List.contains_iff_mem, mem_toForest_iff]

/-! ### What removals leave -/

/-- A part of a list without repetitions is what a test chooses that just its members pass. -/
theorem eq_filter_of_sublist {α : Type} {s t : List α} (h : s <+ t) (ht : t.Nodup) {q : α → Bool}
    (hq : ∀ a ∈ t, q a = true ↔ a ∈ s) : s = t.filter q := by
  have hkept : s.filter q = s :=
    List.filter_eq_self.mpr fun a ha => (hq a (h.subset ha)).mpr ha
  have hsublist : s <+ t.filter q := hkept ▸ h.filter q
  have hperm : s ~ t.filter q := by
    rw [List.perm_ext_iff_of_nodup (ht.sublist h) (ht.filter q)]
    intro a
    rw [List.mem_filter]
    constructor
    · intro ha
      exact ⟨h.subset ha, (hq a (h.subset ha)).mpr ha⟩
    · rintro ⟨ha, hqa⟩
      exact (hq a ha).mp hqa
  exact hsublist.eq_of_length hperm.length_eq

namespace Forest

variable {f g : Forest} {n : Node}

/-- The nodes in document order, each without what stands below it. -/
def entries (f : Forest) : List (Nat × Item) := f.nodes.map Node.entry

@[simp] theorem entries_nil : nil.entries = [] := rfl

@[simp] theorem entries_cons (l : Nat) (i : Item) (below next : Forest) :
    (cons l i below next).entries = (l, i) :: (below.entries ++ next.entries) := by
  rw [entries, nodes, List.map_cons, List.map_append]
  rfl

@[simp] theorem entries_append (f g : Forest) : (f ++ g).entries = f.entries ++ g.entries := by
  rw [entries, nodes_append, List.map_append]
  rfl

theorem map_fst_entries (f : Forest) : f.entries.map Prod.fst = f.preorder := by
  rw [entries, List.map_map, ← map_label_nodes]
  rfl

theorem nodup_entries (h : f.preorder.Nodup) : f.entries.Nodup := by
  rw [← map_fst_entries] at h
  exact h.of_map _

theorem entry_mem_iff (h : f.preorder.Nodup) (hg : g.entries <+ f.entries) (hn : n ∈ f.nodes) :
    n.entry ∈ g.entries ↔ n.label ∈ g.preorder := by
  constructor
  · intro hentry
    rw [← map_fst_entries]
    exact List.mem_map_of_mem (f := Prod.fst) hentry
  · intro hlabel
    obtain ⟨m, hm, heq⟩ := exists_node_of_mem_preorder hlabel
    obtain ⟨k, hk, hkm⟩ := List.mem_map.mp (hg.subset (List.mem_map_of_mem hm))
    -- the node with this label in `f` is `n`
    obtain rfl := eq_of_label_eq h hk hn ((Prod.mk.inj hkm).1.trans heq)
    rw [hkm]
    exact List.mem_map_of_mem hm

/-- When trees are taken out of a forest, the other nodes keep their items and their order. -/
theorem entries_without_sublist (d : Nat) (f : Forest) : (f.without d).entries <+ f.entries := by
  induction f with
  | nil => exact List.Sublist.refl _
  | cons m i below next ihb ihn =>
    rw [without, entries_cons]
    split
    · exact (ihn.trans (List.sublist_append_right _ _)).cons _
    · rw [entries_cons]
      exact (ihb.append ihn).cons_cons _

end Forest

section Removal

variable {p : Page} {ns : List Node}

theorem entries_detachAll_sublist (h : p.Labelled) (hns : ∀ n ∈ ns, n.label ≠ root) :
    (p.detachAll ns).body.entries <+ p.body.entries := by
  induction ns generalizing p with
  | nil => exact List.Sublist.refl _
  | cons n ns ih =>
    obtain ⟨hn, hns⟩ := List.forall_mem_cons.mp hns
    have hrest := ih (follows_detach h n.label).labelled hns
    rw [body_detach h hn] at hrest
    exact hrest.trans (Forest.entries_without_sublist _ _)

theorem within_eq_any (h : p.Labelled) (hns : ∀ n ∈ ns, n ∈ p.forest.nodes) (l : Nat) :
    p.within ns l = ns.any (·.holds l) := by
  rw [within, Bool.eq_iff_iff, List.any_eq_true, List.any_eq_true]
  refine exists_congr fun n => and_congr_right fun hn => ?_
  have hbelow : p.isDescendant l n.label = true ↔ l ∈ n.below.preorder := by
    rw [h.isDescendant_iff, h.node?_label (hns n hn)]
    simp
  rw [Bool.or_eq_true, beq_iff_eq, hbelow, Node.holds_iff]

/-- **What removals leave of a document**: its nodes in the same order, with the same items, without
those at and below the nodes that are taken out.  What is left has the parent it had. -/
theorem entries_detachAll (h : p.Labelled) (hns : ∀ n ∈ ns, n ∈ p.body.nodes) :
    (p.detachAll ns).descendants.map Node.entry =
        (p.descendants.filter fun n => !ns.any (·.holds n.label)).map Node.entry ∧
      ∀ n ∈ (p.detachAll ns).descendants,
        (p.detachAll ns).parentLabel? n.label = p.parentLabel? n.label := by
  have hroot : ∀ n ∈ ns, n.label ≠ root := fun n hn heq =>
    h.root_notMem_body (heq ▸ Forest.label_mem_preorder (hns n hn))
  have hsublist := entries_detachAll_sublist h hroot
  have hfollows := (leads_detachAll ns p).follows h
  rw [descendants_eq, descendants_eq]
  constructor
  · show (p.detachAll ns).body.entries = _
    rw [eq_filter_of_sublist hsublist (Forest.nodup_entries h.nodup_body)
      (q := fun e => !ns.any (·.holds e.1)) ?_, Forest.entries, List.filter_map]
    · rfl
    · rw [Forest.entries, List.forall_mem_map]
      intro n hn
      rw [Forest.entry_mem_iff h.nodup_body hsublist hn, mem_body_detachAll h hroot,
        within_eq_any h fun m hm => h.mem_nodes_of_mem_body (hns m hm)]
      simp [Node.entry, Forest.label_mem_preorder hn]
  · intro n hn
    obtain ⟨m, hm, -⟩ := hfollows.labelled.exists_parent_of_mem_body (Forest.label_mem_preorder hn)
    have hnew : (p.detachAll ns).parentLabel? n.label = some m.label := by
      rw [parentLabel?, hm, Option.map_some]
    have hmem := ((mem_body_detachAll h hroot).mp (Forest.label_mem_preorder hn)).1
    have hold := hfollows.lists (lt_next_of_mem_body h hmem)
      (hfollows.labelled.parentLabel?_eq_some_iff.mp hnew)
    rw [hnew, h.parentLabel?_eq_some_iff.mpr hold]

end Removal

/-! ### Links -/

/-- Whether a node is a disclosure link: a link with just this text directly in it, which may be cut
into several texts. -/
def isMoreLink (n : Node) : Bool := n.isElement "a" && n.ownText == "More..."

/-- The first disclosure links of the document, at most `limit` of them. -/
def moreLinks (p : Page) (limit : Nat) : List Node := (p.descendants.filter isMoreLink).take limit

theorem removeMoreLinks_eq (p : Page) (limit : Nat) :
    p.removeMoreLinks limit = p.detachAll (p.moreLinks limit) := by
  rw [removeMoreLinks, detachAll, elements, Node.elements, List.filter_filter, moreLinks,
    descendants]
  refine congrArg (fun ns => List.foldl _ p (List.take limit ns)) (List.filter_congr fun n _ => ?_)
  rw [isMoreLink, Bool.and_comm]

/-- **What is left when disclosure links are removed.**  The nodes of the document are those that it
had, in the same order and with the same items and parents, without the first `limit` disclosure
links and everything in them, wherever the links stand. -/
theorem entries_removeMoreLinks {p : Page} (h : p.Labelled) (limit : Nat) :
    (p.removeMoreLinks limit).descendants.map Node.entry =
        (p.descendants.filter fun n => !(p.moreLinks limit).any (·.holds n.label)).map Node.entry ∧
      ∀ n ∈ (p.removeMoreLinks limit).descendants,
        (p.removeMoreLinks limit).parentLabel? n.label = p.parentLabel? n.label := by
  rw [removeMoreLinks_eq]
  refine entries_detachAll h fun n hn => ?_
  rw [← descendants_eq]
  exact List.mem_of_mem_filter (List.mem_of_mem_take hn)

/-- A disclosure link, and what stands in it. -/
def moreLink (below : Forest) : Forest := .ofElement "a" [] below

/-- A page with a link in another one, a link in a cell whose text is cut, and a third place with a
link. -/
def nestedLinksPage : Page := Page.empty.append root
  (moreLink (.ofText "More" ++ moreLink (.ofText "More...") ++ .ofText "...") ++
    .ofElement "td" [] (moreLink (.ofText "More" ++ .ofElement "b" [] .nil ++ .ofText "...")) ++
    moreLink (.ofText "More..."))

theorem entries_removeMoreLinks_nestedLinksPage : nestedLinksPage.Labelled ∧
    (nestedLinksPage.moreLinks 3).map Node.label = [1, 3, 7] ∧
    (nestedLinksPage.removeMoreLinks 3).descendants.map Node.entry =
      [(6, .element { name := "td" }), (11, .element { name := "a" }), (12, .text "More...")] := by
  have hempty : Page.empty.Labelled := ⟨by decide, by decide, _, _, rfl⟩
  have hpage : nestedLinksPage.Labelled := (follows_append hempty root _).labelled
  refine ⟨hpage, by decide +kernel, ?_⟩
  rw [(entries_removeMoreLinks hpage 3).1]
  decide +kernel

end BindingDocs.Page
