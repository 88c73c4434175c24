import BindingDocs.Page.Forest
import Mathlib.Data.List.Nodup

/-!
# Labels in a forest

Where no label is given twice, a label names a node, and the two ways of looking around in a forest
agree: a node is found above another exactly if it lists it among its children.

## Main definitions

* `Forest.Lists` — one label is listed among the children of another.

## Main results

* `Forest.walk_eq_nodes` — the nodes in document order, whichever way they are visited.
* `Forest.find?_eq_some_iff` — a label names one node.
* `Forest.parent?_eq_some_iff` — **the label above another is the one that lists it.**
* `Forest.preorder_without`, `Forest.preorder_updateBelow` — the labels after a change.
-/

namespace BindingDocs.Page.Forest

open scoped List

variable {f g : Forest} {a c l m : Nat} {i : Item} {below next : Forest} {n : Node}

/-! ### Forests one after the other -/

@[simp] theorem nil_append (g : Forest) : nil ++ g = g := rfl

@[simp] theorem cons_append (l : Nat) (i : Item) (below next g : Forest) :
    cons l i below next ++ g = cons l i below (next ++ g) := rfl

@[simp] theorem append_nil (f : Forest) : f ++ nil = f := by
  induction f with
  | nil => rfl
  | cons l i below next _ ih => rw [cons_append, ih]

theorem append_assoc (f g h : Forest) : f ++ g ++ h = f ++ (g ++ h) := by
  induction f with
  | nil => rfl
  | cons l i below next _ ih => rw [cons_append, cons_append, cons_append, ih]

@[simp] theorem size_append (f g : Forest) : (f ++ g).size = f.size + g.size := by
  induction f with
  | nil => simp [size]
  | cons l i below next _ ih =>
    rw [cons_append, size, size, ih]
    omega

@[simp] theorem preorder_append (f g : Forest) : (f ++ g).preorder = f.preorder ++ g.preorder := by
  induction f with
  | nil => rfl
  | cons l i below next _ ih => simp [preorder, ih]

@[simp] theorem nodes_append (f g : Forest) : (f ++ g).nodes = f.nodes ++ g.nodes := by
  induction f with
  | nil => rfl
  | cons l i below next _ ih => simp [nodes, ih]

@[simp] theorem rootLabels_append (f g : Forest) :
    (f ++ g).rootLabels = f.rootLabels ++ g.rootLabels := by
  induction f with
  | nil => rfl
  | cons l i below next _ ih => simp [rootLabels, ih]

/-! ### Nodes and labels -/

@[simp] theorem map_label_nodes (f : Forest) : f.nodes.map Node.label = f.preorder := by
  induction f with
  | nil => rfl
  | cons l i below next ihb ihn => simp [nodes, preorder, ihb, ihn]

@[simp] theorem map_label_roots (f : Forest) : f.roots.map Node.label = f.rootLabels := by
  induction f with
  | nil => rfl
  | cons l i below next _ ih => simp [roots, rootLabels, ih]

theorem label_mem_preorder (h : n ∈ f.nodes) : n.label ∈ f.preorder := by
  rw [← map_label_nodes]
  exact List.mem_map_of_mem h

theorem exists_node_of_mem_preorder (h : l ∈ f.preorder) : ∃ n ∈ f.nodes, n.label = l := by
  rwa [← map_label_nodes, List.mem_map] at h

/-- The nodes in document order are the same whether they are visited with a forest of nodes still
to visit or by recursion on the forest. -/
theorem walkFuel_eq_nodes {fuel : Nat} (h : f.size ≤ fuel) : walkFuel fuel f = f.nodes := by
  induction fuel generalizing f with
  | zero =>
    cases f with
    | nil => rfl
    | cons l i below next => simp [size] at h
  | succ fuel ih =>
    cases f with
    | nil => rfl
    | cons l i below next =>
      have hrest : (below ++ next).size ≤ fuel := by
        rw [size] at h
        rw [size_append]
        omega
      rw [walkFuel, ih hrest, nodes_append, nodes]

@[simp] theorem walk_eq_nodes (f : Forest) : f.walk = f.nodes := walkFuel_eq_nodes (Nat.le_refl _)

theorem roots_subset_nodes : f.roots ⊆ f.nodes := by
  induction f with
  | nil => simp [roots]
  | cons l i below next _ ih =>
    intro n hn
    rw [roots, List.mem_cons] at hn
    rcases hn with rfl | hn
    · simp [nodes]
    · simp [nodes, ih hn]

theorem rootLabels_sublist (f : Forest) : f.rootLabels.Sublist f.preorder := by
  induction f with
  | nil => exact List.Sublist.refl _
  | cons l i below next _ ih => exact (ih.trans (List.sublist_append_right _ _)).cons_cons l

/-- What stands below a node stands in the forest. -/
theorem nodes_below_sublist (h : n ∈ f.nodes) : n.below.nodes.Sublist f.nodes := by
  induction f with
  | nil => simp [nodes] at h
  | cons l i below next ihb ihn =>
    rw [nodes, List.mem_cons, List.mem_append] at h
    refine List.Sublist.cons _ ?_
    rcases h with rfl | h | h
    · exact List.sublist_append_left _ _
    · exact (ihb h).trans (List.sublist_append_left _ _)
    · exact (ihn h).trans (List.sublist_append_right _ _)

theorem mem_nodes_toForest_iff {m : Node} : m ∈ n.toForest.nodes ↔ m = n ∨ m ∈ n.below.nodes := by
  rw [Node.toForest, nodes, nodes, List.append_nil, List.mem_cons]

theorem nodes_toForest_subset (h : n ∈ f.nodes) : n.toForest.nodes ⊆ f.nodes := by
  intro m hm
  rcases mem_nodes_toForest_iff.mp hm with rfl | hm
  · exact h
  · exact (nodes_below_sublist h).subset hm

theorem preorder_below_sublist (h : n ∈ f.nodes) : n.below.preorder.Sublist f.preorder := by
  rw [← map_label_nodes, ← map_label_nodes]
  exact (nodes_below_sublist h).map _

theorem size_below_lt (h : n ∈ f.nodes) : n.below.size < f.size := by
  induction f with
  | nil => simp [nodes] at h
  | cons l i below next ihb ihn =>
    rw [nodes, List.mem_cons, List.mem_append] at h
    rw [size]
    rcases h with rfl | h | h
    · simp only
      omega
    · have := ihb h
      omega
    · have := ihn h
      omega

/-- The texts among the roots. -/
def texts (f : Forest) : List String := f.roots.filterMap (·.item.text?)

theorem texts_cons (l : Nat) (i : Item) (below next : Forest) :
    (cons l i below next).texts = i.text?.toList ++ next.texts := by
  rw [texts, roots, List.filterMap_cons]
  cases i.text? <;> rfl

/-! ### Finding a label -/

theorem find?_append (l : Nat) (f g : Forest) :
    (f ++ g).find? l = (f.find? l <|> g.find? l) := by
  induction f with
  | nil => rfl
  | cons m i below next _ ih =>
    rw [cons_append, find?, find?, ih]
    split
    · rfl
    · cases below.find? l <;> rfl

theorem mem_nodes_of_find? (h : f.find? l = some n) : n ∈ f.nodes ∧ n.label = l := by
  induction f with
  | nil => simp [find?] at h
  | cons m i below next ihb ihn =>
    rw [find?] at h
    split at h
    · next hm =>
      cases h
      exact ⟨List.mem_cons_self, hm⟩
    · rw [Option.orElse_eq_orElse, Option.orElse_eq_or, Option.or_eq_some_iff] at h
      rcases h with h | ⟨-, h⟩
      · exact ⟨by simp [nodes, (ihb h).1], (ihb h).2⟩
      · exact ⟨by simp [nodes, (ihn h).1], (ihn h).2⟩

theorem find?_eq_none_iff : f.find? l = none ↔ l ∉ f.preorder := by
  induction f with
  | nil => simp [find?, preorder]
  | cons m i below next ihb ihn =>
    rw [find?, preorder, List.mem_cons, List.mem_append, not_or, not_or]
    by_cases hm : m = l
    · simp [hm]
    · simp [hm, Ne.symm hm, ihb, ihn]

theorem eq_of_label_eq (h : f.preorder.Nodup) {n n' : Node} (hn : n ∈ f.nodes)
    (hn' : n' ∈ f.nodes) (hl : n.label = n'.label) : n = n' := by
  rw [← map_label_nodes] at h
  exact List.inj_on_of_nodup_map h hn hn' hl

/-- No node stands below itself. -/
theorem label_notMem_below (h : f.preorder.Nodup) (hn : n ∈ f.nodes) :
    n.label ∉ n.below.preorder := by
  intro hbelow
  obtain ⟨m, hm, hlabel⟩ := exists_node_of_mem_preorder hbelow
  have hsize := size_below_lt hm
  rw [eq_of_label_eq h ((nodes_below_sublist hn).subset hm) hn hlabel] at hsize
  exact Nat.lt_irrefl _ hsize

/-- **Where no label is given twice, a label names one node.** -/
theorem find?_eq_some_iff (h : f.preorder.Nodup) :
    f.find? l = some n ↔ n ∈ f.nodes ∧ n.label = l := by
  constructor
  · exact mem_nodes_of_find?
  · rintro ⟨hn, rfl⟩
    cases hfind : f.find? n.label with
    | none => exact absurd (label_mem_preorder hn) (find?_eq_none_iff.mp hfind)
    | some n' =>
      obtain ⟨hn', hl⟩ := mem_nodes_of_find? hfind
      rw [eq_of_label_eq h hn' hn hl]

/-! ### Children and what is above them -/

/-- The label `c` is listed among the children of `a`. -/
def Lists (f : Forest) (a c : Nat) : Prop := ∃ n ∈ f.nodes, n.label = a ∧ c ∈ n.below.rootLabels

@[simp] theorem not_lists_nil : ¬ nil.Lists a c := by simp [Lists, nodes]

theorem lists_cons : (cons m i below next).Lists a c ↔
    m = a ∧ c ∈ below.rootLabels ∨ below.Lists a c ∨ next.Lists a c := by
  simp only [Lists, nodes, List.mem_cons, List.mem_append, or_and_right, exists_or, exists_eq_left]

theorem lists_append : (f ++ g).Lists a c ↔ f.Lists a c ∨ g.Lists a c := by
  simp only [Lists, nodes_append, List.mem_append, or_and_right, exists_or]

theorem Lists.mem_preorder (h : f.Lists a c) : c ∈ f.preorder := by
  obtain ⟨n, hn, -, hc⟩ := h
  exact (preorder_below_sublist hn).subset ((rootLabels_sublist _).subset hc)

theorem Lists.mem_preorder_left (h : f.Lists a c) : a ∈ f.preorder := by
  obtain ⟨n, hn, rfl, -⟩ := h
  exact label_mem_preorder hn

/-- Every label is that of a root or listed somewhere. -/
theorem mem_preorder_iff : c ∈ f.preorder ↔ c ∈ f.rootLabels ∨ ∃ a, f.Lists a c := by
  constructor
  · intro h
    induction f with
    | nil => simp [preorder] at h
    | cons m i below next ihb ihn =>
      rw [preorder, List.mem_cons, List.mem_append] at h
      rcases h with rfl | h | h
      · simp [rootLabels]
      · rcases ihb h with h | ⟨a, h⟩
        · exact .inr ⟨m, lists_cons.mpr (.inl ⟨rfl, h⟩)⟩
        · exact .inr ⟨a, lists_cons.mpr (.inr (.inl h))⟩
      · rcases ihn h with h | ⟨a, h⟩
        · exact .inl (by simp [rootLabels, h])
        · exact .inr ⟨a, lists_cons.mpr (.inr (.inr h))⟩
  · rintro (h | ⟨a, h⟩)
    · exact (rootLabels_sublist f).subset h
    · exact h.mem_preorder

/-- **The label above another is the one that lists it.** -/
theorem parent?_eq_some_iff (h : f.preorder.Nodup) {a : Nat} {up : Option Nat} :
    f.parent? c up = some a ↔ c ∈ f.rootLabels ∧ up = some a ∨ f.Lists a c := by
  induction f generalizing a up with
  | nil => simp [parent?, rootLabels]
  | cons m i below next ihb ihn =>
    rw [preorder, List.nodup_cons, List.mem_append, not_or] at h
    obtain ⟨⟨hmb, hmn⟩, hnodup⟩ := h
    obtain ⟨hb, hn, hdisjoint⟩ := List.nodup_append.mp hnodup
    rw [parent?, rootLabels, List.mem_cons, lists_cons]
    by_cases hm : m = c
    · -- the label is that of the first root and stands nowhere else
      subst hm
      have hroots : m ∉ below.rootLabels := fun h => hmb ((rootLabels_sublist _).subset h)
      have hbelow : ¬ below.Lists a m := fun h => hmb h.mem_preorder
      have hnext : ¬ next.Lists a m := fun h => hmn h.mem_preorder
      simp [hroots, hbelow, hnext]
    · have hnone (hc : c ∈ next.preorder) : below.parent? c (some m) = none := by
        rw [Option.eq_none_iff_forall_ne_some]
        intro b hpb
        have hcb : c ∈ below.preorder := by
          rcases (ihb hb).mp hpb with ⟨h, -⟩ | h
          · exact (rootLabels_sublist _).subset h
          · exact h.mem_preorder
        exact hdisjoint c hcb c hc rfl
      rw [if_neg hm, Option.orElse_eq_orElse, Option.orElse_eq_or, Option.or_eq_some_iff, ihb hb,
        ihn hn]
      constructor
      · rintro ((⟨hc, hma⟩ | h) | ⟨-, ⟨hc, hup⟩ | h⟩)
        · exact .inr (.inl ⟨Option.some.inj hma, hc⟩)
        · exact .inr (.inr (.inl h))
        · exact .inl ⟨.inr hc, hup⟩
        · exact .inr (.inr (.inr h))
      · rintro (⟨hc | hc, hup⟩ | ⟨rfl, hc⟩ | h | h)
        · exact absurd hc.symm hm
        · exact .inr ⟨hnone ((rootLabels_sublist _).subset hc), .inl ⟨hc, hup⟩⟩
        · exact .inl (.inl ⟨hc, rfl⟩)
        · exact .inl (.inr h)
        · exact .inr ⟨hnone h.mem_preorder, .inr h⟩

/-- A label is listed at one place. -/
theorem Lists.unique (h : f.preorder.Nodup) {b : Nat} (ha : f.Lists a c) (hb : f.Lists b c) :
    a = b := by
  have hparent {x : Nat} (hx : f.Lists x c) : f.parent? c none = some x :=
    (parent?_eq_some_iff h).mpr (.inr hx)
  exact Option.some.inj ((hparent ha).symm.trans (hparent hb))

theorem lists_of_mem_nodes (hn : n ∈ f.nodes) (h : n.below.Lists a c) : f.Lists a c := by
  obtain ⟨m, hm, hlabel, hc⟩ := h
  exact ⟨m, (nodes_below_sublist hn).subset hm, hlabel, hc⟩

/-! ### Taking a tree out -/

theorem without_eq_self (h : l ∉ f.preorder) : f.without l = f := by
  induction f with
  | nil => rfl
  | cons m i below next ihb ihn =>
    rw [preorder, List.mem_cons, List.mem_append, not_or, not_or] at h
    rw [without, if_neg (Ne.symm h.1), ihb h.2.1, ihn h.2.2]

@[simp] theorem rootLabels_without (l : Nat) (f : Forest) :
    (f.without l).rootLabels = f.rootLabels.filter (· ≠ l) := by
  induction f with
  | nil => rfl
  | cons m i below next _ ih =>
    rw [without, rootLabels]
    by_cases hm : m = l
    · simp [hm, ih]
    · simp [hm, rootLabels, ih]

theorem lists_without (h : (f.without l).Lists a c) : f.Lists a c ∧ c ≠ l := by
  induction f with
  | nil => simp [without] at h
  | cons m i below next ihb ihn =>
    rw [without] at h
    split at h
    · exact ⟨lists_cons.mpr (.inr (.inr (ihn h).1)), (ihn h).2⟩
    · rw [lists_cons, rootLabels_without, List.mem_filter] at h
      rcases h with ⟨hma, hc, hne⟩ | h | h
      · exact ⟨lists_cons.mpr (.inl ⟨hma, hc⟩), by simpa using hne⟩
      · exact ⟨lists_cons.mpr (.inr (.inl (ihb h).1)), (ihb h).2⟩
      · exact ⟨lists_cons.mpr (.inr (.inr (ihn h).1)), (ihn h).2⟩

/-- A node that is left was there before, and what is taken out is taken out below it. -/
theorem mem_nodes_without (h : n ∈ (f.without l).nodes) :
    ∃ m ∈ f.nodes, n = { m with below := m.below.without l } := by
  induction f with
  | nil => simp [without, nodes] at h
  | cons k i below next ihb ihn =>
    have hnext (h : n ∈ (next.without l).nodes) :
        ∃ m ∈ (cons k i below next).nodes, n = { m with below := m.below.without l } := by
      obtain ⟨m, hm, hsame⟩ := ihn h
      exact ⟨m, by simp [nodes, hm], hsame⟩
    rw [without] at h
    split at h
    · exact hnext h
    · rw [nodes, List.mem_cons, List.mem_append] at h
      rcases h with rfl | h | h
      · exact ⟨⟨k, i, below⟩, List.mem_cons_self, rfl⟩
      · obtain ⟨m, hm, hsame⟩ := ihb h
        exact ⟨m, by simp [nodes, hm], hsame⟩
      · exact hnext h

theorem texts_without (h : ∀ n ∈ f.nodes, n.label = l → n.item.text? = none) :
    (f.without l).texts = f.texts := by
  induction f with
  | nil => rfl
  | cons m i below next _ ihn =>
    rw [without, texts_cons, ← ihn fun n hn => h n (by simp [nodes, hn])]
    split
    · next hm =>
      have htext : i.text? = none := h ⟨m, i, below⟩ List.mem_cons_self hm
      rw [htext, Option.toList_none, List.nil_append]
    · exact texts_cons _ _ _ _

/-- The labels of a forest are those that are left when a tree is taken out, and those of the
tree. -/
theorem preorder_without (h : f.preorder.Nodup) (hn : f.find? l = some n) :
    f.preorder.Perm ((f.without l).preorder ++ n.toForest.preorder) := by
  induction f with
  | nil => simp [find?] at hn
  | cons m i below next ihb ihn =>
    rw [preorder, List.nodup_cons, List.mem_append, not_or] at h
    obtain ⟨⟨hmb, hmn⟩, hnodup⟩ := h
    obtain ⟨hb, hnx, hdisjoint⟩ := List.nodup_append.mp hnodup
    rw [find?] at hn
    rw [without, preorder]
    split at hn
    · next hm =>
      -- the first tree is the one that is taken out
      subst hm
      cases hn
      rw [if_pos rfl, without_eq_self hmn]
      have hperm : m :: below.preorder ++ next.preorder ~ next.preorder ++ m :: below.preorder :=
        List.perm_append_comm
      simpa [Node.toForest, preorder] using hperm
    · next hm =>
      rw [if_neg hm, preorder, List.cons_append]
      refine List.Perm.cons m ?_
      rw [Option.orElse_eq_orElse, Option.orElse_eq_or, Option.or_eq_some_iff] at hn
      rcases hn with hn | ⟨-, hn⟩
      · have hl : l ∈ below.preorder := (mem_nodes_of_find? hn).2 ▸
          label_mem_preorder (mem_nodes_of_find? hn).1
        rw [without_eq_self fun hc => hdisjoint l hl l hc rfl, List.append_assoc]
        calc below.preorder ++ next.preorder
            _ ~ ((below.without l).preorder ++ n.toForest.preorder) ++ next.preorder :=
              (ihb hb hn).append_right _
            _ ~ (below.without l).preorder ++ (next.preorder ++ n.toForest.preorder) := by
              rw [List.append_assoc]
              exact List.perm_append_comm.append_left _
      · have hl : l ∈ next.preorder := (mem_nodes_of_find? hn).2 ▸
          label_mem_preorder (mem_nodes_of_find? hn).1
        rw [without_eq_self fun hc => hdisjoint l hc l hl rfl, List.append_assoc]
        exact (ihn hnx hn).append_left _

/-! ### Changing the children of a node -/

theorem updateBelow_eq_self {u : Forest → Forest} (h : l ∉ f.preorder) : f.updateBelow l u = f := by
  induction f with
  | nil => rfl
  | cons m i below next ihb ihn =>
    rw [preorder, List.mem_cons, List.mem_append, not_or, not_or] at h
    rw [updateBelow, if_neg (Ne.symm h.1), ihb h.2.1, ihn h.2.2]

@[simp] theorem rootLabels_updateBelow (l : Nat) (u : Forest → Forest) (f : Forest) :
    (f.updateBelow l u).rootLabels = f.rootLabels := by
  induction f with
  | nil => rfl
  | cons m i below next _ ih =>
    rw [updateBelow]
    split
    · rfl
    · rw [rootLabels, rootLabels, ih]

theorem find?_updateBelow {u : Forest → Forest} (h : f.find? l = some n) :
    (f.updateBelow l u).find? l = some { n with below := u n.below } := by
  induction f with
  | nil => simp [find?] at h
  | cons m i below next ihb ihn =>
    rw [find?] at h
    rw [updateBelow]
    split at h
    · next hm =>
      cases h
      simp [find?, hm]
    · next hm =>
      rw [if_neg hm, find?, if_neg hm]
      rw [Option.orElse_eq_orElse, Option.orElse_eq_or, Option.or_eq_some_iff] at h ⊢
      rcases h with h | ⟨hnone, h⟩
      · exact .inl (ihb h)
      · refine .inr ⟨?_, ihn h⟩
        rw [updateBelow_eq_self (find?_eq_none_iff.mp hnone), hnone]

/-- What is listed after a change at `l` was listed before, or it is among what was put there. -/
theorem lists_updateBelow {u : Forest → Forest} (h : (f.updateBelow l u).Lists a c) :
    f.Lists a c ∨ ∃ n ∈ f.nodes, n.label = l ∧
      (a = l ∧ c ∈ (u n.below).rootLabels ∨ (u n.below).Lists a c) := by
  induction f with
  | nil => exact .inl h
  | cons m i below next ihb ihn =>
    rw [updateBelow] at h
    split at h
    · next hm =>
      rw [lists_cons] at h
      rcases h with ⟨rfl, hc⟩ | h | h
      · exact .inr ⟨⟨m, i, below⟩, List.mem_cons_self, hm, .inl ⟨hm, hc⟩⟩
      · exact .inr ⟨⟨m, i, below⟩, List.mem_cons_self, hm, .inr h⟩
      · exact .inl (lists_cons.mpr (.inr (.inr h)))
    · rw [lists_cons, rootLabels_updateBelow] at h
      rcases h with h | h | h
      · exact .inl (lists_cons.mpr (.inl h))
      · rcases ihb h with h | ⟨n, hn, h⟩
        · exact .inl (lists_cons.mpr (.inr (.inl h)))
        · exact .inr ⟨n, by simp [nodes, hn], h⟩
      · rcases ihn h with h | ⟨n, hn, h⟩
        · exact .inl (lists_cons.mpr (.inr (.inr h)))
        · exact .inr ⟨n, by simp [nodes, hn], h⟩

theorem texts_updateBelow (l : Nat) (u : Forest → Forest) (f : Forest) :
    (f.updateBelow l u).texts = f.texts := by
  induction f with
  | nil => rfl
  | cons m i below next _ ih =>
    rw [updateBelow]
    split
    · rw [texts_cons, texts_cons]
    · rw [texts_cons, texts_cons, ih]

/-- A node after a change at `l` was there before, with the same texts in it unless it is the one at
`l`, or it is among what was put there. -/
theorem mem_nodes_updateBelow {u : Forest → Forest} (h : n ∈ (f.updateBelow l u).nodes) :
    (∃ m ∈ f.nodes, m.label = n.label ∧ m.item = n.item ∧
      (m.label ≠ l → m.below.texts = n.below.texts)) ∨
      ∃ m ∈ f.nodes, m.label = l ∧ n ∈ (u m.below).nodes := by
  induction f with
  | nil => simp [updateBelow, nodes] at h
  | cons k i below next ihb ihn =>
    rw [updateBelow] at h
    split at h
    · next hk =>
      rw [nodes, List.mem_cons, List.mem_append] at h
      rcases h with rfl | h | h
      · exact .inl ⟨⟨k, i, below⟩, List.mem_cons_self, rfl, rfl, fun hne => absurd hk hne⟩
      · exact .inr ⟨⟨k, i, below⟩, List.mem_cons_self, hk, h⟩
      · exact .inl ⟨n, by simp [nodes, h], rfl, rfl, fun _ => rfl⟩
    · rw [nodes, List.mem_cons, List.mem_append] at h
      rcases h with rfl | h | h
      · exact .inl ⟨⟨k, i, below⟩, List.mem_cons_self, rfl, rfl,
          fun _ => (texts_updateBelow l u below).symm⟩
      · rcases ihb h with ⟨m, hm, hsame⟩ | ⟨m, hm, hput⟩
        · exact .inl ⟨m, by simp [nodes, hm], hsame⟩
        · exact .inr ⟨m, by simp [nodes, hm], hput⟩
      · rcases ihn h with ⟨m, hm, hsame⟩ | ⟨m, hm, hput⟩
        · exact .inl ⟨m, by simp [nodes, hm], hsame⟩
        · exact .inr ⟨m, by simp [nodes, hm], hput⟩

/-- The labels of a forest in which the children of one node were changed. -/
theorem preorder_updateBelow {u : Forest → Forest} (h : f.preorder.Nodup)
    (hn : f.find? l = some n) :
    ((f.updateBelow l u).preorder ++ n.below.preorder).Perm
      (f.preorder ++ (u n.below).preorder) := by
  induction f with
  | nil => simp [find?] at hn
  | cons m i below next ihb ihn =>
    rw [preorder, List.nodup_cons, List.mem_append, not_or] at h
    obtain ⟨-, hnodup⟩ := h
    obtain ⟨hb, hnx, hdisjoint⟩ := List.nodup_append.mp hnodup
    rw [find?] at hn
    rw [updateBelow]
    split at hn
    · next hm =>
      cases hn
      rw [if_pos hm, preorder, preorder, List.cons_append, List.cons_append]
      refine List.Perm.cons m ?_
      calc (u below).preorder ++ next.preorder ++ below.preorder
          _ ~ below.preorder ++ ((u below).preorder ++ next.preorder) := List.perm_append_comm
          _ ~ below.preorder ++ (next.preorder ++ (u below).preorder) :=
            List.perm_append_comm.append_left _
          _ = below.preorder ++ next.preorder ++ (u below).preorder :=
            (List.append_assoc _ _ _).symm
    · next hm =>
      rw [if_neg hm, preorder, preorder, List.cons_append, List.cons_append]
      refine List.Perm.cons m ?_
      rw [Option.orElse_eq_orElse, Option.orElse_eq_or, Option.or_eq_some_iff] at hn
      rcases hn with hn | ⟨-, hn⟩
      · have hl : l ∈ below.preorder := (mem_nodes_of_find? hn).2 ▸
          label_mem_preorder (mem_nodes_of_find? hn).1
        rw [updateBelow_eq_self fun hc => hdisjoint l hl l hc rfl]
        calc (below.updateBelow l u).preorder ++ next.preorder ++ n.below.preorder
            _ ~ (below.updateBelow l u).preorder ++ (n.below.preorder ++ next.preorder) := by
              rw [List.append_assoc]
              exact List.perm_append_comm.append_left _
            _ ~ below.preorder ++ (u n.below).preorder ++ next.preorder := by
              rw [← List.append_assoc]
              exact (ihb hb hn).append_right _
            _ ~ below.preorder ++ next.preorder ++ (u n.below).preorder := by
              rw [List.append_assoc, List.append_assoc]
              exact List.perm_append_comm.append_left _
      · have hl : l ∈ next.preorder := (mem_nodes_of_find? hn).2 ▸
          label_mem_preorder (mem_nodes_of_find? hn).1
        rw [updateBelow_eq_self fun hc => hdisjoint l hc l hl rfl, List.append_assoc,
          List.append_assoc]
        exact (ihn hnx hn).append_left _

/-- Trees that are put after the first element stand between two parts of the forest. -/
theorem exists_insertAfterFirstElement (g f : Forest) : ∃ before after,
    f = before ++ after ∧ insertAfterFirstElement g f = before ++ (g ++ after) := by
  have hgo : ∀ f f' : Forest, insertAfterFirstElement.go g f = some f' → ∃ before after,
      f = before ++ after ∧ f' = before ++ (g ++ after) := by
    intro f
    induction f with
    | nil => simp [insertAfterFirstElement.go]
    | cons l i below next _ ih =>
      intro f' h
      rw [insertAfterFirstElement.go] at h
      split at h
      · cases h
        exact ⟨cons l i below nil, next, rfl, rfl⟩
      · obtain ⟨next', hnext', rfl⟩ := Option.map_eq_some_iff.mp h
        obtain ⟨before, after, rfl, rfl⟩ := ih next' hnext'
        exact ⟨cons l i below before, after, rfl, rfl⟩
  rw [insertAfterFirstElement]
  split
  · next f' h => exact hgo f f' h
  · exact ⟨nil, f, rfl, rfl⟩

section Graft

-- trees `g` are put somewhere among the children of the node at `l`
variable {u : Forest → Forest}
  (hu : ∀ b, ∃ before after, b = before ++ after ∧ u b = before ++ (g ++ after))
include hu

theorem lists_graft (h : (f.updateBelow l u).Lists a c) :
    f.Lists a c ∨ a = l ∧ c ∈ g.rootLabels ∨ g.Lists a c := by
  rcases lists_updateBelow h with h | ⟨m, hm, hlabel, hput⟩
  · exact .inl h
  · obtain ⟨before, after, hbelow, hafter⟩ := hu m.below
    rw [hafter] at hput
    rcases hput with ⟨rfl, hroot⟩ | hinside
    · rw [rootLabels_append, rootLabels_append, List.mem_append, List.mem_append] at hroot
      have hold (hc : c ∈ before.rootLabels ∨ c ∈ after.rootLabels) : f.Lists a c :=
        ⟨m, hm, hlabel, by rwa [hbelow, rootLabels_append, List.mem_append]⟩
      rcases hroot with hroot | hroot | hroot
      · exact .inl (hold (.inl hroot))
      · exact .inr (.inl ⟨rfl, hroot⟩)
      · exact .inl (hold (.inr hroot))
    · rw [lists_append, lists_append] at hinside
      have hold (hc : before.Lists a c ∨ after.Lists a c) : f.Lists a c :=
        lists_of_mem_nodes hm (by rwa [hbelow, lists_append])
      rcases hinside with hinside | hinside | hinside
      · exact .inl (hold (.inl hinside))
      · exact .inr (.inr hinside)
      · exact .inl (hold (.inr hinside))

theorem mem_nodes_graft (h : n ∈ (f.updateBelow l u).nodes) :
    (∃ m ∈ f.nodes, m.label = n.label ∧ m.item = n.item ∧
      (m.label ≠ l → m.below.texts = n.below.texts)) ∨ n ∈ g.nodes := by
  rcases mem_nodes_updateBelow h with h | ⟨m, hm, -, hput⟩
  · exact .inl h
  · obtain ⟨before, after, hbelow, hafter⟩ := hu m.below
    rw [hafter, nodes_append, nodes_append, List.mem_append, List.mem_append] at hput
    have hold (hn : n ∈ before.nodes ∨ n ∈ after.nodes) : n ∈ f.nodes := by
      refine (nodes_below_sublist hm).subset ?_
      rwa [hbelow, nodes_append, List.mem_append]
    rcases hput with hput | hput | hput
    · exact .inl ⟨n, hold (.inl hput), rfl, rfl, fun _ => rfl⟩
    · exact .inr hput
    · exact .inl ⟨n, hold (.inr hput), rfl, rfl, fun _ => rfl⟩

/-- The labels are those of the forest and those of the new trees. -/
theorem preorder_graft_of_find? (h : f.preorder.Nodup) (hn : f.find? l = some n) :
    (f.updateBelow l u).preorder.Perm (f.preorder ++ g.preorder) := by
  obtain ⟨before, after, hbelow, hafter⟩ := hu n.below
  refine (List.perm_append_right_iff n.below.preorder).mp ?_
  have hperm := preorder_updateBelow (u := u) h hn
  rw [hafter, preorder_append, preorder_append] at hperm
  refine hperm.trans ?_
  rw [hbelow, preorder_append, List.append_assoc]
  refine List.Perm.append_left _ ?_
  rw [← List.append_assoc, ← List.append_assoc]
  exact List.perm_append_comm.append_right _

/-- If the node is not there, the labels stay as they are. -/
theorem preorder_graft (h : f.preorder.Nodup) (l : Nat) :
    (f.updateBelow l u).preorder.Perm f.preorder ∨
      (f.updateBelow l u).preorder.Perm (f.preorder ++ g.preorder) := by
  cases hnode : f.find? l with
  | none =>
    rw [updateBelow_eq_self (find?_eq_none_iff.mp hnode)]
    exact .inl (List.Perm.refl _)
  | some n => exact .inr (preorder_graft_of_find? hu h hnode)

end Graft

/-! ### Items and new labels -/

@[simp] theorem preorder_mapItems (u : Item → Item) (f : Forest) :
    (f.mapItems u).preorder = f.preorder := by
  induction f with
  | nil => rfl
  | cons l i below next ihb ihn => rw [mapItems, preorder, preorder, ihb, ihn]

@[simp] theorem rootLabels_mapItems (u : Item → Item) (f : Forest) :
    (f.mapItems u).rootLabels = f.rootLabels := by
  induction f with
  | nil => rfl
  | cons l i below next _ ih => rw [mapItems, rootLabels, rootLabels, ih]

@[simp] theorem lists_mapItems (u : Item → Item) (f : Forest) :
    (f.mapItems u).Lists a c ↔ f.Lists a c := by
  induction f with
  | nil => rfl
  | cons l i below next ihb ihn =>
    rw [mapItems, lists_cons, lists_cons, rootLabels_mapItems, ihb, ihn]

theorem mem_nodes_mapItems {u : Item → Item} (h : n ∈ (f.mapItems u).nodes) :
    ∃ m ∈ f.nodes, m.label = n.label ∧ u m.item = n.item ∧ m.below.mapItems u = n.below := by
  induction f with
  | nil => simp [mapItems, nodes] at h
  | cons k i below next ihb ihn =>
    rw [mapItems, nodes, List.mem_cons, List.mem_append] at h
    rcases h with rfl | h | h
    · exact ⟨⟨k, i, below⟩, List.mem_cons_self, rfl, rfl, rfl⟩
    · obtain ⟨m, hm, hsame⟩ := ihb h
      exact ⟨m, by simp [nodes, hm], hsame⟩
    · obtain ⟨m, hm, hsame⟩ := ihn h
      exact ⟨m, by simp [nodes, hm], hsame⟩

theorem relabel_snd (k : Nat) (f : Forest) : (f.relabel k).2 = k + f.size := by
  induction f generalizing k with
  | nil => rfl
  | cons l i below next ihb ihn =>
    simp only [relabel, size, ihb, ihn]
    omega

theorem texts_relabel (k : Nat) (f : Forest) : (f.relabel k).1.texts = f.texts := by
  induction f generalizing k with
  | nil => rfl
  | cons l i below next _ ih => simp only [relabel, texts_cons, ih]

theorem mem_nodes_relabel {k : Nat} (h : n ∈ (f.relabel k).1.nodes) :
    ∃ m ∈ f.nodes, m.item = n.item ∧ m.below.texts = n.below.texts := by
  induction f generalizing k with
  | nil => simp [relabel, nodes] at h
  | cons l i below next ihb ihn =>
    simp only [relabel, nodes, List.mem_cons, List.mem_append] at h
    rcases h with rfl | h | h
    · exact ⟨⟨l, i, below⟩, List.mem_cons_self, rfl, (texts_relabel _ below).symm⟩
    · obtain ⟨m, hm, hsame⟩ := ihb h
      exact ⟨m, by simp [nodes, hm], hsame⟩
    · obtain ⟨m, hm, hsame⟩ := ihn h
      exact ⟨m, by simp [nodes, hm], hsame⟩

/-- New labels follow one another. -/
theorem preorder_relabel (k : Nat) (f : Forest) :
    (f.relabel k).1.preorder = List.range' k f.size := by
  induction f generalizing k with
  | nil => rfl
  | cons l i below next ihb ihn =>
    simp only [relabel, preorder, size, ihb, ihn, relabel_snd]
    rw [List.range'_append_1, List.range'_succ]

end BindingDocs.Page.Forest
