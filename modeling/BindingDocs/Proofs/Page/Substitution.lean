import BindingDocs.Proofs.Page.Forest
import Mathlib.Logic.Function.Basic

/-!
# Trees put below several nodes

A page is changed at one label after the other.  Where the labels are all different and none of them
stands in a tree that was put there, the order does not matter: the forest after all changes is the
one where the children of all these nodes are replaced at once.

Document order decides which of two nodes can hold the other: of two nodes one after the other, the
second stands below the first, or nothing stands below both.

## Main definitions

* `Forest.replaceBelow` — the forest with the children of some nodes replaced.
* `Node.replaceBelow` — a node in this forest.

## Main results

* `Forest.pairwise_nodes`, `Forest.eq_or_inside` — what document order says about two nodes.
* `Forest.find?_updateBelow_of_ne` — the other nodes after a change at a label.
* `Forest.updateBelow_replaceBelow` — **one more change after the others.**
* `Forest.mem_nodes_replaceBelow` — the nodes after all changes.
* `Node.replaceBelow_update_self`, `Node.replaceBelow_update` — one of them after one more change.
-/

namespace BindingDocs.Page

theorem Node.mem_toForest_iff {n : Node} {l : Nat} :
    l ∈ n.toForest.preorder ↔ l = n.label ∨ l ∈ n.below.preorder := by
  simp [toForest, Forest.preorder]

namespace Forest

variable {f g : Forest} {l s : Nat} {n m : Node}

/-! ### Document order -/

/-- Of two nodes in document order the second stands below the first, or nothing stands below
both. -/
theorem pairwise_nodes (h : f.preorder.Nodup) :
    f.nodes.Pairwise fun a b => b ∈ a.below.nodes ∨ ∀ n ∈ a.below.nodes, n ∉ b.below.nodes := by
  induction f with
  | nil => exact List.Pairwise.nil
  | cons l i below next ihb ihn =>
    rw [preorder, List.nodup_cons] at h
    obtain ⟨hb, hn, hdisjoint⟩ := List.nodup_append.mp h.2
    -- no node stands in both forests, so nothing is below a node of each
    have hapart : ∀ n ∈ below.nodes, n ∉ next.nodes := by
      intro n hbelow hnext
      exact hdisjoint _ (label_mem_preorder hbelow) _ (label_mem_preorder hnext) rfl
    rw [nodes, List.pairwise_cons, List.pairwise_append]
    refine ⟨?_, ihb hb, ihn hn, ?_⟩
    · intro b hmem
      rcases List.mem_append.mp hmem with hbelow | hnext
      · exact Or.inl hbelow
      · refine Or.inr fun n hn hnb => hapart n hn ?_
        exact (nodes_below_sublist hnext).subset hnb
    · intro a ha b hb
      refine Or.inr fun n hna hnb => hapart n ?_ ?_
      · exact (nodes_below_sublist ha).subset hna
      · exact (nodes_below_sublist hb).subset hnb

/-- No node stands below a later one. -/
theorem pairwise_notMem_below (h : f.preorder.Nodup) :
    f.nodes.Pairwise fun a b => a.label ∉ b.below.preorder := by
  induction f with
  | nil => exact List.Pairwise.nil
  | cons l i below next ihb ihn =>
    rw [preorder, List.nodup_cons, List.mem_append, not_or] at h
    obtain ⟨⟨hlb, hln⟩, hnodup⟩ := h
    obtain ⟨hb, hn, hdisjoint⟩ := List.nodup_append.mp hnodup
    rw [nodes, List.pairwise_cons, List.pairwise_append]
    refine ⟨?_, ihb hb, ihn hn, ?_⟩
    · intro b hmem hl
      rcases List.mem_append.mp hmem with hbelow | hnext
      · exact hlb ((preorder_below_sublist hbelow).subset hl)
      · exact hln ((preorder_below_sublist hnext).subset hl)
    · intro a ha b hb hl
      exact hdisjoint _ (label_mem_preorder ha) _ ((preorder_below_sublist hb).subset hl) rfl

/-- What stands at and below a node stands together in document order. -/
theorem nodes_isInfix (h : n ∈ f.nodes) : n :: n.below.nodes <:+: f.nodes := by
  induction f with
  | nil => cases h
  | cons k i below next ihb ihn =>
    rw [nodes, List.mem_cons, List.mem_append] at h
    rw [nodes]
    rcases h with rfl | h | h
    · exact ⟨[], next.nodes, by simp⟩
    · obtain ⟨before, after, hbelow⟩ := ihb h
      exact ⟨⟨k, i, below⟩ :: before, after ++ next.nodes, by simp [← hbelow]⟩
    · obtain ⟨before, after, hnext⟩ := ihn h
      exact ⟨⟨k, i, below⟩ :: (below.nodes ++ before), after, by simp [← hnext]⟩

/-- Of two nodes that hold the same label, one is the other or stands below it. -/
theorem eq_or_inside (h : f.preorder.Nodup) (hn : n ∈ f.nodes) (hm : m ∈ f.nodes)
    (hln : l ∈ n.toForest.preorder) (hlm : l ∈ m.toForest.preorder) :
    n = m ∨ n ∈ m.below.nodes ∨ m ∈ n.below.nodes := by
  induction f with
  | nil => cases hn
  | cons k i below next ihb ihn =>
    rw [preorder, List.nodup_cons] at h
    obtain ⟨hb, hnx, hdisjoint⟩ := List.nodup_append.mp h.2
    have hsub {g : Forest} {x : Node} (hx : x ∈ g.nodes) (hl : l ∈ x.toForest.preorder) :
        l ∈ g.preorder := by
      rcases Node.mem_toForest_iff.mp hl with rfl | hl
      · exact label_mem_preorder hx
      · exact (preorder_below_sublist hx).subset hl
    have hapart {x y : Node} (hx : x ∈ below.nodes) (hlx : l ∈ x.toForest.preorder)
        (hy : y ∈ next.nodes) (hly : l ∈ y.toForest.preorder) : False :=
      hdisjoint l (hsub hx hlx) l (hsub hy hly) rfl
    -- the first tree holds no label of the trees after it
    have hroot {y : Node} (hy : y ∈ next.nodes) (hly : l ∈ y.toForest.preorder)
        (hl : l ∈ (Node.toForest ⟨k, i, below⟩).preorder) : False := by
      rcases Node.mem_toForest_iff.mp hl with rfl | hl
      · exact h.1 (List.mem_append_right _ (hsub hy hly))
      · exact hdisjoint l hl l (hsub hy hly) rfl
    rw [nodes, List.mem_cons, List.mem_append] at hn hm
    rcases hn with rfl | hn | hn <;> rcases hm with rfl | hm | hm
    · exact Or.inl rfl
    · exact Or.inr (Or.inr hm)
    · exact (hroot hm hlm hln).elim
    · exact Or.inr (Or.inl hn)
    · exact ihb hb hn hm
    · exact (hapart hn hln hm hlm).elim
    · exact (hroot hn hln hlm).elim
    · exact (hapart hm hlm hn hln).elim
    · exact ihn hnx hn hm

/-! ### One change -/

theorem updateBelow_updateBelow (s : Nat) (u v : Forest → Forest) (f : Forest) :
    (f.updateBelow s u).updateBelow s v = f.updateBelow s fun b => v (u b) := by
  induction f with
  | nil => rfl
  | cons m i below next ihb ihn =>
    rw [updateBelow, updateBelow]
    split
    · next hm => rw [updateBelow, if_pos hm]
    · next hm => rw [updateBelow, if_neg hm, ihb, ihn]

/-- A change at `s` changes below the other nodes what stands at `s` there. -/
theorem find?_updateBelow_of_ne {u : Forest → Forest} (h : f.preorder.Nodup) (hl : l ≠ s)
    (hu : ∀ n ∈ f.nodes, n.label = s → l ∉ n.below.preorder ∧ l ∉ (u n.below).preorder) :
    (f.updateBelow s u).find? l =
      (f.find? l).map fun n => { n with below := n.below.updateBelow s u } := by
  induction f with
  | nil => rfl
  | cons m i below next ihb ihn =>
    rw [preorder, List.nodup_cons, List.mem_append, not_or] at h
    obtain ⟨⟨hmb, hmn⟩, hnodup⟩ := h
    obtain ⟨hb, hnx, -⟩ := List.nodup_append.mp hnodup
    have hnext := ihn hnx fun n hn => hu n (by simp [nodes, hn])
    rw [updateBelow, find?]
    split
    · next hm =>
      -- neither the old nor the new children hold the label, and `s` is not in the other trees
      subst hm
      obtain ⟨hold, hnew⟩ := hu ⟨m, i, below⟩ List.mem_cons_self rfl
      rw [updateBelow_eq_self hmn] at hnext
      rw [find?, if_neg (Ne.symm hl), if_neg (Ne.symm hl), find?_eq_none_iff.mpr hold,
        find?_eq_none_iff.mpr hnew]
      exact hnext
    · next hm =>
      rw [find?, ihb hb fun n hn => hu n (by simp [nodes, hn]), hnext]
      split
      · rfl
      · cases below.find? l <;> rfl

/-! ### Changes at several labels -/

/-- The forest in which `new` says what stands below some of the nodes. -/
def replaceBelow (new : Nat → Option Forest) : Forest → Forest
  | nil => nil
  | cons l i below next =>
    cons l i ((new l).getD (replaceBelow new below)) (replaceBelow new next)

end Forest

/-- The node in a forest in which `new` says what stands below some of the nodes. -/
def Node.replaceBelow (new : Nat → Option Forest) (n : Node) : Node :=
  { n with below := (new n.label).getD (n.below.replaceBelow new) }

namespace Forest

variable {f g : Forest} {l s : Nat} {n : Node} {new : Nat → Option Forest}

theorem replaceBelow_eq_self (h : ∀ l ∈ f.preorder, new l = none) : f.replaceBelow new = f := by
  induction f with
  | nil => rfl
  | cons l i below next ihb ihn =>
    have hl : new l = none := h l List.mem_cons_self
    rw [replaceBelow, hl, ihb fun k hk => h k (by simp [preorder, hk]),
      ihn fun k hk => h k (by simp [preorder, hk])]
    rfl

@[simp] theorem texts_replaceBelow (new : Nat → Option Forest) (f : Forest) :
    (f.replaceBelow new).texts = f.texts := by
  induction f with
  | nil => rfl
  | cons l i below next _ ih => rw [replaceBelow, texts_cons, texts_cons, ih]

/-- The nodes after all changes are those that were there, and those that were put there. -/
theorem mem_nodes_replaceBelow (h : n ∈ (f.replaceBelow new).nodes) :
    (∃ m ∈ f.nodes, n = m.replaceBelow new) ∨ ∃ l g, new l = some g ∧ n ∈ g.nodes := by
  induction f with
  | nil => cases h
  | cons l i below next ihb ihn =>
    rw [replaceBelow, nodes, List.mem_cons, List.mem_append] at h
    rcases h with rfl | h | h
    · exact Or.inl ⟨⟨l, i, below⟩, List.mem_cons_self, rfl⟩
    · cases hnew : new l with
      | some g =>
        rw [hnew] at h
        exact Or.inr ⟨l, g, hnew, h⟩
      | none =>
        rw [hnew] at h
        rcases ihb h with ⟨m, hm, hn⟩ | hput
        · exact Or.inl ⟨m, by simp [nodes, hm], hn⟩
        · exact Or.inr hput
    · rcases ihn h with ⟨m, hm, hn⟩ | hput
      · exact Or.inl ⟨m, by simp [nodes, hm], hn⟩
      · exact Or.inr hput

theorem replaceBelow_congr {new' : Nat → Option Forest} (h : ∀ l ∈ f.preorder, new l = new' l) :
    f.replaceBelow new = f.replaceBelow new' := by
  induction f with
  | nil => rfl
  | cons l i below next ihb ihn =>
    rw [replaceBelow, replaceBelow, h l List.mem_cons_self,
      ihb fun k hk => h k (by simp [preorder, hk]), ihn fun k hk => h k (by simp [preorder, hk])]

/-- **One more change after the others**: it can be made together with them, if its label does not
stand in what they have put there. -/
theorem updateBelow_replaceBelow (h : f.preorder.Nodup)
    (hs : ∀ l g, new l = some g → s ∉ g.preorder) (g : Forest) :
    (f.replaceBelow new).updateBelow s (fun _ => g) =
      f.replaceBelow (Function.update new s (some g)) := by
  induction f with
  | nil => rfl
  | cons l i below next ihb ihn =>
    rw [preorder, List.nodup_cons, List.mem_append, not_or] at h
    obtain ⟨⟨-, hln⟩, hnodup⟩ := h
    obtain ⟨hb, hn, -⟩ := List.nodup_append.mp hnodup
    rw [replaceBelow, replaceBelow, updateBelow]
    split
    · next hl =>
      -- the label stands in no other tree
      subst hl
      have hrest : next.replaceBelow new = next.replaceBelow (Function.update new l (some g)) := by
        refine replaceBelow_congr fun k hk => ?_
        rw [Function.update_of_ne]
        rintro rfl
        exact hln hk
      rw [Function.update_self, hrest]
      rfl
    · next hl =>
      rw [Function.update_of_ne hl, ihn hn]
      cases hnew : new l with
      | some g' => rw [Option.getD_some, Option.getD_some, updateBelow_eq_self (hs l g' hnew)]
      | none => rw [Option.getD_none, Option.getD_none, ihb hb]

end Forest

namespace Node

variable {n : Node} {new : Nat → Option Forest} {s : Nat}

theorem replaceBelow_eq_self (h : new n.label = none)
    (hbelow : ∀ l ∈ n.below.preorder, new l = none) : n.replaceBelow new = n := by
  rw [replaceBelow, h, Forest.replaceBelow_eq_self hbelow]
  rfl

theorem below_replaceBelow (h : new n.label = none) :
    (n.replaceBelow new).below = n.below.replaceBelow new := by
  rw [replaceBelow, h]
  rfl

theorem ownText_replaceBelow (n : Node) (new : Nat → Option Forest) :
    (n.replaceBelow new).ownText = String.join ((new n.label).getD n.below).texts := by
  have htexts : ((new n.label).getD (n.below.replaceBelow new)).texts =
      ((new n.label).getD n.below).texts := by
    cases new n.label with
    | some g => rfl
    | none => exact Forest.texts_replaceBelow new n.below
  rw [← htexts]
  rfl

/-- One more change at the node. -/
theorem replaceBelow_update_self (n : Node) (new : Nat → Option Forest) (g : Forest) :
    n.replaceBelow (Function.update new n.label (some g)) =
      { n.replaceBelow new with below := g } := by
  rw [replaceBelow, replaceBelow, Function.update_self]
  rfl

/-- One more change elsewhere. -/
theorem replaceBelow_update (h : n.below.preorder.Nodup) (hn : n.label ≠ s)
    (hs : ∀ l g, new l = some g → s ∉ g.preorder) (g : Forest) :
    n.replaceBelow (Function.update new s (some g)) =
      { n.replaceBelow new with below := (n.replaceBelow new).below.updateBelow s fun _ => g } := by
  rw [replaceBelow, replaceBelow, Function.update_of_ne hn]
  cases hnew : new n.label with
  | some g' =>
    rw [Option.getD_some, Option.getD_some, Forest.updateBelow_eq_self (hs _ g' hnew)]
  | none => rw [Option.getD_none, Option.getD_none, Forest.updateBelow_replaceBelow h hs]

end Node

end BindingDocs.Page
