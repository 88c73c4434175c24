import BindingDocs.Page.Heap
import BindingDocs.Proofs.Page.Forest
import Mathlib.Logic.Relation

/-!
# Links in both directions

The links of stored nodes agree if a node lists another exactly if it is its parent, no node is
listed twice, and no node is above itself.  A change keeps this in one of two ways.  Either it takes
nodes out: they lose their parents and stand in no list any more.  Or it puts nodes somewhere: they
get a parent, which lists them in addition.  The latter is right only for nodes that had no parent,
and for a parent that is not below them.

## Main definitions

* `Heap.Consistent` — the links agree.
* `Heap.IsAbove`, `Heap.IsLoose` — walking upwards, and a node that is nowhere.
* `Heap.fits` — a node can be put below another.

## Main results

* `Heap.Consistent.ancestors_eq` — **the walk upwards is never cut off.**
* `Heap.Consistent.take`, `Heap.Consistent.place` — the two ways in which links stay in agreement.
* `Heap.consistent_append_iff` — **which nodes can be put below another.**
-/

namespace BindingDocs.Page.Heap

open Page (Forest Item Node)

/-- Whether there is a node at a label. -/
def hasNode (s : Heap) (l : Nat) : Bool := (s.cell? l).isSome

/-- Walking upwards from `l` leads to `a`. -/
def IsAbove (s : Heap) (a l : Nat) : Prop :=
  Relation.TransGen (fun c b => s.parent? c = some b) l a

/-- Children and parents agree, no child is listed twice, and no node is above itself. -/
structure Consistent (s : Heap) : Prop where
  mem_children_iff : ∀ a c, c ∈ s.children a ↔ s.parent? c = some a
  nodup_children : ∀ a, (s.children a).Nodup
  not_isAbove_self : ∀ l, ¬ s.IsAbove l l

/-- A node that has no parent and is listed nowhere. -/
def IsLoose (s : Heap) (l : Nat) : Prop := s.parent? l = none ∧ ∀ a, l ∉ s.children a

/-- Whether a node can be put below another: there are two such nodes, the one has no parent, and
the other is neither the same nor below it. -/
def fits (a c : Nat) (s : Heap) : Bool :=
  s.hasNode a && s.hasNode c && (s.parent? c).isNone && a != c && !s.isDescendant a c

variable {s t : Heap} {a b c l m : Nat} {ls cs : List Nat} {u : Cell → Cell} {i : Item}

/-! ### Nodes and their links after a change -/

theorem cell?_of_next_le (h : s.next ≤ l) : s.cell? l = none := by
  rw [cell?, List.getElem?_eq_none h, Option.join_none]

theorem hasNode_lt (h : s.hasNode l = true) : l < s.next := by
  by_contra hle
  rw [hasNode, cell?_of_next_le (Nat.not_lt.mp hle)] at h
  cases h

theorem hasNode_of_parent? (h : s.parent? c = some a) : s.hasNode c = true := by
  obtain ⟨cell, hcell, -⟩ := Option.bind_eq_some_iff.mp h
  rw [hasNode, hcell]
  rfl

theorem hasNode_of_mem_children (h : c ∈ s.children a) : s.hasNode a = true := by
  rw [children] at h
  rw [hasNode]
  cases hcell : s.cell? a with
  | none => simp [hcell] at h
  | some cell => rfl

@[simp] theorem cell?_modify (l : Nat) (u : Cell → Cell) (s : Heap) (m : Nat) :
    (s.modify l u).cell? m = if l = m then (s.cell? m).map u else s.cell? m := by
  rw [modify, cell?, cell?, List.getElem?_modify]
  split
  · cases s.cells[m]? with
    | none => rfl
    | some cell => cases cell <;> rfl
  · cases s.cells[m]? <;> rfl

@[simp] theorem next_modify (l : Nat) (u : Cell → Cell) (s : Heap) : (s.modify l u).next = s.next :=
  List.length_modify ..

@[simp] theorem hasNode_modify (l : Nat) (u : Cell → Cell) (s : Heap) (m : Nat) :
    (s.modify l u).hasNode m = s.hasNode m := by
  rw [hasNode, hasNode, cell?_modify]
  split
  · exact Option.isSome_map
  · rfl

theorem item?_modify (hu : ∀ c, (u c).item = c.item) (l : Nat) (s : Heap) (m : Nat) :
    (s.modify l u).item? m = s.item? m := by
  rw [item?, item?, cell?_modify]
  split
  · rw [Option.map_map]
    exact congrArg (fun f => (s.cell? m).map f) (funext hu)
  · rfl

theorem parent?_modify (hu : ∀ c, (u c).parent = c.parent) (l : Nat) (s : Heap) (m : Nat) :
    (s.modify l u).parent? m = s.parent? m := by
  rw [parent?, parent?, cell?_modify]
  split
  · cases s.cell? m with
    | none => rfl
    | some cell => exact hu cell
  · rfl

theorem children_modify (hu : ∀ c, (u c).children = c.children) (l : Nat) (s : Heap) (m : Nat) :
    (s.modify l u).children m = s.children m := by
  rw [children, children, cell?_modify]
  split
  · cases s.cell? m with
    | none => rfl
    | some cell => exact hu cell
  · rfl

@[simp] theorem parent?_setChildren (u : List Nat → List Nat) (l : Nat) (s : Heap) (m : Nat) :
    (s.setChildren u l).parent? m = s.parent? m := by
  rw [setChildren, parent?_modify]
  exact fun _ => rfl

@[simp] theorem item?_setChildren (u : List Nat → List Nat) (l : Nat) (s : Heap) (m : Nat) :
    (s.setChildren u l).item? m = s.item? m := by
  rw [setChildren, item?_modify]
  exact fun _ => rfl

@[simp] theorem children_setParent (up : Option Nat) (l : Nat) (s : Heap) (m : Nat) :
    (s.setParent up l).children m = s.children m := by
  rw [setParent, children_modify]
  exact fun _ => rfl

@[simp] theorem item?_setParent (up : Option Nat) (l : Nat) (s : Heap) (m : Nat) :
    (s.setParent up l).item? m = s.item? m := by
  rw [setParent, item?_modify]
  exact fun _ => rfl

@[simp] theorem next_setChildren (u : List Nat → List Nat) (l : Nat) (s : Heap) :
    (s.setChildren u l).next = s.next := next_modify ..

@[simp] theorem next_setParent (up : Option Nat) (l : Nat) (s : Heap) :
    (s.setParent up l).next = s.next := next_modify ..

@[simp] theorem hasNode_setChildren (u : List Nat → List Nat) (l : Nat) (s : Heap) (m : Nat) :
    (s.setChildren u l).hasNode m = s.hasNode m := hasNode_modify ..

@[simp] theorem hasNode_setParent (up : Option Nat) (l : Nat) (s : Heap) (m : Nat) :
    (s.setParent up l).hasNode m = s.hasNode m := hasNode_modify ..

theorem children_setChildren (u : List Nat → List Nat) (l : Nat) (s : Heap) (m : Nat) :
    (s.setChildren u l).children m =
      if l = m ∧ s.hasNode m = true then u (s.children m) else s.children m := by
  rw [children, children, setChildren, cell?_modify, hasNode]
  by_cases hl : l = m
  · rw [if_pos hl]
    cases s.cell? m <;> simp [hl]
  · rw [if_neg hl, if_neg fun h => hl h.1]

theorem parent?_setParent (up : Option Nat) (l : Nat) (s : Heap) (m : Nat) :
    (s.setParent up l).parent? m =
      if l = m ∧ s.hasNode m = true then up else s.parent? m := by
  rw [parent?, parent?, setParent, cell?_modify, hasNode]
  by_cases hl : l = m
  · rw [if_pos hl]
    cases s.cell? m <;> simp [hl]
  · rw [if_neg hl, if_neg fun h => hl h.1]

section SetParents

variable (up : Option Nat) (ls : List Nat) (s : Heap) (m : Nat)

@[simp] theorem children_setParents : (s.setParents up ls).children m = s.children m := by
  induction ls generalizing s with
  | nil => rfl
  | cons l ls ih => exact (ih _).trans (children_setParent up l s m)

@[simp] theorem item?_setParents : (s.setParents up ls).item? m = s.item? m := by
  induction ls generalizing s with
  | nil => rfl
  | cons l ls ih => exact (ih _).trans (item?_setParent up l s m)

@[simp] theorem hasNode_setParents : (s.setParents up ls).hasNode m = s.hasNode m := by
  induction ls generalizing s with
  | nil => rfl
  | cons l ls ih => exact (ih _).trans (hasNode_setParent up l s m)

@[simp] theorem next_setParents : (s.setParents up ls).next = s.next := by
  induction ls generalizing s with
  | nil => rfl
  | cons l ls ih => exact (ih _).trans (next_setParent up l s)

theorem parent?_setParents : (s.setParents up ls).parent? m =
    if m ∈ ls ∧ s.hasNode m = true then up else s.parent? m := by
  induction ls generalizing s with
  | nil => simp [setParents]
  | cons l ls ih =>
    rw [setParents, List.foldl_cons, ← setParents, ih, parent?_setParent, hasNode_setParent]
    simp only [List.mem_cons, eq_comm (a := l)]
    by_cases hls : m ∈ ls
    · by_cases hnode : s.hasNode m = true <;> simp [hls, hnode]
    · simp [hls]

end SetParents

/-! ### Consistent links -/

namespace Consistent

theorem hasNode_parent (h : s.Consistent) (hc : s.parent? c = some a) : s.hasNode a = true :=
  hasNode_of_mem_children ((h.mem_children_iff a c).mpr hc)

theorem hasNode_child (h : s.Consistent) (hc : c ∈ s.children a) : s.hasNode c = true :=
  hasNode_of_parent? ((h.mem_children_iff a c).mp hc)

theorem isLoose_iff (h : s.Consistent) : s.IsLoose l ↔ s.parent? l = none := by
  constructor
  · exact And.left
  · intro hnone
    refine ⟨hnone, fun a ha => ?_⟩
    rw [h.mem_children_iff, hnone] at ha
    cases ha

end Consistent

/-! ### Walking upwards -/

section Upwards

theorem length_ancestorsFuel_le (s : Heap) (fuel l : Nat) :
    (s.ancestorsFuel fuel l).length ≤ fuel := by
  induction fuel generalizing l with
  | zero => exact Nat.le_refl 0
  | succ fuel ih =>
    rw [ancestorsFuel]
    split
    · exact Nat.succ_le_succ (ih _)
    · exact Nat.zero_le _

/-- A walk that ends early does not need its last step. -/
theorem ancestorsFuel_succ {fuel : Nat} (h : (s.ancestorsFuel fuel l).length < fuel) :
    s.ancestorsFuel (fuel + 1) l = s.ancestorsFuel fuel l := by
  induction fuel generalizing l with
  | zero => cases h
  | succ fuel ih =>
    rw [ancestorsFuel] at h
    rw [ancestorsFuel, ancestorsFuel]
    split
    · next a ha =>
      rw [ha, List.length_cons] at h
      rw [ih (Nat.lt_of_succ_lt_succ h)]
    · rfl

theorem isAbove_of_mem_ancestorsFuel {fuel : Nat} (h : a ∈ s.ancestorsFuel fuel l) :
    s.IsAbove a l := by
  induction fuel generalizing l with
  | zero => cases h
  | succ fuel ih =>
    rw [ancestorsFuel] at h
    split at h
    · next b hb =>
      rcases List.mem_cons.mp h with rfl | h
      · exact .single hb
      · exact .head hb (ih h)
    · cases h

variable (h : s.Consistent)

include h

/-- A walk meets no label twice. -/
theorem Consistent.nodup_ancestorsFuel (fuel l : Nat) : (s.ancestorsFuel fuel l).Nodup := by
  induction fuel generalizing l with
  | zero => exact List.nodup_nil
  | succ fuel ih =>
    rw [ancestorsFuel]
    split
    · next a _ =>
      refine List.nodup_cons.mpr ⟨fun ha => ?_, ih a⟩
      exact h.not_isAbove_self a (isAbove_of_mem_ancestorsFuel ha)
    · exact List.nodup_nil

theorem Consistent.hasNode_of_isAbove (ha : s.IsAbove a l) : s.hasNode a = true := by
  induction ha with
  | single hb => exact h.hasNode_parent hb
  | tail _ hb _ => exact h.hasNode_parent hb

/-- Each step of a walk leads to another node, so there are not more steps than nodes. -/
theorem Consistent.length_ancestors_lt (hl : s.hasNode l = true) :
    (s.ancestors l).length < s.next := by
  have hnodup : (l :: s.ancestors l).Nodup := by
    refine List.nodup_cons.mpr ⟨fun hself => ?_, h.nodup_ancestorsFuel _ _⟩
    exact h.not_isAbove_self l (isAbove_of_mem_ancestorsFuel hself)
  have hsubset : l :: s.ancestors l ⊆ List.range s.next := by
    refine List.cons_subset.mpr ⟨List.mem_range.mpr (hasNode_lt hl), fun a ha => ?_⟩
    exact List.mem_range.mpr (hasNode_lt (h.hasNode_of_isAbove (isAbove_of_mem_ancestorsFuel ha)))
  have hle := hnodup.length_le_of_subset hsubset
  rwa [List.length_range] at hle

/-- **The walk upwards is never cut off**: it goes on as long as there is a parent. -/
theorem Consistent.ancestors_eq (l : Nat) :
    s.ancestors l =
      match s.parent? l with
      | some a => a :: s.ancestors a
      | none => [] := by
  cases hparent : s.parent? l with
  | none =>
    rw [ancestors]
    cases s.next with
    | zero => rfl
    | succ fuel => rw [ancestorsFuel, hparent]
  | some a =>
    have hlt := h.length_ancestors_lt (hasNode_of_parent? hparent)
    rw [ancestors] at hlt
    rw [ancestors, ← ancestorsFuel_succ hlt, ancestorsFuel, hparent]
    rfl

theorem Consistent.mem_ancestors_iff : a ∈ s.ancestors l ↔ s.IsAbove a l := by
  constructor
  · exact isAbove_of_mem_ancestorsFuel
  · intro ha
    induction ha using Relation.TransGen.head_induction_on with
    | single hb =>
      rw [h.ancestors_eq, hb]
      exact List.mem_cons_self
    | head hb _ ih =>
      rw [h.ancestors_eq, hb]
      exact List.mem_cons_of_mem _ ih

theorem Consistent.isDescendant_iff : s.isDescendant l a = true ↔ s.IsAbove a l := by
  rw [isDescendant, List.contains_iff_mem, h.mem_ancestors_iff]

theorem Consistent.fits_iff : s.fits a c = true ↔
    s.hasNode a = true ∧ s.hasNode c = true ∧ s.parent? c = none ∧ a ≠ c ∧ ¬ s.IsAbove c a := by
  simp only [fits, Bool.and_eq_true, Option.isNone_iff_eq_none, bne_iff_ne, Bool.not_eq_true',
    ← Bool.not_eq_true, h.isDescendant_iff, and_assoc]

end Upwards

/-! ### How links stay in agreement -/

theorem isAbove_mono (hup : ∀ c b, t.parent? c = some b → s.parent? c = some b)
    (h : t.IsAbove a l) : s.IsAbove a l :=
  Relation.TransGen.mono hup l a h

/-- Nodes are taken out: they lose their parents and stand in no list any more. -/
theorem Consistent.take (h : s.Consistent)
    (hparent : ∀ l, t.parent? l = if l ∈ ls then none else s.parent? l)
    (hchildren : ∀ a, t.children a = (s.children a).filter (· ∉ ls)) : t.Consistent where
  mem_children_iff := by
    intro a c
    rw [hchildren, hparent, List.mem_filter, decide_eq_true_eq, h.mem_children_iff]
    split
    · next hc => simp [hc]
    · next hc => simp [hc]
  nodup_children := fun a => hchildren a ▸ (h.nodup_children a).filter _
  not_isAbove_self := by
    intro l hl
    refine h.not_isAbove_self l (isAbove_mono (fun c b hb => ?_) hl)
    rw [hparent] at hb
    split at hb
    · cases hb
    · exact hb

/-- Paths upwards after nodes got a parent: either the path was there, or it leads through one of
the new links. -/
theorem isAbove_of_place (hup : ∀ l b, t.parent? l = some b → s.parent? l = some b ∨ l ∈ cs ∧ b = a)
    (hcs : ∀ c ∈ cs, a ≠ c ∧ ¬ s.IsAbove c a) (h : t.IsAbove b l) :
    s.IsAbove b l ∨
      ((l ∈ cs ∨ ∃ c ∈ cs, s.IsAbove c l) ∧ (b = a ∨ s.IsAbove b a)) := by
  induction h with
  | single hb =>
    rcases hup _ _ hb with hb | ⟨hl, rfl⟩
    · exact .inl (.single hb)
    · exact .inr ⟨.inl hl, .inl rfl⟩
  | tail _ hb ih =>
    rcases hup _ _ hb with hb | ⟨hm, rfl⟩
    · rcases ih with ih | ⟨hl, rfl | ha⟩
      · exact .inl (ih.tail hb)
      · exact .inr ⟨hl, .inr (.single hb)⟩
      · exact .inr ⟨hl, .inr (ha.tail hb)⟩
    · -- the path came to one of the nodes, which is not above their new parent
      rcases ih with ih | ⟨-, rfl | ha⟩
      · exact .inr ⟨.inr ⟨_, hm, ih⟩, .inl rfl⟩
      · exact absurd rfl (hcs _ hm).1
      · exact absurd ha (hcs _ hm).2

/-- Nodes that had no parent get one that is not below them, and which lists them in addition. -/
theorem Consistent.place (h : s.Consistent) (hnodup : cs.Nodup)
    (hcs : ∀ c ∈ cs, s.parent? c = none ∧ a ≠ c ∧ ¬ s.IsAbove c a)
    (hparent : ∀ l, t.parent? l = if l ∈ cs then some a else s.parent? l)
    (hchildren : ∀ b, (t.children b).Perm (if b = a then s.children b ++ cs else s.children b)) :
    t.Consistent where
  mem_children_iff := by
    intro b c
    rw [(hchildren b).mem_iff, hparent]
    by_cases hc : c ∈ cs
    · have hunlisted : c ∉ s.children b := by
        rw [h.mem_children_iff, (hcs c hc).1]
        exact nofun
      by_cases hb : b = a
      · simp [hb, hc]
      · simp [hb, hc, hunlisted, Ne.symm hb]
    · by_cases hb : b = a
      · simp [hb, hc, h.mem_children_iff]
      · simp [hb, hc, h.mem_children_iff]
  nodup_children := by
    intro b
    rw [(hchildren b).nodup_iff]
    split
    · refine List.nodup_append.mpr ⟨h.nodup_children b, hnodup, ?_⟩
      rintro c hc _ hmem rfl
      rw [h.mem_children_iff, (hcs c hmem).1] at hc
      cases hc
    · exact h.nodup_children b
  not_isAbove_self := by
    intro l hl
    have hup : ∀ l b, t.parent? l = some b → s.parent? l = some b ∨ l ∈ cs ∧ b = a := by
      intro l b hb
      rw [hparent] at hb
      split at hb
      · next hmem => exact .inr ⟨hmem, (Option.some.inj hb).symm⟩
      · exact .inl hb
    rcases isAbove_of_place hup (fun c hc => (hcs c hc).2) hl with hl | ⟨hlow, hhigh⟩
    · exact h.not_isAbove_self l hl
    · -- the node is above the new parent, and one of the nodes is above it
      rcases hlow with hmem | ⟨c, hc, hlow⟩
      · rcases hhigh with rfl | hhigh
        · exact (hcs l hmem).2.1 rfl
        · exact (hcs l hmem).2.2 hhigh
      · rcases hhigh with rfl | hhigh
        · exact (hcs c hc).2.2 hlow
        · exact (hcs c hc).2.2 (hhigh.trans hlow)

/-! ### The links after each change -/

@[simp] theorem parent?_unlist (l : Nat) (s : Heap) (m : Nat) :
    (s.unlist l).parent? m = s.parent? m := by
  rw [unlist]
  split
  · exact parent?_setChildren ..
  · rfl

@[simp] theorem hasNode_unlist (l : Nat) (s : Heap) (m : Nat) :
    (s.unlist l).hasNode m = s.hasNode m := by
  rw [unlist]
  split
  · exact hasNode_setChildren ..
  · rfl

@[simp] theorem next_unlist (l : Nat) (s : Heap) : (s.unlist l).next = s.next := by
  rw [unlist]
  split
  · exact next_setChildren ..
  · rfl

@[simp] theorem item?_unlist (l : Nat) (s : Heap) (m : Nat) :
    (s.unlist l).item? m = s.item? m := by
  rw [unlist]
  split
  · exact item?_setChildren ..
  · rfl

@[simp] theorem hasNode_detach (l : Nat) (s : Heap) (m : Nat) :
    (s.detach l).hasNode m = s.hasNode m := by
  rw [detach, hasNode_setParent, hasNode_unlist]

@[simp] theorem next_detach (l : Nat) (s : Heap) : (s.detach l).next = s.next := by
  rw [detach, next_setParent, next_unlist]

@[simp] theorem item?_detach (l : Nat) (s : Heap) (m : Nat) :
    (s.detach l).item? m = s.item? m := by
  rw [detach, item?_setParent, item?_unlist]

theorem parent?_detach (l : Nat) (s : Heap) (m : Nat) :
    (s.detach l).parent? m = if m ∈ [l] then none else s.parent? m := by
  rw [detach, parent?_setParent, parent?_unlist, hasNode_unlist]
  simp only [List.mem_singleton, eq_comm (a := l)]
  by_cases hm : m = l
  · rw [if_pos hm]
    split
    · rfl
    · next hnot =>
      -- what is no node has no parent
      rw [Option.eq_none_iff_forall_ne_some]
      exact fun a ha => hnot ⟨hm, hasNode_of_parent? ha⟩
  · rw [if_neg fun h => hm h.1, if_neg hm]

theorem Consistent.children_detach (h : s.Consistent) (l a : Nat) :
    (s.detach l).children a = (s.children a).filter (· ∉ [l]) := by
  have hother : s.parent? l ≠ some a → s.children a = (s.children a).filter (· ∉ [l]) := by
    intro hne
    refine (List.filter_eq_self.mpr fun c hc => decide_eq_true ?_).symm
    rintro hmem
    rw [List.mem_singleton.mp hmem, h.mem_children_iff] at hc
    exact hne hc
  rw [detach, children_setParent, unlist]
  cases hparent : s.parent? l with
  | none => exact hother (by rw [hparent]; exact nofun)
  | some b =>
    simp only [children_setChildren]
    by_cases hb : b = a
    · subst hb
      rw [if_pos ⟨rfl, h.hasNode_parent hparent⟩]
      refine List.filter_congr fun c _ => ?_
      simp only [List.mem_singleton]
    · rw [if_neg fun hand => hb hand.1]
      exact hother (by rw [hparent]; exact fun heq => hb (Option.some.inj heq))

theorem Consistent.detach (h : s.Consistent) (l : Nat) : (s.detach l).Consistent :=
  h.take (parent?_detach l s) (h.children_detach l)

@[simp] theorem hasNode_clear (l : Nat) (s : Heap) (m : Nat) :
    (s.clear l).hasNode m = s.hasNode m := by
  rw [clear, hasNode_setChildren, hasNode_setParents]

@[simp] theorem next_clear (l : Nat) (s : Heap) : (s.clear l).next = s.next := by
  rw [clear, next_setChildren, next_setParents]

@[simp] theorem item?_clear (l : Nat) (s : Heap) (m : Nat) :
    (s.clear l).item? m = s.item? m := by
  rw [clear, item?_setChildren, item?_setParents]

theorem Consistent.parent?_clear (h : s.Consistent) (l m : Nat) :
    (s.clear l).parent? m = if m ∈ s.children l then none else s.parent? m := by
  rw [clear, parent?_setChildren, parent?_setParents]
  by_cases hm : m ∈ s.children l
  · rw [if_pos hm, if_pos ⟨hm, h.hasNode_child hm⟩]
  · rw [if_neg hm, if_neg fun hand => hm hand.1]

theorem children_clear (l : Nat) (s : Heap) (a : Nat) :
    (s.clear l).children a = if a = l then [] else s.children a := by
  rw [clear, children_setChildren, children_setParents, hasNode_setParents]
  by_cases ha : a = l
  · rw [if_pos ha]
    split
    · rfl
    · next hnot =>
      refine List.eq_nil_iff_forall_not_mem.mpr fun c hc => ?_
      exact hnot ⟨ha.symm, hasNode_of_mem_children hc⟩
  · rw [if_neg ha, if_neg fun hand => ha hand.1.symm]

theorem Consistent.children_clear (h : s.Consistent) (l a : Nat) :
    (s.clear l).children a = (s.children a).filter (· ∉ s.children l) := by
  rw [Heap.children_clear]
  symm
  split
  · next ha =>
    refine List.filter_eq_nil_iff.mpr fun c hc => ?_
    simp [← ha, hc]
  · next ha =>
    refine List.filter_eq_self.mpr fun c hc => decide_eq_true fun hcl => ?_
    -- a child has one parent
    rw [h.mem_children_iff] at hc hcl
    exact ha (Option.some.inj (hc.symm.trans hcl))

theorem Consistent.clear (h : s.Consistent) (l : Nat) : (s.clear l).Consistent :=
  h.take (h.parent?_clear l) (h.children_clear l)

@[simp] theorem hasNode_insertAfterFirstElement (a : Nat) (cs : List Nat) (s : Heap) (m : Nat) :
    (s.insertAfterFirstElement a cs).hasNode m = s.hasNode m := by
  rw [insertAfterFirstElement, hasNode_setChildren, hasNode_setParents]

@[simp] theorem next_insertAfterFirstElement (a : Nat) (cs : List Nat) (s : Heap) :
    (s.insertAfterFirstElement a cs).next = s.next := by
  rw [insertAfterFirstElement, next_setChildren, next_setParents]

@[simp] theorem item?_insertAfterFirstElement (a : Nat) (cs : List Nat) (s : Heap) (m : Nat) :
    (s.insertAfterFirstElement a cs).item? m = s.item? m := by
  rw [insertAfterFirstElement, item?_setChildren, item?_setParents]

theorem parent?_insertAfterFirstElement (hcs : ∀ c ∈ cs, s.hasNode c = true) (a m : Nat) :
    (s.insertAfterFirstElement a cs).parent? m = if m ∈ cs then some a else s.parent? m := by
  rw [insertAfterFirstElement, parent?_setChildren, parent?_setParents]
  by_cases hm : m ∈ cs
  · rw [if_pos hm, if_pos ⟨hm, hcs m hm⟩]
  · rw [if_neg hm, if_neg fun hand => hm hand.1]

theorem children_insertAfterFirstElement (ha : s.hasNode a = true) (cs : List Nat) (b : Nat) :
    (s.insertAfterFirstElement a cs).children b =
      if b = a then
        (s.children a).take (s.placeAfterFirstElement (s.children a)) ++
          (cs ++ (s.children a).drop (s.placeAfterFirstElement (s.children a)))
      else s.children b := by
  rw [insertAfterFirstElement, children_setChildren, children_setParents, hasNode_setParents]
  by_cases hb : b = a
  · rw [if_pos ⟨hb.symm, hb ▸ ha⟩, if_pos hb, hb]
  · rw [if_neg fun hand => hb hand.1.symm, if_neg hb]

theorem Consistent.insertAfterFirstElement (h : s.Consistent) (hnodup : cs.Nodup)
    (ha : s.hasNode a = true) (hcs : ∀ c ∈ cs, s.fits a c = true) :
    (s.insertAfterFirstElement a cs).Consistent := by
  have hfits := fun c hc => h.fits_iff.mp (hcs c hc)
  refine h.place hnodup (fun c hc => (hfits c hc).2.2)
    (parent?_insertAfterFirstElement (fun c hc => (hfits c hc).2.1) a) fun b => ?_
  rw [children_insertAfterFirstElement ha]
  split
  · next hb =>
    rw [hb]
    generalize s.placeAfterFirstElement (s.children a) = place
    calc (s.children a).take place ++ (cs ++ (s.children a).drop place)
      List.Perm _ ((s.children a).take place ++ ((s.children a).drop place ++ cs)) :=
          List.perm_append_comm.append_left _
      _ = s.children a ++ cs := by rw [← List.append_assoc, List.take_append_drop]
  · exact .refl _

@[simp] theorem hasNode_append (a c : Nat) (s : Heap) (m : Nat) :
    (s.append a c).hasNode m = s.hasNode m := by
  rw [append, hasNode_setChildren, hasNode_setParent]

@[simp] theorem next_append (a c : Nat) (s : Heap) : (s.append a c).next = s.next := by
  rw [append, next_setChildren, next_setParent]

@[simp] theorem item?_append (a c : Nat) (s : Heap) (m : Nat) :
    (s.append a c).item? m = s.item? m := by
  rw [append, item?_setChildren, item?_setParent]

theorem parent?_append (hc : s.hasNode c = true) (a m : Nat) :
    (s.append a c).parent? m = if m ∈ [c] then some a else s.parent? m := by
  rw [append, parent?_setChildren, parent?_setParent]
  simp only [List.mem_singleton]
  by_cases hm : m = c
  · rw [if_pos hm, if_pos ⟨hm.symm, hm ▸ hc⟩]
  · rw [if_neg hm, if_neg fun hand => hm hand.1.symm]

theorem children_append (ha : s.hasNode a = true) (c b : Nat) :
    (s.append a c).children b = if b = a then s.children b ++ [c] else s.children b := by
  rw [append, children_setChildren, children_setParent, hasNode_setParent]
  by_cases hb : b = a
  · rw [if_pos hb, if_pos ⟨hb.symm, hb ▸ ha⟩]
  · rw [if_neg hb, if_neg fun hand => hb hand.1.symm]

theorem Consistent.append (h : s.Consistent) (hfits : s.fits a c = true) :
    (s.append a c).Consistent := by
  obtain ⟨ha, hc, hloose⟩ := h.fits_iff.mp hfits
  refine h.place (List.nodup_singleton c) (fun m hm => ?_) (parent?_append hc a) fun b => ?_
  · rwa [List.mem_singleton.mp hm]
  · rw [children_append ha]

section ReplaceText

variable (old new : String) (l : Nat) (s : Heap) (m : Nat)

@[simp] theorem parent?_replaceTextAt : (s.replaceTextAt old new l).parent? m = s.parent? m := by
  rw [replaceTextAt, parent?_modify]
  exact fun _ => rfl

@[simp] theorem children_replaceTextAt :
    (s.replaceTextAt old new l).children m = s.children m := by
  rw [replaceTextAt, children_modify]
  exact fun _ => rfl

@[simp] theorem hasNode_replaceTextAt : (s.replaceTextAt old new l).hasNode m = s.hasNode m :=
  hasNode_modify ..

@[simp] theorem next_replaceTextAt : (s.replaceTextAt old new l).next = s.next := next_modify ..

end ReplaceText

/-- Links that are the same are in agreement, too. -/
theorem Consistent.of_links (h : s.Consistent) (hparent : ∀ l, t.parent? l = s.parent? l)
    (hchildren : ∀ a, t.children a = s.children a) : t.Consistent := by
  have hnone (l : Nat) : t.parent? l = if l ∈ [] then none else s.parent? l := by
    rw [hparent, if_neg List.not_mem_nil]
  have hall (a : Nat) : t.children a = (s.children a).filter (· ∉ []) := by
    rw [hchildren, List.filter_eq_self.mpr fun c _ => decide_eq_true List.not_mem_nil]
  exact h.take hnone hall

theorem Consistent.replaceTextAt (h : s.Consistent) (old new : String) (l : Nat) :
    (s.replaceTextAt old new l).Consistent :=
  h.of_links (parent?_replaceTextAt old new l s) (children_replaceTextAt old new l s)

/-- **Which nodes can be put below another.**  Putting a node below another keeps the links in
agreement exactly if the node has no parent and the other is neither the same nor below it: the node
is not taken off the list on which it stands already. -/
theorem consistent_append_iff (h : s.Consistent) (ha : s.hasNode a = true)
    (hc : s.hasNode c = true) :
    (s.append a c).Consistent ↔ s.parent? c = none ∧ a ≠ c ∧ ¬ s.IsAbove c a := by
  constructor
  · intro happend
    have hput : (s.append a c).parent? c = some a := by
      rw [parent?_append hc, if_pos List.mem_cons_self]
    have hloose : s.parent? c = none := by
      -- the old parent lists the node still, and the new one in addition
      rw [Option.eq_none_iff_forall_ne_some]
      intro b hb
      have hlisted := (h.mem_children_iff b c).mpr hb
      by_cases heq : b = a
      · have hnodup := happend.nodup_children a
        rw [children_append ha, if_pos rfl, List.nodup_append] at hnodup
        exact hnodup.2.2 c (heq ▸ hlisted) c List.mem_cons_self rfl
      · have hstill : c ∈ (s.append a c).children b := by
          rwa [children_append ha, if_neg heq]
        rw [happend.mem_children_iff, hput] at hstill
        exact heq (Option.some.inj hstill).symm
    refine ⟨hloose, ?_, fun habove => ?_⟩
    · rintro rfl
      exact happend.not_isAbove_self a (.single hput)
    · -- the new link closes the path from the parent up to the node
      have hpath : (s.append a c).IsAbove c a := by
        refine isAbove_mono (fun m b hb => ?_) habove
        rw [parent?_append hc, if_neg fun hm => ?_, hb]
        rw [List.mem_singleton.mp hm, hloose] at hb
        cases hb
      exact happend.not_isAbove_self a (hpath.tail hput)
  · intro hloose
    exact h.append (h.fits_iff.mpr ⟨ha, hc, hloose⟩)

end BindingDocs.Page.Heap
