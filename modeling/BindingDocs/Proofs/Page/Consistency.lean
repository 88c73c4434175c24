import BindingDocs.Page.Revise
import BindingDocs.Proofs.Page.Labelled

/-!
# Pages stay trees

A page is changed in five ways: a node is taken out of its tree, the children of a node are taken
out, copies of trees are put below a node at one of two places, and texts are replaced.  All
revisions of a page are made of these.  None of them gives a label twice or puts a node that was
there before below another node.  So after any number of revisions, also when one of them breaks
off, every node has a label of its own, and no old node has got another parent.

## Main definitions

* `Page.Consistent` — children and parents agree, and no node is above itself.
* `Page.Change`, `Page.Leads` — the five ways to change a page, and any number of changes.
* `Page.Follows` — no label is given twice, and no node gets another parent.
* `Page.IsLoose` — a node without parent.

## Main results

* `Page.Change.follows`, `Page.Leads.follows` — **what changes keep.**
* `Page.leads_revise` — revisions are made of changes.
-/

namespace BindingDocs.Page

open Page (Forest Item Node)

/-! ### Consistent pages -/

/-- Children and parents agree, no child is listed twice, and no node is above itself. -/
structure Consistent (p : Page) : Prop extends Labelled p where
  mem_children_iff : ∀ a c, c ∈ p.children a ↔ p.parentLabel? c = some a
  nodup_children : ∀ a, (p.children a).Nodup
  not_isAbove_self : ∀ l, ¬ p.IsAbove l l

theorem Labelled.consistent {p : Page} (h : p.Labelled) : p.Consistent :=
  ⟨h, h.mem_children_iff, h.nodup_children, h.not_isAbove_self⟩

/-- A node that has no parent and is listed nowhere. -/
def IsLoose (p : Page) (l : Nat) : Prop := p.parent? l = none ∧ ∀ a, l ∉ p.children a

theorem Labelled.isLoose_iff {p : Page} {l : Nat} (h : p.Labelled) :
    p.IsLoose l ↔ ∀ a, ¬ p.forest.Lists a l := by
  constructor
  · rintro ⟨-, hlisted⟩ a ha
    exact hlisted a (h.mem_children.mpr ha)
  · intro hlists
    refine ⟨?_, fun a ha => hlists a (h.mem_children.mp ha)⟩
    rw [Option.eq_none_iff_forall_ne_some]
    intro n hn
    obtain ⟨hmem, hl⟩ := h.parent?_eq_some_iff.mp hn
    exact hlists n.label ⟨n, hmem, rfl, hl⟩

/-! ### What a change keeps -/

/-- The page `q` came from `p` by changes that give no label twice, give no node of `p` another
parent and make no other element of it. -/
structure Follows (p q : Page) : Prop where
  labelled : q.Labelled
  next_le : p.next ≤ q.next
  lists : ∀ {a c}, c < p.next → q.forest.Lists a c → p.forest.Lists a c
  element : ∀ n ∈ q.forest.nodes, n.label < p.next →
    ∃ m ∈ p.forest.nodes, m.label = n.label ∧ m.item.element? = n.item.element?

namespace Follows

variable {p q r : Page}

theorem refl (h : p.Labelled) : p.Follows p :=
  ⟨h, Nat.le_refl _, fun _ h => h, fun n hn _ => ⟨n, hn, rfl, rfl⟩⟩

theorem trans (hpq : p.Follows q) (hqr : q.Follows r) : p.Follows r where
  labelled := hqr.labelled
  next_le := Nat.le_trans hpq.next_le hqr.next_le
  lists := fun hc h => hpq.lists hc (hqr.lists (Nat.lt_of_lt_of_le hc hpq.next_le) h)
  element := by
    intro n hn hlt
    obtain ⟨m, hm, hlabel, helement⟩ := hqr.element n hn (Nat.lt_of_lt_of_le hlt hpq.next_le)
    obtain ⟨k, hk, hlabel', helement'⟩ := hpq.element m hm (hlabel ▸ hlt)
    exact ⟨k, hk, hlabel'.trans hlabel, helement'.trans helement⟩

end Follows

section Changes

variable {p : Page} {l : Nat} {n : Node}

theorem Labelled.of_perm {q : Page} (h : p.Labelled)
    (hperm : q.forest.preorder.Perm p.forest.preorder) (hnext : q.next = p.next)
    (hfirst : ∃ body rest, q.forest = .cons root .document body rest) : q.Labelled where
  nodup := hperm.nodup_iff.mpr h.nodup
  lt_next := fun l hl => hnext ▸ h.lt_next l (hperm.mem_iff.mp hl)
  document_first := hfirst

theorem Labelled.updateBelow_first (h : p.Labelled) (l : Nat) (u : Forest → Forest) :
    ∃ body rest, p.forest.updateBelow l u = .cons root .document body rest := by
  obtain ⟨body, rest, hforest⟩ := h.document_first
  rw [hforest, Forest.updateBelow]
  split
  · exact ⟨_, _, rfl⟩
  · exact ⟨_, _, rfl⟩

/-- Taking a node out of its tree. -/
theorem follows_detach (h : p.Labelled) (l : Nat) : p.Follows (p.detach l) := by
  rw [detach]
  split
  · next _ n hparent hnode =>
    have hmem := (h.node?_eq_some_iff.mp hnode).1
    have hroot : root ≠ l := by
      rintro rfl
      rw [h.parent?_root] at hparent
      cases hparent
    constructor
    · refine h.of_perm ?_ rfl ?_
      · rw [Forest.preorder_append]
        exact (Forest.preorder_without h.nodup hnode).symm
      · obtain ⟨body, rest, hforest⟩ := h.document_first
        refine ⟨body.without l, rest.without l ++ n.toForest, ?_⟩
        rw [hforest, Forest.without, if_neg hroot, Forest.cons_append]
    · exact Nat.le_refl _
    · intro a c _ hlists
      rcases Forest.lists_append.mp hlists with hlists | hlists
      · exact (Forest.lists_without hlists).1
      · rw [Node.toForest, Forest.lists_cons] at hlists
        rcases hlists with ⟨hlabel, hc⟩ | hlists | hlists
        · exact ⟨n, hmem, hlabel, hc⟩
        · exact Forest.lists_of_mem_nodes hmem hlists
        · exact absurd hlists Forest.not_lists_nil
    · intro m hm _
      rw [Forest.nodes_append, List.mem_append] at hm
      rcases hm with hm | hm
      · obtain ⟨k, hk, rfl⟩ := Forest.mem_nodes_without hm
        exact ⟨k, hk, rfl, rfl⟩
      · exact ⟨m, Forest.nodes_toForest_subset hmem hm, rfl, rfl⟩
  · exact .refl h

/-- Taking the children out of a node. -/
theorem follows_clear (h : p.Labelled) (l : Nat) : p.Follows (p.clear l) := by
  rw [clear]
  split
  · next n hnode =>
    have hmem := (h.node?_eq_some_iff.mp hnode).1
    constructor
    · refine h.of_perm ?_ rfl ?_
      · have hperm := Forest.preorder_updateBelow (u := fun _ => .nil) h.nodup hnode
        rwa [Forest.preorder, List.append_nil, ← Forest.preorder_append] at hperm
      · obtain ⟨body, rest, hfirst⟩ := h.updateBelow_first l fun _ => .nil
        exact ⟨body, rest ++ n.below, by rw [hfirst, Forest.cons_append]⟩
    · exact Nat.le_refl _
    · intro a c _ hlists
      rcases Forest.lists_append.mp hlists with hlists | hlists
      · rcases Forest.lists_updateBelow hlists with hlists | ⟨m, -, -, hempty⟩
        · exact hlists
        · simp [Forest.rootLabels] at hempty
      · exact Forest.lists_of_mem_nodes hmem hlists
    · intro m hm _
      rcases List.mem_append.mp (Forest.nodes_append _ _ ▸ hm) with hm | hm
      · rcases Forest.mem_nodes_updateBelow hm with ⟨k, hk, hlabel, hitem, -⟩ | ⟨k, -, -, hempty⟩
        · exact ⟨k, hk, hlabel, by rw [hitem]⟩
        · simp [Forest.nodes] at hempty
      · exact ⟨m, (Forest.nodes_below_sublist hmem).subset hm, rfl, rfl⟩
  · exact .refl h

/-- Putting copies of trees somewhere among the children of a node. -/
theorem follows_graft {u : Forest → Forest} (h : p.Labelled) (l : Nat) (f : Forest)
    (hu : ∀ b, ∃ before after, b = before ++ after ∧
      u b = before ++ ((f.relabel p.next).1 ++ after)) :
    p.Follows ⟨p.forest.updateBelow l u, (f.relabel p.next).2⟩ := by
  have hnext := f.relabel_snd p.next
  have hnew := f.preorder_relabel p.next
  have hfirst := h.updateBelow_first l u
  generalize f.relabel p.next = fresh at hnext hnew hu
  obtain ⟨g, next⟩ := fresh
  simp only at hnext hnew hu ⊢
  have hge {k : Nat} (hk : k ∈ g.preorder) : p.next ≤ k ∧ k < next := by
    rw [hnew, List.mem_range'_1] at hk
    omega
  have hlabels := Forest.preorder_graft hu h.nodup l
  constructor
  · constructor
    · rcases hlabels with hperm | hperm
      · exact hperm.nodup_iff.mpr h.nodup
      · refine hperm.nodup_iff.mpr (List.nodup_append.mpr ⟨h.nodup, ?_, ?_⟩)
        · rw [hnew]
          exact List.nodup_range'
        · rintro a ha b hb rfl
          exact Nat.lt_irrefl _ (Nat.lt_of_lt_of_le (h.lt_next a ha) (hge hb).1)
    · intro k hk
      have hold (hk : k ∈ p.forest.preorder) : k < next := by
        have := h.lt_next k hk
        omega
      rcases hlabels with hperm | hperm
      · exact hold (hperm.mem_iff.mp hk)
      · rcases List.mem_append.mp (hperm.mem_iff.mp hk) with hk | hk
        · exact hold hk
        · exact (hge hk).2
    · exact hfirst
  · simp only
    omega
  · intro a c hc hlists
    have hold : c ∉ g.preorder := fun hg => Nat.lt_irrefl _ (Nat.lt_of_lt_of_le hc (hge hg).1)
    rcases Forest.lists_graft hu hlists with hlists | ⟨-, hroot⟩ | hlists
    · exact hlists
    · exact absurd ((Forest.rootLabels_sublist _).subset hroot) hold
    · exact absurd hlists.mem_preorder hold
  · intro n hn hlt
    rcases Forest.mem_nodes_graft hu hn with ⟨m, hm, hlabel, hitem, -⟩ | hput
    · exact ⟨m, hm, hlabel, by rw [hitem]⟩
    · have := (hge (Forest.label_mem_preorder hput)).1
      omega

theorem follows_append (h : p.Labelled) (l : Nat) (f : Forest) : p.Follows (p.append l f) := by
  rw [append]
  exact follows_graft h l f fun b => ⟨b, .nil, by simp, by simp⟩

theorem follows_insertAfterFirstElement (h : p.Labelled) (l : Nat) (f : Forest) :
    p.Follows (p.insertAfterFirstElement l f) := by
  rw [insertAfterFirstElement]
  exact follows_graft h l f fun b => Forest.exists_insertAfterFirstElement _ b

/-- The texts of a forest in which a text was replaced wherever it occurs. -/
theorem Forest.texts_mapItems_replaceText (old new : String) (f : Forest) :
    ((f.mapItems (Item.replaceText old new)).texts.map String.toList) =
      (f.texts.map String.toList).map (Text.replace old.toList new.toList) := by
  induction f with
  | nil => rfl
  | cons l i below next _ ih =>
    rw [mapItems, texts_cons, texts_cons, List.map_append, List.map_append, List.map_append, ih]
    cases i with
    | text s => simp [Item.replaceText, Item.text?]
    | _ => rfl

theorem follows_replaceTextBelow (h : p.Labelled) (l : Nat) (old new : String) :
    p.Follows (p.replaceTextBelow l old new) := by
  rw [replaceTextBelow]
  constructor
  · refine h.of_perm ?_ rfl (h.updateBelow_first _ _)
    cases hnode : p.node? l with
    | none => rw [Forest.updateBelow_eq_self (Forest.find?_eq_none_iff.mp hnode)]
    | some n =>
      refine (List.perm_append_right_iff n.below.preorder).mp ?_
      refine (Forest.preorder_updateBelow h.nodup hnode).trans ?_
      rw [Forest.preorder_mapItems]
  · exact Nat.le_refl _
  · intro a c _ hlists
    rcases Forest.lists_updateBelow hlists with hlists | ⟨m, hm, hlabel, hput⟩
    · exact hlists
    · rw [Forest.rootLabels_mapItems, Forest.lists_mapItems] at hput
      rcases hput with ⟨rfl, hroot⟩ | hinside
      · exact ⟨m, hm, hlabel, hroot⟩
      · exact Forest.lists_of_mem_nodes hm hinside
  · intro n hn _
    rcases Forest.mem_nodes_updateBelow hn with ⟨m, hm, hlabel, hitem, -⟩ | ⟨m, hm, -, hput⟩
    · exact ⟨m, hm, hlabel, by rw [hitem]⟩
    · obtain ⟨k, hk, hlabel, hitem, -⟩ := Forest.mem_nodes_mapItems hput
      refine ⟨k, (Forest.nodes_below_sublist hm).subset hk, hlabel, ?_⟩
      rw [← hitem]
      cases k.item <;> rfl

theorem follows_replaceText (h : p.Labelled) (old new : String) :
    p.Follows (p.replaceText old new) := follows_replaceTextBelow h root old new

end Changes

/-! ### Changes one after the other -/

/-- The ways to change a page.  Trees that are put into it are copies with new labels, whether they
are made for the purpose or stand in the page already. -/
inductive Change where
  | detach (l : Nat)
  | clear (l : Nat)
  | append (l : Nat) (f : Forest)
  | insertAfterFirstElement (l : Nat) (f : Forest)
  | replaceText (old new : String)

/-- The page after a change. -/
def Change.apply : Change → Page → Page
  | detach l, p => p.detach l
  | clear l, p => p.clear l
  | append l f, p => p.append l f
  | insertAfterFirstElement l f, p => p.insertAfterFirstElement l f
  | replaceText old new, p => p.replaceText old new

section Change

variable {p : Page}

/-- **What one change keeps.** -/
theorem Change.follows (h : p.Labelled) (c : Change) : p.Follows (c.apply p) := by
  cases c with
  | detach l => exact follows_detach h l
  | clear l => exact follows_clear h l
  | append l f => exact follows_append h l f
  | insertAfterFirstElement l f => exact follows_insertAfterFirstElement h l f
  | replaceText old new => exact follows_replaceText h old new

theorem node?_clear {l : Nat} {n : Node} (hn : p.node? l = some n) :
    (p.clear l).node? l = some { n with below := .nil } := by
  rw [clear, hn, node?, Forest.find?_append, Forest.find?_updateBelow hn]
  rfl

end Change

/-- Any number of changes. -/
def Leads (p q : Page) : Prop := Relation.ReflTransGen (fun p q => ∃ c : Change, q = c.apply p) p q

namespace Leads

variable {p q r : Page}

theorem refl (p : Page) : p.Leads p := Relation.ReflTransGen.refl

theorem trans (hpq : p.Leads q) (hqr : q.Leads r) : p.Leads r := Relation.ReflTransGen.trans hpq hqr

theorem single (p : Page) (c : Change) : p.Leads (c.apply p) :=
  Relation.ReflTransGen.single ⟨c, rfl⟩

/-- What a number of changes keeps. -/
theorem follows (hp : p.Labelled) (h : p.Leads q) : p.Follows q := by
  induction h with
  | refl => exact .refl hp
  | tail _ hstep ih =>
    obtain ⟨c, rfl⟩ := hstep
    exact ih.trans (c.follows ih.labelled)

end Leads

/-! ### Revisions -/

section Revisions

theorem leads_detachAll (ns : List Node) (p : Page) : p.Leads (p.detachAll ns) := by
  induction ns generalizing p with
  | nil => exact .refl p
  | cons n ns ih => exact (Leads.single p (.detach n.label)).trans (ih _)

theorem leads_append (l : Nat) (f : Forest) (p : Page) : p.Leads (p.append l f) :=
  .single p (.append l f)

theorem leads_removeMoreLinks (limit : Nat) (p : Page) : p.Leads (p.removeMoreLinks limit) :=
  leads_detachAll _ p

theorem leads_promote (p : Page) : p.Leads p.promote := by
  rw [promote]
  cases h : p.promote? with
  | none => exact .refl p
  | some q =>
    obtain ⟨content, -, h⟩ := Option.bind_eq_some_iff.mp h
    obtain ⟨table, -, rfl⟩ := Option.map_eq_some_iff.mp h
    exact .single p (.insertAfterFirstElement table.rowContainer.label (promotedRows content))

theorem leads_labelTables (urls : Urls) (ls : List Nat) (p : Page) :
    p.Leads (labelTables urls ls p).1 := by
  induction ls generalizing p with
  | nil => exact .refl p
  | cons l ls ih =>
    rw [labelTables]
    split
    · exact .refl p
    · exact ih p
    · next label owner _ =>
      exact ((Leads.single p (.clear label.label)).trans (leads_append _ _ _)).trans (ih _)

theorem leads_label (urls : Urls) (p : Page) : p.Leads (p.label urls).1 :=
  leads_labelTables urls _ p

theorem leads_setText (l : Nat) (s : String) (p : Page) : p.Leads (p.setText l s) :=
  (Leads.single p (.clear l)).trans (leads_append l (.ofText s) _)

theorem leads_summarise (l : Nat) (cells : List Node) (returns : String) (p : Page) :
    p.Leads (p.summarise l cells returns) := by
  rw [summarise]
  split
  · simp only
    split
    · refine (leads_detachAll (cells.filter (·.hasClass "td" "paramtype")) p).trans ?_
      exact leads_append _ _ _
    · exact leads_detachAll _ p
  · exact .refl p

theorem leads_cleanTable? {l : Nat} {p q : Page} (h : p.cleanTable? l = some q) : p.Leads q := by
  obtain ⟨table, -, h⟩ := Option.bind_eq_some_iff.mp h
  split at h
  · obtain ⟨m, -, rfl⟩ := Option.map_eq_some_iff.mp h
    simp only
    split
    · exact (leads_setText _ _ p).trans (leads_summarise _ _ _ _)
    · exact leads_summarise _ _ _ p
  · cases h

theorem leads_cleanTables (ls : List Nat) (p : Page) : p.Leads (cleanTables ls p).1 := by
  induction ls generalizing p with
  | nil => exact .refl p
  | cons l ls ih =>
    rw [cleanTables]
    split
    · next q hq => exact (leads_cleanTable? hq).trans (ih q)
    · exact ih p

theorem leads_clean (p : Page) : p.Leads p.clean.1 := leads_cleanTables _ p

/-- The page in which the entries of the marker are looked for. -/
def prepared (p : Page) : Page :=
  ((p.removeMoreLinks 2).replaceText "Public Member Function" "Member Function").replaceText
    "More..." "[details]"

theorem leads_prepared (p : Page) : p.Leads p.prepared :=
  ((leads_removeMoreLinks 2 p).trans (.single _ (.replaceText _ _))).trans
    (.single _ (.replaceText _ _))

/-- The page with the documentation of the marker copied and the labels completed, as far as
possible. -/
def completed (p : Page) : Page × Except RevisionError Nat :=
  p.prepared.promote.label p.prepared.promote.classUrls

theorem leads_completed (p : Page) : p.prepared.Leads p.completed.1 :=
  (leads_promote _).trans (leads_label _ _)

theorem revise_of_error {p : Page} {e : RevisionError} (h : p.completed.2 = .error e) :
    p.revise.page = p.completed.1 ∧ p.revise.error = some e := by
  simp only [completed, prepared] at h
  simp only [revise, completed, prepared]
  split
  · next he =>
    rw [he] at h ⊢
    cases h
    exact ⟨rfl, rfl⟩
  · next he =>
    rw [he] at h
    cases h

theorem revise_of_ok {p : Page} {k : Nat} (h : p.completed.2 = .ok k) :
    p.revise.page = p.completed.1.clean.1.detachAll p.prepared.markerNodes ∧
      p.revise.error = none := by
  simp only [completed, prepared] at h
  simp only [revise, completed, prepared]
  split
  · next he =>
    rw [he] at h
    cases h
  · next he => exact ⟨by rw [he], rfl⟩

theorem leads_revise (p : Page) : p.Leads p.revise.page := by
  have hcompleted := (leads_prepared p).trans (leads_completed p)
  cases h : p.completed.2 with
  | error e =>
    rw [(revise_of_error h).1]
    exact hcompleted
  | ok k =>
    rw [(revise_of_ok h).1]
    exact (hcompleted.trans (leads_clean _)).trans (leads_detachAll _ _)

end Revisions

end BindingDocs.Page
