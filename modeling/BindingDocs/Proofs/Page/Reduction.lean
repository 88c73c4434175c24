import BindingDocs.Proofs.Page.SummaryRow

/-!
# Reducing one signature table

A table that holds one signature keeps the name of the member in its first cell.  If it has a name
for each type, the cells with the types are taken out, and a row with a summary is put where the
rows of the table are kept.  All of this happens in the table, so that every node of the page can be
given as it is afterwards: it felt the three changes, or it stands apart from the table and is as it
was.

## Main definitions

* `Reduces` — a table that is reduced, with its first cell and its signature.
* `reduce` — the page after that, and `Node.reduced` a node of it.
* `Apart` — two nodes of which none stands below the other.

## Main results

* `cleanTable?_eq_some_iff` — **which tables are reduced, and to what.**
* `node?_reduce` — **every node afterwards.**
* `Reduces.node?_first` — the first cell afterwards.
* `Reduces.mem_below` — what stays below a node.
* `Reduces.reduced_of_apart` — a node that stands apart from the table.
-/

namespace BindingDocs.Page

open Page (Forest Item Node)

/-! ### The table and the page afterwards -/

/-- A table that is reduced: it holds one signature, which names a class, and it has a first
cell. -/
structure Reduces (table first : Node) (signature : String) (m : Member) : Prop where
  signatures : signatureNames table = [signature]
  parsed : Member.parse? signature.toList = some m
  head : (table.elements "td").head? = some first

/-- The cells with the types of arguments. -/
def typeCells (table : Node) : List Node :=
  (table.elements "td").filter (·.hasClass "td" "paramtype")

/-- The cells with the names of arguments. -/
def nameCells (table : Node) : List Node :=
  (table.elements "td").filter (·.hasClass "td" "paramname")

/-- Whether a table gets a summary: it has as many types as names. -/
def HasSummary (table : Node) : Prop := (typeCells table).length = (nameCells table).length

instance (table : Node) : Decidable (HasSummary table) :=
  inferInstanceAs (Decidable (_ = _))

section Definitions

variable (p : Page) (table first : Node) (m : Member)

/-- The page with the name of the member in the first cell. -/
def named : Page := p.setText first.label (String.ofList m.name)

/-- The summary of the table. -/
def summary : Forest :=
  summaryRow (table.elements "td").length ((p.named first m).refresh (nameCells table))
    ((p.named first m).refresh (typeCells table)) (String.ofList m.returns)

/-- The page after the table was reduced. -/
def reduce : Page :=
  if HasSummary table then
    ((p.named first m).detachAll (typeCells table)).append table.rowContainer.label
      (p.summary table first m)
  else p.named first m

/-- The name as it stands in the page. -/
def nameTree : Forest := .cons p.next (.text (String.ofList m.name)) .nil .nil

/-- The summary as it stands in the page. -/
def summaryTree : Forest := ((p.summary table first m).relabel (p.next + 1)).1

end Definitions

/-- A node of the page after the table was reduced. -/
def Node.reduced (n : Node) (p : Page) (table first : Node) (m : Member) : Node :=
  if HasSummary table then
    ((n.updateBelow first.label fun _ => p.nameTree m).withoutAll (typeCells table)).updateBelow
      table.rowContainer.label (· ++ p.summaryTree table first m)
  else n.updateBelow first.label fun _ => p.nameTree m

section Steps

variable {p q : Page} {table first n : Node} {signature : String} {m : Member} {l : Nat}

/-! ### The cells of the table -/

theorem eq_of_hasClass {tag cls cls' : String} (h : n.hasClass tag cls = true)
    (h' : n.hasClass tag cls' = true) : cls = cls' := by
  rw [Node.hasClass, Bool.and_eq_true, beq_iff_eq] at h h'
  exact Option.some.inj (h.2.symm.trans h'.2)

theorem mem_typeCells {cell : Node} (h : cell ∈ typeCells table) :
    cell ∈ table.below.nodes ∧ cell.isElement "td" = true ∧
      cell.hasClass "td" "paramtype" = true := by
  obtain ⟨hcell, hclass⟩ := List.mem_filter.mp h
  obtain ⟨hbelow, htd⟩ := Node.mem_elements_iff.mp hcell
  exact ⟨hbelow, htd, hclass⟩

theorem Reduces.first_mem (h : Reduces table first signature m) :
    first ∈ table.below.nodes ∧ first.isElement "td" = true :=
  Node.mem_elements_iff.mp (List.mem_of_head? h.head)

/-- A table with a signature has a first cell. -/
theorem exists_first (h : signatureNames table = [signature]) :
    ∃ first, (table.elements "td").head? = some first := by
  cases hcells : table.elements "td" with
  | nil =>
    rw [signatureNames, hcells] at h
    cases h
  | cons first cells => exact ⟨first, rfl⟩

theorem rowContainer_label_mem (table : Node) :
    table.rowContainer.label ∈ table.toForest.preorder := by
  rw [Node.mem_toForest_iff]
  rcases rowContainer_mem table with heq | ⟨hroot, -⟩
  · exact Or.inl (by rw [heq])
  · exact Or.inr (Forest.label_mem_preorder (Forest.roots_subset_nodes hroot))

/-- The first cell keeps no rows. -/
theorem Reduces.first_ne_rowContainer (hnodup : table.toForest.preorder.Nodup)
    (h : Reduces table first signature m) : first.label ≠ table.rowContainer.label := by
  obtain ⟨hfirst, htd⟩ := h.first_mem
  have htable : table ∈ table.toForest.nodes := by simp [Node.toForest, Forest.nodes]
  rcases rowContainer_mem table with heq | ⟨hroot, hbody⟩
  · rw [heq]
    intro hlabel
    exact Forest.label_notMem_below hnodup htable (hlabel ▸ Forest.label_mem_preorder hfirst)
  · intro hlabel
    have hsub : table.below.nodes ⊆ table.toForest.nodes := fun n hn => by
      simp [Node.toForest, Forest.nodes, hn]
    have heq := Forest.eq_of_label_eq hnodup (hsub hfirst)
      (hsub (Forest.roots_subset_nodes hroot)) hlabel
    rw [← heq] at hbody
    exact absurd (eq_of_isElement htd hbody) (by decide)

section Step

variable (hp : p.Labelled) (htable : table ∈ p.forest.nodes) (h : Reduces table first signature m)

include hp htable

theorem nodup_toForest : table.toForest.preorder.Nodup := by
  have hself := Forest.label_notMem_below hp.nodup htable
  have hbelow := hp.nodup.sublist (Forest.preorder_below_sublist htable)
  simpa [Node.toForest, Forest.preorder] using ⟨hself, hbelow⟩

include h

omit hp in
theorem Reduces.first_mem_forest : first ∈ p.forest.nodes :=
  (Forest.nodes_below_sublist htable).subset h.first_mem.1

theorem Reduces.table_ne_first : table.label ≠ first.label := by
  intro heq
  have hbelow := Forest.label_mem_preorder h.first_mem.1
  exact Forest.label_notMem_below hp.nodup htable (heq ▸ hbelow)

theorem Reduces.node?_named (hl : l < p.next) : (p.named first m).node? l =
    (p.node? l).map (Node.updateBelow first.label fun _ => p.nameTree m) :=
  hp.node?_setText (Forest.label_mem_preorder (h.first_mem_forest htable)) _ hl

/-- Rows are kept in the same place after the cells with the types were taken out. -/
theorem Reduces.label_rowContainer :
    ((table.updateBelow first.label fun _ => p.nameTree m).withoutAll
      (typeCells table)).rowContainer.label = table.rowContainer.label := by
  have hne := h.table_ne_first hp htable
  rw [Node.label_rowContainer_withoutAll, Node.label_rowContainer_updateBelow hne]
  intro cell hcell r hr hlabel
  obtain ⟨hbelow, htd, -⟩ := mem_typeCells hcell
  rw [Node.updateBelow, if_neg hne] at hr
  have hplace : r.place ∈ table.below.roots.map Node.place :=
    Forest.map_place_roots_updateBelow first.label _ table.below ▸ List.mem_map_of_mem hr
  obtain ⟨r', hr', heq⟩ := List.mem_map.mp hplace
  have hmem := (Forest.nodes_below_sublist htable).subset hbelow
  have hmem' := (Forest.nodes_below_sublist htable).subset (Forest.roots_subset_nodes hr')
  obtain rfl := Forest.eq_of_label_eq hp.nodup hmem' hmem ((Prod.mk.inj heq).1.trans hlabel)
  rw [← isElement_eq heq, ← Bool.not_eq_true]
  exact fun hbody => absurd (eq_of_isElement htd hbody) (by decide)

theorem Reduces.summarise_named :
    (p.named first m).summarise table.label (table.elements "td") (String.ofList m.returns) =
      p.reduce table first m := by
  have hnamed := ((leads_setText first.label (String.ofList m.name) p).follows hp).labelled
  have hnode := hnamed.node?_detachAll (typeCells table) table.label
  rw [← named, h.node?_named hp htable (hp.label_lt_next htable),
    hp.node?_label htable, Option.map_some, Option.map_some] at hnode
  rw [reduce, summarise]
  by_cases hsummary : HasSummary table
  · rw [if_pos hsummary, ← h.label_rowContainer hp htable]
    refine (if_pos hsummary).trans ?_
    rw [detachAll, typeCells] at hnode
    simp only [hnode]
    rfl
  · rw [if_neg hsummary]
    exact if_neg hsummary

theorem Reduces.cleanTable? : p.cleanTable? table.label = some (p.reduce table first m) := by
  rw [Page.cleanTable?, hp.node?_label htable, Option.bind_some, h.signatures]
  simp only [h.parsed, h.head, Option.map_some]
  rw [← h.summarise_named hp htable]
  rfl

end Step

/-- **Which tables are reduced, and to what.** -/
theorem cleanTable?_eq_some_iff (hp : p.Labelled) : p.cleanTable? l = some q ↔
    ∃ table first signature m, p.node? l = some table ∧ Reduces table first signature m ∧
      q = p.reduce table first m := by
  constructor
  · intro hq
    obtain ⟨table, hnode, hclean⟩ := Option.bind_eq_some_iff.mp hq
    obtain ⟨htable, rfl⟩ := hp.node?_eq_some_iff.mp hnode
    split at hclean
    · next signature hsignatures =>
      obtain ⟨m, hm, -⟩ := Option.map_eq_some_iff.mp hclean
      obtain ⟨first, hfirst⟩ := exists_first hsignatures
      have h : Reduces table first signature m := ⟨hsignatures, hm, hfirst⟩
      rw [h.cleanTable? hp htable] at hq
      exact ⟨table, first, signature, m, hnode, h, (Option.some.inj hq).symm⟩
    · cases hclean
  · rintro ⟨table, first, signature, m, hnode, h, rfl⟩
    obtain ⟨htable, rfl⟩ := hp.node?_eq_some_iff.mp hnode
    exact h.cleanTable? hp htable

/-! ### Every node afterwards -/

section Nodes

variable (hp : p.Labelled) (htable : table ∈ p.forest.nodes) (h : Reduces table first signature m)

include hp

/-- A name holds no elements. -/
theorem addsNo_named (tag : String) (first : Node) (m : Member) :
    AddsNo tag p (p.named first m) := by
  have hclear := follows_clear hp first.label
  have hname : (Forest.ofText (String.ofList m.name)).Lacks tag := Forest.lacks_ofText _
  have hput := AddsNo.append hclear.labelled first.label hname
  exact (AddsNo.of_next_eq hclear (next_clear _ _)).trans hput

theorem addsNo_detachAll (tag : String) (ds : List Node) : AddsNo tag p (p.detachAll ds) :=
  .of_next_eq ((leads_detachAll ds p).follows hp) (next_detachAll ds p)

/-- **No tables are made.** -/
theorem addsNo_reduce (table first : Node) (m : Member) :
    AddsNo "table" p (p.reduce table first m) := by
  have hnamed := addsNo_named hp "table" first m
  have hdetach := addsNo_detachAll hnamed.labelled "table" (typeCells table)
  rw [reduce]
  split
  · refine (hnamed.trans hdetach).trans (AddsNo.append hdetach.labelled _ ?_)
    exact lacks_summaryRow (by decide) (by decide) (by decide) _ _ _ _
  · exact hnamed

include htable h

/-- **Every node after a table was reduced.** -/
theorem Reduces.node?_reduce (hl : l < p.next) : (p.reduce table first m).node? l =
    (p.node? l).map fun n => n.reduced p table first m := by
  have hnamed := (addsNo_named hp "table" first m).labelled
  have hdetach := (addsNo_detachAll hnamed "table" (typeCells table)).labelled
  have hnode := h.node?_named hp htable hl
  have hnext : ((p.named first m).detachAll (typeCells table)).next = p.next + 1 := by
    rw [next_detachAll, named, next_setText]
  rw [reduce]
  simp only [Node.reduced]
  split
  · rw [hdetach.node?_append _ _ (by omega), hnamed.node?_detachAll, hnode, Option.map_map,
      Option.map_map, hnext]
    rfl
  · exact hnode

theorem Reduces.node?_reduce_label (hn : n ∈ p.forest.nodes) :
    (p.reduce table first m).node? n.label = some (n.reduced p table first m) := by
  rw [h.node?_reduce hp htable (hp.label_lt_next hn), hp.node?_label hn]
  rfl

omit hp htable h in
@[simp] theorem label_reduced (n : Node) (p : Page) (table first : Node) (m : Member) :
    (n.reduced p table first m).label = n.label := by
  rw [Node.reduced]
  split <;> simp

omit hp htable h in
@[simp] theorem item_reduced (n : Node) (p : Page) (table first : Node) (m : Member) :
    (n.reduced p table first m).item = n.item := by
  rw [Node.reduced]
  split <;> simp

/-- No label is lost. -/
theorem Reduces.mem_preorder (hl : l ∈ p.forest.preorder) :
    l ∈ (p.reduce table first m).forest.preorder := by
  obtain ⟨n, hn, rfl⟩ := Forest.exists_node_of_mem_preorder hl
  have hnode := h.node?_reduce_label hp htable hn
  have hkept := ((addsNo_reduce hp table first m).labelled.node?_eq_some_iff.mp hnode).1
  exact label_reduced n p table first m ▸ Forest.label_mem_preorder hkept

/-- The first cell is in no other cell of the table. -/
theorem Reduces.first_notMem {cell : Node} (hcell : cell ∈ table.elements "td") :
    first.label ∉ cell.below.preorder := by
  have hnodup := hp.nodup.sublist (Forest.preorder_below_sublist htable)
  have hpairwise := (Forest.pairwise_notMem_below hnodup).filter (·.isElement "td")
  obtain ⟨cells, hcells⟩ := List.head?_eq_some_iff.mp h.head
  have hfilter : table.below.nodes.filter (·.isElement "td") = first :: cells := by
    rw [← hcells, Node.elements, Node.descendants, Forest.walk_eq_nodes]
  rw [hfilter, List.pairwise_cons] at hpairwise
  rw [hcells, List.mem_cons] at hcell
  rcases hcell with rfl | hcell
  · exact Forest.label_notMem_below hp.nodup (h.first_mem_forest htable)
  · exact hpairwise.1 cell hcell

/-- **What stays below a node**: what stands neither below the first cell nor in a cell with a
type. -/
theorem Reduces.mem_below (hn : n ∈ p.forest.nodes) (hl : l ∈ n.below.preorder)
    (hfirst : l ∉ first.below.preorder)
    (hcells : ∀ cell ∈ typeCells table, l ∉ cell.toForest.preorder) :
    l ∈ (n.reduced p table first m).below.preorder := by
  have hlt := hp.lt_next l ((Forest.preorder_below_sublist hn).subset hl)
  have hfirstmem := h.first_mem_forest htable
  -- a node at the label of the first cell is the first cell
  have honly : ∀ k ∈ p.forest.nodes, k.label = first.label → l ∉ k.below.preorder := by
    intro k hk hlabel
    rwa [Forest.eq_of_label_eq hp.nodup hk hfirstmem hlabel]
  have hnamed : l ∈ (n.updateBelow first.label fun _ => p.nameTree m).below.preorder := by
    rw [Node.updateBelow]
    split
    · next heq => exact absurd hl (honly n hn heq)
    · exact Forest.mem_preorder_updateBelow hl fun k hk hlabel hbelow =>
        absurd hbelow (honly k ((Forest.nodes_below_sublist hn).subset hk) hlabel)
  rw [Node.reduced]
  split
  · refine Node.mem_below_append (Node.mem_below_withoutAll hnamed ?_ ?_) _ _
    · intro cell hcell heq
      exact hcells cell hcell (Node.mem_toForest_iff.mpr (Or.inl heq))
    · intro cell hcell k hk hlabel hbelow
      have hnode := h.node?_named hp htable (hp.label_lt_next hn)
      rw [hp.node?_label hn, Option.map_some] at hnode
      have hfollows := (addsNo_named hp "table" first m).toFollows
      have hkmem := (Forest.nodes_below_sublist
        (hfollows.labelled.node?_eq_some_iff.mp hnode).1).subset hk
      have hcellmem := (Forest.nodes_below_sublist htable).subset (mem_typeCells hcell).1
      have hold := hfollows.mem_below hp hkmem hcellmem hlabel.symm hlt hbelow
      exact hcells cell hcell (Node.mem_toForest_iff.mpr (Or.inr hold))
  · exact hnamed

/-- **What stays in the document**: everything outside the table. -/
theorem Reduces.mem_body (hl : l ∈ p.body.preorder) (hout : l ∉ table.below.preorder) :
    l ∈ (p.reduce table first m).body.preorder := by
  rw [body_of_node? (h.node?_reduce_label hp htable hp.document_mem)]
  refine h.mem_below hp htable hp.document_mem hl (fun hbelow => hout ?_) fun cell hcell hin => ?_
  · exact (Forest.preorder_below_sublist h.first_mem.1).subset hbelow
  · have hcell := (mem_typeCells hcell).1
    rcases Node.mem_toForest_iff.mp hin with rfl | hbelow
    · exact hout (Forest.label_mem_preorder hcell)
    · exact hout ((Forest.preorder_below_sublist hcell).subset hbelow)

/-- Cells that do not hold the first cell are the same when the summary is made. -/
theorem Reduces.refresh_named {cells : List Node} (hcells : ∀ cell ∈ cells,
    cell ∈ table.below.nodes ∧ first.label ∉ cell.toForest.preorder) :
    (p.named first m).refresh cells = cells := by
  rw [refresh, List.filterMap_eq_map_iff_forall_eq_some.mpr fun cell hcell => ?_, List.map_id]
  obtain ⟨hbelow, hfirst⟩ := hcells cell hcell
  have hmem := (Forest.nodes_below_sublist htable).subset hbelow
  rw [h.node?_named hp htable (hp.label_lt_next hmem), hp.node?_label hmem,
    Option.map_some, Node.updateBelow_eq_self hfirst, id]

/-- The first cell holds the name of the member and nothing else. -/
theorem Reduces.reduced_first :
    first.reduced p table first m = { first with below := p.nameTree m } := by
  have hfirstmem := h.first_mem_forest htable
  have hnext : ∀ n ∈ p.forest.nodes, n.label ∉ (p.nameTree m).preorder := by
    intro n hn hlabel
    have hlt := hp.label_lt_next hn
    rw [nameTree, Forest.preorder, Forest.preorder, List.append_nil, List.mem_singleton] at hlabel
    omega
  have hnamed : (first.updateBelow first.label fun _ => p.nameTree m) =
      { first with below := p.nameTree m } := by
    rw [Node.updateBelow, if_pos rfl]
  rw [Node.reduced, hnamed]
  split
  · rw [Node.withoutAll_eq_self, Node.updateBelow_eq_self]
    · rw [Node.mem_toForest_iff, not_or]
      refine ⟨(h.first_ne_rowContainer (nodup_toForest hp htable)).symm, ?_⟩
      exact hnext _ (rowContainer_mem_nodes htable)
    · intro cell hcell
      exact hnext _ ((Forest.nodes_below_sublist htable).subset (mem_typeCells hcell).1)
  · rfl

/-- The first cell stays below every node, if it is the cell of the signature. -/
theorem Reduces.first_mem_below (hclass : first.hasClass "td" "memname" = true)
    (hn : n ∈ p.forest.nodes) (hl : first.label ∈ n.below.preorder) :
    first.label ∈ (n.reduced p table first m).below.preorder := by
  have hfirstmem := h.first_mem_forest htable
  refine h.mem_below hp htable hn hl (Forest.label_notMem_below hp.nodup hfirstmem) ?_
  intro cell hcell hmem
  obtain ⟨hbelow, -, htype⟩ := mem_typeCells hcell
  rcases Node.mem_toForest_iff.mp hmem with heq | hin
  · have hcellmem := (Forest.nodes_below_sublist htable).subset hbelow
    rw [← Forest.eq_of_label_eq hp.nodup hfirstmem hcellmem heq] at htype
    exact absurd (eq_of_hasClass hclass htype) (by decide)
  · exact h.first_notMem hp htable (List.mem_of_mem_filter hcell) hin

end Nodes

/-! ### Nodes apart from the table -/

/-- None of two nodes is the other or stands below it. -/
structure Apart (p : Page) (a b : Nat) : Prop where
  ne : a ≠ b
  not_below : p.isDescendant a b = false
  not_above : p.isDescendant b a = false

theorem Labelled.isDescendant_eq_false_iff (hp : p.Labelled) (hn : n ∈ p.forest.nodes) :
    p.isDescendant l n.label = false ↔ l ∉ n.below.preorder := by
  rw [← Bool.not_eq_true, not_iff_not, hp.isDescendant_iff, hp.node?_label hn]
  simp

/-- Nodes that stand apart never come together. -/
theorem Follows.apart (hp : p.Labelled) (h : p.Follows q) {a b : Nat} (ha : a ∈ p.forest.preorder)
    (hb : b ∈ p.forest.preorder) (hapart : p.Apart a b) : q.Apart a b := by
  have hside {a b : Nat} (ha : a ∈ p.forest.preorder) (hb : b ∈ p.forest.preorder)
      (hnot : p.isDescendant a b = false) : q.isDescendant a b = false := by
    rw [← Bool.not_eq_true]
    intro hq
    obtain ⟨n, hn, hbelow⟩ := h.labelled.isDescendant_iff.mp hq
    obtain ⟨hnmem, rfl⟩ := h.labelled.node?_eq_some_iff.mp hn
    obtain ⟨k, hk, hlabel⟩ := Forest.exists_node_of_mem_preorder hb
    have hold := h.mem_below hp hnmem hk hlabel (hp.lt_next a ha) hbelow
    rw [← hlabel, hp.isDescendant_eq_false_iff hk] at hnot
    exact hnot hold
  exact ⟨hapart.ne, hside ha hb hapart.not_below, hside hb ha hapart.not_above⟩

/-- **A node that stands apart from the table is as it was.** -/
theorem Reduces.reduced_of_apart (hp : p.Labelled) (htable : table ∈ p.forest.nodes)
    (h : Reduces table first signature m) (hn : n ∈ p.forest.nodes)
    (hapart : p.Apart n.label table.label) : n.reduced p table first m = n := by
  have hout : ∀ l ∈ table.toForest.preorder, l ∉ n.toForest.preorder := by
    intro l htl hnl
    rcases Forest.eq_or_inside hp.nodup hn htable hnl htl with rfl | hin | hin
    · exact hapart.ne rfl
    · exact (hp.isDescendant_eq_false_iff htable).mp hapart.not_below
        (Forest.label_mem_preorder hin)
    · exact (hp.isDescendant_eq_false_iff hn).mp hapart.not_above (Forest.label_mem_preorder hin)
  have hin {k : Node} (hk : k ∈ table.below.nodes) : k.label ∈ table.toForest.preorder :=
    Node.mem_toForest_iff.mpr (Or.inr (Forest.label_mem_preorder hk))
  rw [Node.reduced, Node.updateBelow_eq_self (hout _ (hin h.first_mem.1))]
  split
  · rw [Node.withoutAll_eq_self, Node.updateBelow_eq_self (hout _ (rowContainer_label_mem table))]
    intro cell hcell hbelow
    exact hout _ (hin (mem_typeCells hcell).1) (Node.mem_toForest_iff.mpr (Or.inr hbelow))
  · rfl

/-! ### Signatures afterwards -/

theorem Forest.texts_append (f g : Forest) : (f ++ g).texts = f.texts ++ g.texts := by
  induction f with
  | nil => rfl
  | cons k i below next _ ih =>
    rw [cons_append, texts_cons, texts_cons, ih, List.append_assoc]

theorem Forest.signatures_append (f g : Forest) :
    (f ++ g).signatures = f.signatures ++ g.signatures := by
  rw [signatures, nodes_append, List.filter_append, List.flatMap_append, signatures, signatures]

theorem Forest.texts_without_sublist (d : Nat) (f : Forest) :
    (f.without d).texts.Sublist f.texts := by
  induction f with
  | nil => exact List.Sublist.refl _
  | cons k i below next _ ih =>
    rw [without, texts_cons]
    split
    · exact ih.trans (List.sublist_append_right _ _)
    · rw [texts_cons]
      exact ih.append_left _

theorem Forest.signatures_without_sublist (d : Nat) (f : Forest) :
    (f.without d).signatures.Sublist f.signatures := by
  induction f with
  | nil => exact List.Sublist.refl _
  | cons k i below next ihb ihn =>
    rw [without, signatures_cons]
    split
    · refine ihn.trans ?_
      exact (List.sublist_append_right _ _).trans (List.sublist_append_right _ _)
    · rw [signatures_cons]
      refine List.Sublist.append ?_ (ihb.append ihn)
      -- the class of a cell does not depend on what stands below it
      have hsame : Node.hasClass ⟨k, i, below.without d⟩ "td" "memname" =
          Node.hasClass ⟨k, i, below⟩ "td" "memname" := rfl
      rw [hsame]
      split
      · exact texts_without_sublist d below
      · exact List.Sublist.refl _

/-- Trees without signatures and texts add no signature. -/
theorem Forest.signatures_updateBelow_append {f g : Forest} (s : Nat) (hg : g.signatures = [])
    (htexts : g.texts = []) : (f.updateBelow s (· ++ g)).signatures = f.signatures := by
  induction f with
  | nil => rfl
  | cons k i below next ihb ihn =>
    have hsame (b : Forest) : Node.hasClass ⟨k, i, b⟩ "td" "memname" =
        Node.hasClass ⟨k, i, below⟩ "td" "memname" := rfl
    rw [updateBelow]
    split
    · have hput : (below ++ g).texts = below.texts := by
        rw [texts_append, htexts, List.append_nil]
      rw [signatures_cons, signatures_cons, hsame, hput, signatures_append, hg, List.append_nil]
    · rw [signatures_cons, signatures_cons, hsame, ihb, ihn, texts_updateBelow]

theorem signatureNames_updateBelow_append (n : Node) (s : Nat) {g : Forest}
    (hg : g.signatures = []) (htexts : g.texts = []) :
    signatureNames (n.updateBelow s (· ++ g)) = signatureNames n := by
  rw [signatureNames_eq, signatureNames_eq, Node.updateBelow]
  split
  · show (n.below ++ g).signatures = n.below.signatures
    rw [Forest.signatures_append, hg, List.append_nil]
  · exact Forest.signatures_updateBelow_append s hg htexts

theorem signatureNames_withoutAll_sublist (ds : List Node) (n : Node) :
    (signatureNames (n.withoutAll ds)).Sublist (signatureNames n) := by
  induction ds generalizing n with
  | nil => exact List.Sublist.refl _
  | cons d ds ih =>
    refine (ih (n.without d.label)).trans ?_
    rw [signatureNames_eq, signatureNames_eq]
    exact Forest.signatures_without_sublist d.label n.below

/-- A node that does not hold the first cell of the table gets no signatures. -/
theorem signatureNames_reduced_sublist (h : first.label ∉ n.toForest.preorder) :
    (signatureNames (n.reduced p table first m)).Sublist (signatureNames n) := by
  rw [Node.reduced, Node.updateBelow_eq_self h]
  split
  · rw [signatureNames_updateBelow_append]
    · exact signatureNames_withoutAll_sublist _ _
    · exact signatures_summaryRow _ _ _ _ _
    · rw [summaryTree, Forest.texts_relabel]
      rfl
  · exact List.Sublist.refl _

end Steps

end BindingDocs.Page
