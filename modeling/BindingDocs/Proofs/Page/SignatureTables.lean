import BindingDocs.Proofs.Page.Reduction

/-!
# Signature tables as they are rendered

The signature tables of a page are visited in document order, and each of them is judged on a page
on which others have been reduced already.  A table that stands apart from the others is the same
when its turn comes, and it is left alone afterwards.  So it can be said from the first page what
becomes of a table as the renderer writes it: its signature stands in its first cell, its cells
hold no cells, and no other signature table stands in it or around it.

## Main definitions

* `Page.signatureTables` — the tables that are visited.
* `Page.reduced` — the labels of those that are reduced.
* `Page.Turn` — a table when its turn comes.
* `IsPlain` — a signature table as it is rendered.

## Main results

* `snd_cleanTables`, `reduced_sublist` — the tables that are reduced are counted, each of them once.
* `Turn.exists_after` — what is visited after the turn of a table.
* `node?_cleanTables_of_apart` — what stands apart from all tables.
* `clean_plain` — **what becomes of a table as it is rendered.**
-/

namespace BindingDocs.Page

open Page (Forest Item Node)

/-! ### Visiting tables -/

/-- The signature tables of a page, in document order. -/
def signatureTables (p : Page) : List Node :=
  (p.elements "table").filter (·.hasClass "table" "memname")

theorem clean_eq (p : Page) : p.clean = cleanTables (p.signatureTables.map (·.label)) p := rfl

theorem mem_signatureTables_iff {p : Page} {n : Node} :
    n ∈ p.signatureTables ↔ n ∈ p.body.nodes ∧ n.hasClass "table" "memname" = true := by
  rw [signatureTables, List.mem_filter, mem_elements_iff, and_assoc]
  refine and_congr_right fun _ => ⟨And.right, fun h => ⟨isElement_of_hasClass h, h⟩⟩

/-- Which of the tables with these labels are reduced when they are visited in turn. -/
def reducedAmong : List Nat → Page → List Nat
  | [], _ => []
  | l :: rest, p =>
    match p.cleanTable? l with
    | some q => l :: reducedAmong rest q
    | none => reducedAmong rest p

/-- The labels of the signature tables that are reduced. -/
def reduced (p : Page) : List Nat := reducedAmong (p.signatureTables.map (·.label)) p

/-- The texts of a signature cell are signatures of the tables around it. -/
theorem directTexts_sublist {table cell : Node} (hcell : cell ∈ table.below.nodes)
    (hclass : cell.hasClass "td" "memname" = true) :
    cell.directTexts.Sublist (signatureNames table) := by
  have hmem : cell ∈ (table.elements "td").filter (·.hasClass "td" "memname") :=
    List.mem_filter.mpr ⟨Node.mem_elements_iff.mpr ⟨hcell, isElement_of_hasClass hclass⟩, hclass⟩
  obtain ⟨before, after, hsplit⟩ := List.append_of_mem hmem
  rw [signatureNames, hsplit, List.flatMap_append, List.flatMap_cons]
  exact (List.sublist_append_left _ _).trans (List.sublist_append_right _ _)

section Visits

variable {p q q' : Page} {ls ms : List Nat} {l c : Nat} {n : Node}

/-- One table, and then the others. -/
theorem cleanTables_cons_of_some (h : p.cleanTable? l = some q) (ls : List Nat) :
    cleanTables (l :: ls) p = ((cleanTables ls q).1, (cleanTables ls q).2 + 1) ∧
      reducedAmong (l :: ls) p = l :: reducedAmong ls q := by
  rw [cleanTables, reducedAmong, h]
  exact ⟨rfl, rfl⟩

theorem cleanTables_cons_of_none (h : p.cleanTable? l = none) (ls : List Nat) :
    cleanTables (l :: ls) p = cleanTables ls p ∧
      reducedAmong (l :: ls) p = reducedAmong ls p := by
  rw [cleanTables, reducedAmong, h]
  exact ⟨rfl, rfl⟩

/-- **The tables that are reduced are counted.** -/
theorem snd_cleanTables (ls : List Nat) (p : Page) :
    (cleanTables ls p).2 = (reducedAmong ls p).length := by
  induction ls generalizing p with
  | nil => rfl
  | cons l ls ih =>
    cases hclean : p.cleanTable? l with
    | some q =>
      obtain ⟨hrun, hreduced⟩ := cleanTables_cons_of_some hclean ls
      rw [hrun, hreduced, List.length_cons, ih]
    | none =>
      obtain ⟨hrun, hreduced⟩ := cleanTables_cons_of_none hclean ls
      rw [hrun, hreduced, ih]

theorem cleanTables_append (ls ms : List Nat) (p : Page) :
    (cleanTables (ls ++ ms) p).1 = (cleanTables ms (cleanTables ls p).1).1 ∧
      reducedAmong (ls ++ ms) p = reducedAmong ls p ++ reducedAmong ms (cleanTables ls p).1 := by
  induction ls generalizing p with
  | nil => exact ⟨rfl, rfl⟩
  | cons l ls ih =>
    rw [List.cons_append]
    cases hclean : p.cleanTable? l with
    | some q =>
      have hrun := cleanTables_cons_of_some hclean
      rw [(hrun _).1, (hrun _).2, (hrun ls).1, (hrun ls).2, (ih q).1, (ih q).2]
      exact ⟨rfl, rfl⟩
    | none =>
      have hrun := cleanTables_cons_of_none hclean
      rw [(hrun _).1, (hrun _).2, (hrun ls).1, (hrun ls).2]
      exact ih p

theorem reducedAmong_sublist (ls : List Nat) (p : Page) : (reducedAmong ls p).Sublist ls := by
  induction ls generalizing p with
  | nil => exact List.Sublist.refl _
  | cons l ls ih =>
    cases hclean : p.cleanTable? l with
    | some q =>
      rw [(cleanTables_cons_of_some hclean ls).2]
      exact (ih q).cons_cons l
    | none =>
      rw [(cleanTables_cons_of_none hclean ls).2]
      exact (ih p).cons l

theorem nodup_signatureTables (h : p.Labelled) : (p.signatureTables.map (·.label)).Nodup := by
  have hnodup := h.nodup_body
  rw [← Forest.map_label_nodes, ← descendants_eq] at hnodup
  exact hnodup.sublist ((List.filter_sublist.trans List.filter_sublist).map _)

/-- Each table is reduced once at most. -/
theorem nodup_reduced (h : p.Labelled) : p.reduced.Nodup :=
  (nodup_signatureTables h).sublist (reducedAmong_sublist _ p)

theorem pairwise_signatureTables (h : p.Labelled) :
    p.signatureTables.Pairwise fun a b => a.label ∉ b.below.preorder := by
  have hpairwise := Forest.pairwise_notMem_below h.nodup_body
  rw [← Forest.walk_eq_nodes] at hpairwise
  exact hpairwise.sublist (List.filter_sublist.trans List.filter_sublist)

theorem label_ne_of_signatureTables_eq (h : p.Labelled) {before after : List Node}
    (hsplit : p.signatureTables = before ++ n :: after) :
    ∀ other ∈ before ++ after, other.label ≠ n.label := by
  have hnodup := nodup_signatureTables h
  rw [hsplit, List.map_append, List.map_cons, List.nodup_middle, List.nodup_cons,
    ← List.map_append] at hnodup
  intro other hother heq
  exact hnodup.1 (heq ▸ List.mem_map_of_mem hother)

/-! ### Turns -/

/-- A signature table of the page `p` has its turn: `q` is the page by then, and `table` what it is
by then. -/
def Turn (p q : Page) (table : Node) : Prop :=
  ∃ before old after, p.signatureTables = before ++ old :: after ∧ old.label = table.label ∧
    q = (cleanTables (before.map (·.label)) p).1 ∧ q.node? table.label = some table

theorem Turn.follows (hp : p.Labelled) (h : Turn p q n) : p.Follows q ∧ n ∈ q.forest.nodes := by
  obtain ⟨before, old, after, -, -, rfl, hnode⟩ := h
  have hfollows := (leads_cleanTables (before.map (·.label)) p).follows hp
  exact ⟨hfollows, (hfollows.labelled.node?_eq_some_iff.mp hnode).1⟩

/-- **After the turn of a table**, other tables are visited, and none of them stands around it. -/
theorem Turn.exists_after (hp : p.Labelled) (h : Turn p q n)
    (hclean : q.cleanTable? n.label = some q') :
    ∃ after : List Node,
      (∀ other ∈ after, other ∈ p.signatureTables ∧ other.label ≠ n.label ∧
        n.label ∉ other.below.preorder) ∧
      p.clean.1 = (cleanTables (after.map (·.label)) q').1 ∧ n.label ∈ p.reduced := by
  obtain ⟨before, old, after, hsplit, hlabel, rfl, -⟩ := h
  rw [← hlabel] at hclean ⊢
  have hpairwise := pairwise_signatureTables hp
  rw [hsplit, List.pairwise_append, List.pairwise_cons] at hpairwise
  obtain ⟨hrun, hreduced⟩ :=
    cleanTables_append (before.map (·.label)) (old.label :: after.map (·.label)) p
  obtain ⟨hturn, hturnreduced⟩ := cleanTables_cons_of_some hclean (after.map (·.label))
  refine ⟨after, fun other hother => ⟨by simp [hsplit, hother], ?_, hpairwise.2.1.1 other hother⟩,
    ?_, ?_⟩
  · exact label_ne_of_signatureTables_eq hp hsplit other (List.mem_append_right _ hother)
  · rw [clean_eq, hsplit, List.map_append, List.map_cons, hrun, hturn]
  · rw [reduced, hsplit, List.map_append, List.map_cons, hreduced, hturnreduced]
    simp

/-! ### What stands apart from the tables -/

/-- A node that stands apart from a table is as it was, and it stays in the document. -/
theorem cleanTable?_of_apart (h : p.Labelled) (hn : p.node? c = some n) (hapart : p.Apart c l)
    (hq : p.cleanTable? l = some q) :
    q.node? c = some n ∧ (c ∈ p.body.preorder → c ∈ q.body.preorder) := by
  obtain ⟨table, first, signature, m, hnode, hreduces, rfl⟩ := (cleanTable?_eq_some_iff h).mp hq
  obtain ⟨htable, rfl⟩ := h.node?_eq_some_iff.mp hnode
  obtain ⟨hmem, rfl⟩ := h.node?_eq_some_iff.mp hn
  constructor
  · rw [hreduces.node?_reduce_label h htable hmem, hreduces.reduced_of_apart h htable hmem hapart]
  · intro hc
    have hout := (h.isDescendant_eq_false_iff htable).mp hapart.not_below
    exact hreduces.mem_body h htable hc hout

/-- **What stands apart from all tables** is as it was, and it stays in the document. -/
theorem node?_cleanTables_of_apart (hp : p.Labelled) (h : p.Follows q) (hc : c ∈ p.forest.preorder)
    (hls : ∀ l ∈ ls, l ∈ p.forest.preorder ∧ p.Apart c l) (hn : q.node? c = some n) :
    (cleanTables ls q).1.node? c = some n ∧
      (c ∈ q.body.preorder → c ∈ (cleanTables ls q).1.body.preorder) := by
  induction ls generalizing q with
  | nil => exact ⟨hn, id⟩
  | cons l ls ih =>
    obtain ⟨⟨hl, hapart⟩, hls⟩ := List.forall_mem_cons.mp hls
    rw [cleanTables]
    split
    · next q' hq' =>
      have hstep := cleanTable?_of_apart h.labelled hn (h.apart hp hc hl hapart) hq'
      have hfollows := h.trans ((leads_cleanTable? hq').follows h.labelled)
      obtain ⟨hnode, hbody⟩ := ih hfollows hls hstep.1
      exact ⟨hnode, fun hmem => hbody (hstep.2 hmem)⟩
    · exact ih h hls hn

end Visits

/-! ### Tables as they are rendered -/

/-- A signature table as it is rendered: its only signature stands in its first cell and names a
class, its cells hold no cells, and no other signature table stands in it or around it. -/
structure IsPlain (p : Page) (table first : Node) (signature : String) (m : Member) : Prop
    extends Reduces table first signature m where
  mem : table ∈ p.signatureTables
  cell : first.hasClass "td" "memname" = true
  texts : first.directTexts = [signature]
  flat : ∀ cell ∈ table.elements "td", cell.elements "td" = []
  alone : ∀ other ∈ p.signatureTables, other ∉ table.below.nodes ∧ table ∉ other.below.nodes

section Plain

variable {p q : Page} {table first : Node} {signature : String} {m : Member}

/-- The tables before and after one as it is rendered stand apart from it. -/
theorem IsPlain.apart (hp : p.Labelled) (h : IsPlain p table first signature m) {other : Node}
    (hother : other ∈ p.signatureTables) (hne : other.label ≠ table.label) :
    other.label ∈ p.forest.preorder ∧ p.Apart table.label other.label := by
  have hmem {n : Node} (hn : n ∈ p.signatureTables) : n ∈ p.forest.nodes :=
    hp.mem_nodes_of_mem_body (mem_signatureTables_iff.mp hn).1
  have hbelow {a b : Node} (ha : a ∈ p.forest.nodes) (hb : b ∈ p.forest.nodes)
      (hnot : a ∉ b.below.nodes) : p.isDescendant a.label b.label = false := by
    rw [hp.isDescendant_eq_false_iff hb]
    intro hin
    obtain ⟨k, hk, hlabel⟩ := Forest.exists_node_of_mem_preorder hin
    have hkmem := (Forest.nodes_below_sublist hb).subset hk
    exact hnot (Forest.eq_of_label_eq hp.nodup hkmem ha hlabel ▸ hk)
  obtain ⟨hnotIn, hnotAround⟩ := h.alone other hother
  exact ⟨Forest.label_mem_preorder (hmem hother), hne.symm,
    hbelow (hmem h.mem) (hmem hother) hnotAround, hbelow (hmem hother) (hmem h.mem) hnotIn⟩

/-- The other cells do not hold the first. -/
theorem IsPlain.first_notMem (h : IsPlain p table first signature m)
    (hnodup : table.below.preorder.Nodup) {cls : String} (hcls : cls ≠ "memname") :
    ∀ cell ∈ (table.elements "td").filter (·.hasClass "td" cls),
      cell ∈ table.below.nodes ∧ first.label ∉ cell.toForest.preorder := by
  intro cell hcell
  obtain ⟨hcell, hclass⟩ := List.mem_filter.mp hcell
  obtain ⟨hbelow, -⟩ := Node.mem_elements_iff.mp hcell
  refine ⟨hbelow, fun hin => ?_⟩
  obtain ⟨hfirst, htd⟩ := h.first_mem
  rcases Node.mem_toForest_iff.mp hin with heq | hin
  · rw [← Forest.eq_of_label_eq hnodup hfirst hbelow heq] at hclass
    exact hcls (eq_of_hasClass hclass h.cell)
  · obtain ⟨k, hk, hlabel⟩ := Forest.exists_node_of_mem_preorder hin
    have hkbelow := (Forest.nodes_below_sublist hbelow).subset hk
    rw [Forest.eq_of_label_eq hnodup hkbelow hfirst hlabel] at hk
    have hempty := Node.mem_elements_iff.mpr ⟨hk, htd⟩
    rw [h.flat cell hcell] at hempty
    cases hempty

/-- What becomes of the table when its turn comes. -/
theorem IsPlain.reduced_table (h : IsPlain p table first signature m) (hq : q.Labelled)
    (htable : table ∈ q.forest.nodes) :
    (¬ HasSummary table →
      table.reduced q table first m = table.updateBelow first.label fun _ => q.nameTree m) ∧
    (HasSummary table → ∃ row : Node, row.label = q.next + 1 ∧
      row.hasClass "tr" "nofloat argline" = true ∧
      row.textContent = summaryText (nameCells table) (typeCells table) m.returns ∧
      table.reduced q table first m =
        ((table.updateBelow first.label fun _ => q.nameTree m).withoutAll
          (typeCells table)).updateBelow table.rowContainer.label (· ++ row.toForest)) := by
  constructor
  · intro hnone
    rw [Node.reduced, if_neg hnone]
  · intro hsummary
    have hnodup := hq.nodup.sublist (Forest.preorder_below_sublist htable)
    have hnames : (q.named first m).refresh (nameCells table) = nameCells table :=
      h.refresh_named hq htable (h.first_notMem hnodup (by decide))
    have htypes : (q.named first m).refresh (typeCells table) = typeCells table :=
      h.refresh_named hq htable (h.first_notMem hnodup (by decide))
    obtain ⟨row, hrow, hlabel, hsum⟩ := exists_row (q.next + 1) (table.elements "td").length
      (nameCells table) (typeCells table) m.returns
    refine ⟨row, hlabel, hsum.hasClass, hsum.text, ?_⟩
    rw [Node.reduced, if_pos hsummary, summaryTree, summary, hnames, htypes, hrow]

/-- The first cell after the turn of the table: it stands in the table and holds the name. -/
theorem IsPlain.first_mem_reduced (h : IsPlain p table first signature m) (hq : q.Labelled)
    (htable : table ∈ q.forest.nodes) :
    { first with below := q.nameTree m } ∈ (table.reduced q table first m).elements "td" := by
  obtain ⟨hfirst, htd⟩ := h.first_mem
  have hbelow := h.first_mem_below hq htable h.cell htable (Forest.label_mem_preorder hfirst)
  have hafter := (addsNo_reduce hq table first m).labelled
  have hturn := h.node?_reduce_label hq htable htable
  have hnode := h.node?_reduce_label hq htable (h.first_mem_forest htable)
  rw [h.reduced_first hq htable] at hnode
  exact Node.mem_elements_iff.mpr
    ⟨hafter.mem_below_of_node? hnode (hafter.node?_eq_some_iff.mp hturn).1 hbelow, htd⟩

/-- When its turn comes, the table is the same, and it is in the document. -/
theorem IsPlain.exists_turn (hp : p.Labelled) (h : IsPlain p table first signature m) :
    ∃ q, Turn p q table ∧ table.label ∈ q.body.preorder := by
  obtain ⟨before, after, hsplit⟩ := List.append_of_mem h.mem
  have hbody := Forest.label_mem_preorder (mem_signatureTables_iff.mp h.mem).1
  have hmem := hp.mem_nodes_of_mem_body (mem_signatureTables_iff.mp h.mem).1
  have hbefore : ∀ l ∈ before.map (·.label), l ∈ p.forest.preorder ∧ p.Apart table.label l := by
    intro l hl
    obtain ⟨other, hother, rfl⟩ := List.mem_map.mp hl
    exact h.apart hp (by simp [hsplit, hother])
      (label_ne_of_signatureTables_eq hp hsplit other (List.mem_append_left _ hother))
  obtain ⟨hnode, hkept⟩ := node?_cleanTables_of_apart hp (.refl hp) (Forest.label_mem_preorder hmem)
    hbefore (hp.node?_label hmem)
  exact ⟨_, ⟨before, table, after, hsplit, rfl, rfl, hnode⟩, hkept hbody⟩

/-- **The table in the run**: what it is after its turn it stays. -/
theorem IsPlain.exists_clean (hp : p.Labelled) (h : IsPlain p table first signature m) :
    ∃ q, p.Follows q ∧ table ∈ q.forest.nodes ∧
      p.clean.1.node? table.label = some (table.reduced q table first m) ∧
      table.label ∈ p.clean.1.body.preorder ∧ table.label ∈ p.reduced := by
  obtain ⟨q, hturn, hbody⟩ := h.exists_turn hp
  obtain ⟨hfollows, htable⟩ := hturn.follows hp
  have hq := hfollows.labelled
  obtain ⟨after, hafter, hend, hreduced⟩ := hturn.exists_after hp (h.cleanTable? hq htable)
  have hapart : ∀ l ∈ after.map (·.label), l ∈ p.forest.preorder ∧ p.Apart table.label l := by
    intro l hl
    obtain ⟨other, hother, rfl⟩ := List.mem_map.mp hl
    obtain ⟨hmem, hne, -⟩ := hafter other hother
    exact h.apart hp hmem hne
  have hstep := (addsNo_reduce hq table first m).toFollows
  have hbodyafter := h.mem_body hq htable hbody (Forest.label_notMem_below hq.nodup htable)
  have hmem := hp.mem_nodes_of_mem_body (mem_signatureTables_iff.mp h.mem).1
  obtain ⟨hnode, hkept⟩ := node?_cleanTables_of_apart hp (hfollows.trans hstep)
    (Forest.label_mem_preorder hmem) hapart (h.node?_reduce_label hq htable htable)
  rw [hend]
  exact ⟨q, hfollows, htable, hnode, hkept hbodyafter, hreduced⟩

/-- **What becomes of a table as it is rendered.**  Its first cell keeps the name of the member.  If
it has as many types as names, it gets a row with a summary where its rows are kept, and loses the
cells with the types; otherwise nothing else in it changes.  It is counted either way. -/
theorem clean_plain {p : Page} (hp : p.Labelled) {table first : Node} {signature : String}
    {m : Member} (h : IsPlain p table first signature m) :
    (p.clean.2 = p.reduced.length ∧ p.reduced.Nodup ∧ table.label ∈ p.reduced) ∧
    ∃ name k table', name = Forest.cons k (.text (String.ofList m.name)) .nil .nil ∧ p.next ≤ k ∧
      table' ∈ p.clean.1.signatureTables ∧ table'.label = table.label ∧
      { first with below := name } ∈ table'.elements "td" ∧
      (HasSummary table → ∃ row : Node, p.next ≤ row.label ∧
        row.hasClass "tr" "nofloat argline" = true ∧
        row.textContent = summaryText (nameCells table) (typeCells table) m.returns ∧
        table' = ((table.updateBelow first.label fun _ => name).withoutAll
          (typeCells table)).updateBelow table.rowContainer.label (· ++ row.toForest)) ∧
      (¬ HasSummary table → table' = table.updateBelow first.label fun _ => name) := by
  obtain ⟨q, hfollows, htable, hnode, hbody, hreduced⟩ := h.exists_clean hp
  obtain ⟨hnone, hsummary⟩ := h.reduced_table hfollows.labelled htable
  have hclean := ((leads_clean p).follows hp).labelled
  refine ⟨⟨snd_cleanTables _ p, nodup_reduced hp, hreduced⟩, q.nameTree m, q.next,
    table.reduced q table first m, rfl, hfollows.next_le, ?_, label_reduced _ _ _ _ _,
    h.first_mem_reduced hfollows.labelled htable, ?_, hnone⟩
  · refine mem_signatureTables_iff.mpr ⟨hclean.mem_body_of_node? hnode hbody, ?_⟩
    rw [Node.hasClass, Node.isElement, Node.localName?, Node.attr?, item_reduced]
    exact (mem_signatureTables_iff.mp h.mem).2
  · intro hcount
    obtain ⟨row, hlabel, hrow⟩ := hsummary hcount
    have hle := hfollows.next_le
    exact ⟨row, by omega, hrow⟩

/-- A cell of a signature. -/
def signatureCell (cls : String) (below : Forest) : Forest := .ofElement "td" [("class", cls)] below

/-- A page with a signature of two arguments in two rows. -/
def firePage : Page := Page.empty.append root
  (.ofElement "table" [("class", "memname")] (.ofElement "tbody" []
    (.ofElement "tr" [] (signatureCell "memname" (.ofText "int Ship::fire ") ++
        signatureCell "paramtype" (.ofElement "a" [("href", "class_point.html")] (.ofText "Point")) ++
        signatureCell "paramname" (.ofElement "em" [] (.ofText "at") ++ .ofText ", ")) ++
      .ofElement "tr" [] (signatureCell "key" .nil ++
        signatureCell "paramtype" (.ofText "int ") ++
        signatureCell "paramname" (.ofElement "em" [] (.ofText "power"))))))

/-- The table of this page and its first cell. -/
def fireTable : Node := (firePage.node? 1).getD default

def fireCell : Node := (firePage.node? 4).getD default

theorem clean_plain_fireTable :
    firePage.Labelled ∧
    IsPlain firePage fireTable fireCell "int Ship::fire "
      ⟨"int".toList, "Ship".toList, "fire".toList⟩ ∧
    HasSummary fireTable ∧ fireTable.label ∈ firePage.reduced ∧
    ∃ row table' : Node, row.textContent = "Arg types: at: Point, power: int" ++ nbsp ++ nbsp ++ "|" ++
        nbsp ++ nbsp ++ "returns int" ∧
      table' ∈ firePage.clean.1.signatureTables ∧
      ∃ name : Forest, table' = ((fireTable.updateBelow 4 fun _ => name).withoutAll
        (typeCells fireTable)).updateBelow 2 (· ++ row.toForest) := by
  have hempty : Page.empty.Labelled := ⟨by decide, by decide, _, _, rfl⟩
  have hpage : firePage.Labelled := (follows_append hempty root _).labelled
  have hplain : IsPlain firePage fireTable fireCell "int Ship::fire "
      ⟨"int".toList, "Ship".toList, "fire".toList⟩ := by
    refine ⟨⟨?_, ?_, ?_⟩, ?_, ?_, ?_, ?_, ?_⟩ <;> decide +kernel
  have hsummary : HasSummary fireTable := by decide +kernel
  have hlabels : fireCell.label = 4 ∧ fireTable.rowContainer.label = 2 := by decide +kernel
  have htext : summaryText (nameCells fireTable) (typeCells fireTable) "int".toList =
      "Arg types: at: Point, power: int" ++ nbsp ++ nbsp ++ "|" ++ nbsp ++ nbsp ++
        "returns int" := by decide +kernel
  obtain ⟨⟨-, -, hreduced⟩, name, k, table', -, -, hmem, -, -, hrow, -⟩ := clean_plain hpage hplain
  obtain ⟨row, -, -, hrowtext, htable⟩ := hrow hsummary
  rw [hlabels.1, hlabels.2] at htable
  exact ⟨hpage, hplain, hsummary, hreduced, row, table', hrowtext.trans htext, hmem, name, htable⟩

end Plain

end BindingDocs.Page
