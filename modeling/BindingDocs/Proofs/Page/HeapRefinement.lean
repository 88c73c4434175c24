import BindingDocs.Proofs.Page.HeapChanges

/-!
# Revisions of stored pages

Every revision of a page looks for nodes, reads them and changes the page at their labels.  Since
stored nodes are found and changed like those of the forest, the revisions come to the same.

## Main results

* `toHeap_promote`, `labelTables_toHeap`, `clean_toHeap` — the single revisions.
* `revise_toHeap` — **revising stored nodes is revising the page.**
-/

namespace BindingDocs.Page

open Page (Forest Item Node)

section Revisions

variable {p : Page} {l : Nat} {n : Node}

theorem toHeap_removeMoreLinks (h : p.Labelled) (limit : Nat) :
    (p.removeMoreLinks limit).toHeap = p.toHeap.removeMoreLinks limit := by
  rw [Heap.removeMoreLinks, h.elements_toHeap, ← toHeap_detachAll h]
  rfl

theorem toHeap_replaceText (h : p.Labelled) (old new : String) :
    (p.replaceText old new).toHeap = p.toHeap.replaceText old new :=
  toHeap_replaceTextBelow h root old new

/-! ### The marker method -/

theorem Labelled.inMemberTable_toHeap (h : p.Labelled) (n : Node) :
    p.toHeap.inMemberTable n = p.inMemberTable n := by
  rw [Heap.inMemberTable, h.ancestors_toHeap, List.any_map, inMemberTable, Bool.eq_iff_iff,
    List.any_eq_true, List.any_eq_true]
  refine exists_congr fun a => and_congr_right fun ha => ?_
  rw [Function.comp_apply, h.node?_toHeap, h.node?_label (h.mem_ancestors_iff.mp ha).1]
  rfl

theorem Labelled.rowAfterMarker_toHeap (h : p.Labelled) (before rows : List Node) :
    p.toHeap.rowAfterMarker before rows = p.rowAfterMarker before rows := by
  induction rows generalizing before with
  | nil => rfl
  | cons row rows ih =>
    simp only [Heap.rowAfterMarker, rowAfterMarker, h.inMemberTable_toHeap, h.isDescendant_toHeap,
      ih]

theorem Labelled.markerNodes_toHeap (h : p.Labelled) : p.toHeap.markerNodes = p.markerNodes := by
  have hheading : p.toHeap.markerHeading = p.markerHeading := by
    rw [Heap.markerHeading, h.descendants_toHeap, funext₂ h.isDescendant_toHeap]
    rfl
  simp only [Heap.markerNodes, markerNodes, h.elements_toHeap, h.inMemberTable_toHeap,
    h.rowAfterMarker_toHeap, hheading]

theorem Labelled.markerContent?_toHeap (h : p.Labelled) :
    p.toHeap.markerContent? = p.markerContent? := by
  rw [Heap.markerContent?, h.descendants_toHeap, funext₂ h.isDescendant_toHeap]
  rfl

theorem toHeap_promote (h : p.Labelled) : p.promote.toHeap = p.toHeap.promote := by
  rw [Heap.promote, h.markerContent?_toHeap, h.elements_toHeap, promote, promote?]
  cases p.markerContent? with
  | none => rfl
  | some content =>
    cases htable : (p.elements "table").find? (·.hasClass "table" "memberdecls") with
    | none => rfl
    | some table =>
      have hmem := (mem_elements_iff.mp (List.mem_of_find?_eq_some htable)).1
      have hrows := rowContainer_mem_nodes (h.mem_nodes_of_mem_body hmem)
      rw [Option.bind_some, Option.map_some, Option.getD_some,
        toHeap_insertAfterFirstElement h (Forest.label_mem_preorder hrows)]

/-! ### Inherited members -/

theorem Labelled.classUrls_toHeap (h : p.Labelled) : p.toHeap.classUrls = p.classUrls := by
  have hparent (l : Nat) : (p.toHeap.parent? l).bind p.toHeap.node? = p.parent? l := by
    rw [h.parent?_toHeap, parentLabel?]
    cases hn : p.parent? l with
    | none => rfl
    | some n =>
      rw [Option.map_some, Option.bind_some, h.node?_toHeap,
        h.node?_label (h.parent?_eq_some_iff.mp hn).1]
  rw [Heap.classUrls, h.elements_toHeap]
  simp only [hparent]
  rfl

/-- The children of a node are replaced by new trees. -/
theorem toHeap_replace (h : p.Labelled) (hl : l ∈ p.forest.preorder) (f : Forest) :
    ((p.clear l).append l f).toHeap = Heap.grow l f (p.toHeap.clear l) := by
  have hfollows := follows_clear h l
  obtain ⟨n, hn, rfl⟩ := Forest.exists_node_of_mem_preorder hl
  have hnode := Page.node?_clear (h.node?_label hn)
  rw [hfollows.labelled.node?_eq_some_iff] at hnode
  rw [toHeap_append hfollows.labelled (Forest.label_mem_preorder hnode.1), toHeap_clear h]

theorem labelTables_toHeap (h : p.Labelled) (urls : Urls) (ls : List Nat) :
    Heap.labelTables urls ls p.toHeap =
      ((labelTables urls ls p).1.toHeap, (labelTables urls ls p).2) := by
  induction ls generalizing p with
  | nil => rfl
  | cons l ls ih =>
    rw [Heap.labelTables, labelTables, h.node?_toHeap]
    cases hlabel : labelOf ((p.node? l).getD default) with
    | error e => rfl
    | ok found =>
      cases found with
      | none => exact ih h
      | some found =>
        obtain ⟨label, owner⟩ := found
        have hlist := Forest.label_mem_preorder (h.mem_nodes_of_labelOf hlabel).1
        have hfollows := (follows_clear h label.label).labelled
        have hput := (follows_append hfollows label.label (labelText urls owner)).labelled
        simp only
        rw [← toHeap_replace h hlist, ih hput]

theorem label_toHeap (h : p.Labelled) (urls : Urls) :
    p.toHeap.label urls = ((p.label urls).1.toHeap, (p.label urls).2) := by
  rw [Heap.label, h.elements_toHeap, labelTables_toHeap h]
  rfl

/-! ### Signatures -/

theorem toHeap_summarise (h : p.Labelled) (l : Nat) (cells : List Node) (returns : String) :
    (p.summarise l cells returns).toHeap = p.toHeap.summarise l cells returns := by
  have hrefresh (ns : List Node) : p.toHeap.refresh ns = p.refresh ns := by
    simp only [Heap.refresh, refresh, h.node?_toHeap]
  rw [Heap.summarise, summarise]
  split
  · simp only [hrefresh, ← toHeap_detachAll h]
    rw [← detachAll]
    have hdetach := ((leads_detachAll (cells.filter (·.hasClass "td" "paramtype")) p).follows
      h).labelled
    rw [hdetach.node?_toHeap]
    cases htable : (p.detachAll (cells.filter (·.hasClass "td" "paramtype"))).node? l with
    | none => rfl
    | some table =>
      have hmem := rowContainer_mem_nodes (hdetach.node?_eq_some_iff.mp htable).1
      exact toHeap_append hdetach (Forest.label_mem_preorder hmem) _
  · rfl

theorem cleanTable?_toHeap (h : p.Labelled) (l : Nat) :
    p.toHeap.cleanTable? l = (p.cleanTable? l).map toHeap := by
  rw [Heap.cleanTable?, cleanTable?, h.node?_toHeap]
  cases htable : p.node? l with
  | none => rfl
  | some table =>
    rw [Option.bind_some, Option.bind_some]
    match signatureNames table with
    | [] => rfl
    | _ :: _ :: _ => rfl
    | [signature] =>
      simp only [Option.map_map]
      refine congrArg (Option.map · (Member.parse? signature.toList)) (funext fun m => ?_)
      simp only [Function.comp_apply]
      cases hfirst : (table.elements "td").head? with
      | none => exact (toHeap_summarise h _ _ _).symm
      | some first =>
        have hcell := (Node.mem_elements_iff.mp (List.mem_of_head? hfirst)).1
        have hmem := (Forest.nodes_below_sublist (h.node?_eq_some_iff.mp htable).1).subset hcell
        have htext := ((leads_setText first.label (String.ofList m.name) p).follows h).labelled
        simp only
        rw [toHeap_summarise htext, setText, Heap.setText,
          toHeap_replace h (Forest.label_mem_preorder hmem)]

theorem cleanTables_toHeap (h : p.Labelled) (ls : List Nat) :
    Heap.cleanTables ls p.toHeap = ((cleanTables ls p).1.toHeap, (cleanTables ls p).2) := by
  induction ls generalizing p with
  | nil => rfl
  | cons l ls ih =>
    rw [Heap.cleanTables, cleanTables, cleanTable?_toHeap h]
    cases hq : p.cleanTable? l with
    | none => exact ih h
    | some q =>
      rw [Option.map_some]
      simp only
      rw [ih ((leads_cleanTable? hq).follows h).labelled]

theorem clean_toHeap (h : p.Labelled) : p.toHeap.clean = (p.clean.1.toHeap, p.clean.2) := by
  rw [Heap.clean, h.elements_toHeap, cleanTables_toHeap h]
  rfl

/-! ### All revisions -/

theorem toHeap_prepared (h : p.Labelled) : p.prepared.toHeap = p.toHeap.prepared := by
  have hlinks := ((leads_removeMoreLinks 2 p).follows h).labelled
  have hfirst := (follows_replaceText hlinks "Public Member Function" "Member Function").labelled
  rw [prepared, Heap.prepared, toHeap_replaceText hfirst, toHeap_replaceText hlinks,
    toHeap_removeMoreLinks h]

theorem completed_toHeap (h : p.Labelled) :
    p.toHeap.completed = (p.completed.1.toHeap, p.completed.2) := by
  have hprepared := ((leads_prepared p).follows h).labelled
  have hpromote := ((leads_promote p.prepared).follows hprepared).labelled
  rw [Heap.completed, ← toHeap_prepared h, ← toHeap_promote hprepared, hpromote.classUrls_toHeap,
    label_toHeap hpromote]
  rfl

/-- **Revising stored nodes is revising the page**, with the same result or the same error. -/
theorem revise_toHeap (h : p.Labelled) :
    p.toHeap.revise = (p.revise.page.toHeap, p.revise.error) := by
  have hprepared := ((leads_prepared p).follows h).labelled
  have hcompleted := ((leads_completed p).follows hprepared).labelled
  unfold Heap.revise
  rw [completed_toHeap h]
  cases hresult : p.completed.2 with
  | error e =>
    obtain ⟨hpage, herror⟩ := revise_of_error hresult
    rw [hpage, herror]
  | ok k =>
    obtain ⟨hpage, herror⟩ := revise_of_ok hresult
    have hclean := ((leads_clean p.completed.1).follows hcompleted).labelled
    dsimp only
    rw [hpage, herror, clean_toHeap hcompleted, ← toHeap_prepared h, hprepared.markerNodes_toHeap,
      toHeap_detachAll hclean]

end Revisions

end BindingDocs.Page
