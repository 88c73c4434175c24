import BindingDocs.Proofs.Page.InheritedLabels
import Mathlib.Data.List.Infix

/-!
# Completing labels twice

Once the labels of a page are completed, nothing is left to do.  A table in which a label was
completed has no other: it is the table that completed it, or it stands in that table or around it,
and in the first two cases it has no other label, and in the third it would have failed.  All other
tables are as they were, and those of them that had a label to complete would have completed it.

## Main results

* `Completes.of_inside` — the tables around one that completes a label.
* `Completed.labelOf_settled` — **what a table is when all tables were visited.**
* `label_again` — **a second run completes no label and changes nothing.**
-/

namespace BindingDocs.Page

open Page (Forest Item Node)

/-- The text of a node is a part of the text of every node around it. -/
theorem Node.textContent_isInfix {inner outer : Node} (h : inner ∈ outer.below.nodes) :
    inner.textContent.toList <:+: outer.textContent.toList := by
  rw [Node.textContent, Node.textContent, String.toList_join, String.toList_join, Node.descendants,
    Node.descendants, Forest.walk_eq_nodes, Forest.walk_eq_nodes]
  have hinfix := (Forest.nodes_isInfix h).trans (List.suffix_cons outer _).isInfix
  exact List.IsInfix.flatMap (List.IsInfix.filterMap _ hinfix) _

/-- What is said of the member in a table is said in the tables around it, unless they fail. -/
theorem Completes.of_inside {inner table label : Node} {owner : String}
    (h : Completes inner label owner) (hin : inner ∈ table.below.nodes)
    (hnot : ∀ e, ¬ Fails table e) : Completes table label owner := by
  obtain ⟨signature, m, hmember, hm, rfl⟩ := h.parsed
  have hinherited : "inherited".toList <:+: table.textContent.toList :=
    hmember.inherited.trans (Node.textContent_isInfix hin)
  -- a list with one entry or more that does not have two has just this one
  have hone {α : Type} {a : α} {l : List α} (hsub : [a].Sublist l) (hlength : ¬ 2 ≤ l.length) :
      l = [a] := by
    have hle := hsub.length_le
    rw [List.length_singleton] at hle
    exact (hsub.eq_of_length (by rw [List.length_singleton]; omega)).symm
  have hsignatures : signatureNames table = [signature] :=
    hone (hmember.signatures ▸ signatureNames_sublist hin)
      fun hseveral => hnot _ (.signatures hinherited hseveral)
  have htable : IsOfMember table signature := ⟨hinherited, hsignatures, hmember.qualified⟩
  have hlabels : inheritedLabels table = [label] :=
    hone (h.labels ▸ inheritedLabels_sublist hin)
      fun hseveral => hnot _ (.labels htable hm hseveral)
  exact ⟨hlabels, signature, m, htable, hm, rfl⟩

section Settled

variable {urls : Urls} {p q : Page} {table : Node} {new : Nat → Option Forest}

/-- A table that holds a completed label holds no other, and one signature at most. -/
theorem Completed.labels_touched (hp : p.Labelled)
    (h : Completed urls p (p.elements "table") new q)
    (hall : ∀ t ∈ p.elements "table", ∀ e, ¬ Fails t e) (htable : table ∈ p.elements "table")
    {l : Nat} (hl : l ∈ table.below.preorder) (hnew : new l ≠ none) :
    (∀ label ∈ inheritedLabels table, new label.label ≠ none) ∧
      (signatureNames table).length ≤ 1 := by
  obtain ⟨g, hg⟩ := Option.ne_none_iff_exists'.mp hnew
  obtain ⟨owning, howning, label, owner, k, hlabel, rfl, -, -⟩ := h.completes l g hg
  have hbody := (mem_elements_iff.mp htable).1
  have howningbody := (mem_elements_iff.mp howning).1
  have hbelow := (mem_inheritedLabels_iff.mp hlabel.mem).1
  have hone {t : Node} (ht : Completes t label owner) : (signatureNames t).length ≤ 1 := by
    obtain ⟨signature, -, hmember, -, -⟩ := ht.parsed
    rw [hmember.signatures]
    exact Nat.le_refl _
  have honly {t : Node} (ht : inheritedLabels t = [label]) :
      ∀ label' ∈ inheritedLabels t, new label'.label ≠ none := by
    intro label' hlabel'
    rw [ht, List.mem_singleton] at hlabel'
    rwa [hlabel']
  -- the label stands in the table and in the one that completed it
  rcases Forest.eq_or_inside hp.nodup_body hbody howningbody (Node.mem_toForest_iff.mpr (.inr hl))
    (Node.mem_toForest_iff.mpr (.inr (Forest.label_mem_preorder hbelow))) with rfl | hin | hin
  · exact ⟨honly hlabel.labels, hone hlabel⟩
  · have hinside : label ∈ table.below.nodes := by
      obtain ⟨n, hn, hnl⟩ := Forest.exists_node_of_mem_preorder hl
      have hnbody := (Forest.nodes_below_sublist hbody).subset hn
      have hlabelbody := (Forest.nodes_below_sublist howningbody).subset hbelow
      rwa [Forest.eq_of_label_eq hp.nodup_body hlabelbody hnbody hnl.symm]
    exact ⟨honly (hlabel.labels_inside hin hinside),
      Nat.le_trans (signatureNames_sublist hin).length_le (hone hlabel)⟩
  · have hcompletes := hlabel.of_inside hin (hall table htable)
    exact ⟨honly hcompletes.labels, hone hcompletes⟩

/-- **What a table is when all tables were visited and none failed**: no label of it is left to
complete, and it does not fail. -/
theorem Completed.labelOf_settled (hp : p.Labelled)
    (h : Completed urls p (p.elements "table") new q)
    (hall : ∀ t ∈ p.elements "table", ∀ e, ¬ Fails t e) (htable : table ∈ p.elements "table") :
    labelOf (table.replaceBelow new) = .ok none := by
  obtain ⟨hbody, htag⟩ := mem_elements_iff.mp htable
  by_cases htouched : ∃ l ∈ table.below.preorder, new l ≠ none
  · obtain ⟨l, hl, hnew⟩ := htouched
    obtain ⟨hlabels, hsignatures⟩ := h.labels_touched hp hall htable hl hnew
    exact h.labelOf_of_labels hp hbody htag hlabels hsignatures
  · -- nothing in the table was changed, so it has no label to complete
    have hnew : ∀ l ∈ table.below.preorder, new l = none := by simpa using htouched
    rw [Node.replaceBelow_eq_self (h.new_eq_none hp hbody htag (by decide)) hnew]
    rcases hnow : labelOf table with e | _ | ⟨label, owner⟩
    · exact absurd (labelOf_eq_error_iff.mp hnow) (hall table htable e)
    · rfl
    · have hcompletes := labelOf_eq_some_iff.mp hnow
      have hbelow := (mem_inheritedLabels_iff.mp hcompletes.mem).1
      obtain ⟨k, -, hput⟩ := h.new table htable label owner hcompletes
      rw [hnew _ (Forest.label_mem_preorder hbelow)] at hput
      cases hput

/-- Tables without a label to complete leave the page as it is. -/
theorem labelTables_eq_self {ls : List Nat}
    (h : ∀ l ∈ ls, labelOf ((p.node? l).getD default) = .ok none) :
    labelTables urls ls p = (p, .ok 0) := by
  induction ls with
  | nil => rfl
  | cons l ls ih =>
    obtain ⟨hl, hls⟩ := List.forall_mem_cons.mp h
    rw [labelTables, hl]
    exact ih hls

/-- The document after the labels were completed. -/
theorem Completed.body_eq {done : List Node} (hp : p.Labelled) (h : Completed urls p done new q) :
    q.body = p.body.replaceBelow new := by
  have hroot : new root = none := by
    rw [Option.eq_none_iff_forall_ne_some]
    intro g hg
    obtain ⟨table, htable, label, owner, k, hlabel, heq, -, -⟩ := h.completes _ g hg
    have hmem := (h.label_mem_body htable hlabel).1
    exact hp.root_notMem_body (heq ▸ Forest.label_mem_preorder hmem)
  have hdocument := h.node? _ hp.document_mem
  rw [body, document, hdocument, Option.getD_some, Node.below_replaceBelow hroot]

end Settled

/-- **A second run completes no label and changes nothing**, whatever the pages of the classes are
then. -/
theorem label_again {p : Page} (h : p.Labelled) {urls : Urls} {k : Nat}
    (hok : (p.label urls).2 = .ok k) (urls' : Urls) :
    (p.label urls).1.label urls' = ((p.label urls).1, .ok 0) := by
  obtain ⟨herror, hcompletes⟩ := (Completed.nil urls h).labelTables h (List.nil_append _).symm
  have hall : ∀ t ∈ p.elements "table", ∀ e, ¬ Fails t e := by
    rcases exists_firstFails (p.elements "table") with hall | ⟨e, he⟩
    · exact hall
    · rw [label, herror e he] at hok
      cases hok
  obtain ⟨new, added, q, hrun, hcompleted, -⟩ := hcompletes hall
  rw [List.nil_append] at hcompleted
  have hpage : (p.label urls).1 = q := by rw [label, hrun]
  rw [hpage, label]
  refine labelTables_eq_self fun l hl => ?_
  obtain ⟨table, htable, rfl⟩ := List.mem_map.mp hl
  obtain ⟨hbody, htag⟩ := mem_elements_iff.mp htable
  rw [hcompleted.labelled.node?_label (hcompleted.labelled.mem_nodes_of_mem_body hbody),
    Option.getD_some]
  rw [hcompleted.body_eq h] at hbody
  rcases Forest.mem_nodes_replaceBelow hbody with ⟨old, hold, rfl⟩ | ⟨l, g, hg, hput⟩
  · exact hcompleted.labelOf_settled h hall (mem_elements_iff.mpr ⟨hold, htag⟩)
  · -- what a completed label holds is no table
    obtain ⟨t, -, label, owner, k, -, -, -, rfl⟩ := hcompleted.completes l g hg
    have hlink : "a" ≠ "table" := by decide
    have hlacks := (lacks_labelText hlink urls owner).relabel hput
    rw [htag] at hlacks
    cases hlacks

theorem label_again_inheritedPage :
    inheritedPage.Labelled ∧
      (inheritedPage.label [("BfObject", "class_bf_object.html")]).2 = .ok 2 ∧
      (inheritedPage.label [("BfObject", "class_bf_object.html")]).1.label [] =
        ((inheritedPage.label [("BfObject", "class_bf_object.html")]).1, .ok 0) := by
  have hempty : Page.empty.Labelled := ⟨by decide, by decide, _, _, rfl⟩
  have hpage : inheritedPage.Labelled := (follows_append hempty root _).labelled
  have htwo : (inheritedPage.label [("BfObject", "class_bf_object.html")]).2 = .ok 2 := by
    decide +kernel
  exact ⟨hpage, htwo, label_again hpage htwo []⟩

end BindingDocs.Page
