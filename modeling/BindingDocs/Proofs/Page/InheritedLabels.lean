import BindingDocs.Proofs.Page.MarkerRemoval
import BindingDocs.Proofs.Page.Substitution

/-!
# Labels of inherited members

Tables are visited in document order, and each of them is judged on a page on which labels have been
completed already.  This does no harm.  A table that is touched by an earlier one stands inside of
it, so it has no other label and no other signature: it neither fails nor finds a label any more,
and its label says what it would have said.  So the page after all tables is the page on which all
labels were completed at once.

The step from one table to the next is `Completed.step`: the invariant `Completed` gives every node
of the first page as it is by now, also the nodes that were taken out of the document with the old
text of a label.

## Main definitions

* `Completed` — the page after some tables, as a change of the first one at several labels.
* `FirstFails` — what is wrong with the first table with which something is wrong.

## Main results

* `Labelled.node?_clear_append` — the nodes after the children of one were replaced.
* `Completed.inside`, `Completed.labelOf_touched` — a table that an earlier one has touched.
* `Completed.complete`, `Completed.step` — **what one table does.**
* `Completed.labelTables` — what the tables that are left do.
* `label_eq` — **which labels are completed, and when this fails.**
-/

namespace BindingDocs.Page

open Page (Forest Item Node)

/-! ### Tables with completed labels -/

/-- Trees that a completed label may hold: no cells, no spans, and not the text of a label that is
still to be completed. -/
structure IsLabelText (g : Forest) : Prop where
  lacks_td : g.Lacks "td"
  lacks_span : g.Lacks "span"
  texts : String.join g.texts ≠ "inherited"

/-- **What a completed label of a class with a page holds**: a single link to the page. -/
theorem relabel_labelText_of_some {urls : Urls} {owner url : String}
    (h : urls.lookup owner = some url) (k : Nat) :
    ((labelText urls owner).relabel k).1 =
      .cons k (.element { name := "a", attrs := [{ name := "href", value := url }] })
        (.cons (k + 1) (.text ("inherited from " ++ owner)) .nil .nil) .nil := by
  rw [labelText, h]
  rfl

/-- **What any other completed label holds**: a single text. -/
theorem relabel_labelText_of_none {urls : Urls} {owner : String} (h : urls.lookup owner = none)
    (k : Nat) :
    ((labelText urls owner).relabel k).1 =
      .cons k (.text ("inherited from " ++ owner)) .nil .nil := by
  rw [labelText, h]
  rfl

theorem isLabelText_labelText (urls : Urls) (owner : String) (k : Nat) :
    IsLabelText ((labelText urls owner).relabel k).1 := by
  refine ⟨?_, ?_, ?_⟩
  · intro n hn
    exact (lacks_labelText (by decide) urls owner).relabel hn
  · intro n hn
    exact (lacks_labelText (by decide) urls owner).relabel hn
  · rw [Forest.texts_relabel, labelText]
    cases urls.lookup owner with
    | some url =>
      show String.join [] ≠ "inherited"
      decide
    | none =>
      show String.join ["inherited from " ++ owner] ≠ "inherited"
      intro h
      have hlength := congrArg String.length h
      have hfrom : "inherited from ".length = 15 := by decide
      have hword : "inherited".length = 9 := by decide
      rw [String.join, List.foldl_cons, List.foldl_nil, String.empty_append, String.length_append]
        at hlength
      omega

/-- The signatures in a forest. -/
def Forest.signatures (f : Forest) : List String :=
  (f.nodes.filter (·.hasClass "td" "memname")).flatMap (·.directTexts)

theorem signatureNames_eq (table : Node) : signatureNames table = table.below.signatures := by
  have hclass : ∀ n : Node, (n.hasClass "td" "memname" && n.isElement "td") =
      n.hasClass "td" "memname" := by
    intro n
    rw [Node.hasClass]
    cases n.isElement "td" <;> simp
  rw [signatureNames, Node.elements, Node.descendants, Forest.walk_eq_nodes, List.filter_filter]
  simp only [hclass]
  rfl

section Replaced

variable {f : Forest} {table : Node} {new : Nat → Option Forest}

theorem Forest.signatures_cons (l : Nat) (i : Item) (below next : Forest) :
    (Forest.cons l i below next).signatures =
      (if Node.hasClass ⟨l, i, below⟩ "td" "memname" then below.texts else []) ++
        (below.signatures ++ next.signatures) := by
  rw [signatures, nodes, List.filter_cons, List.filter_append]
  split
  · rw [List.flatMap_cons, List.flatMap_append]
    rfl
  · rw [List.flatMap_append]
    rfl

theorem Forest.signatures_eq_nil (h : f.Lacks "td") : f.signatures = [] := by
  have hnone : f.nodes.filter (·.hasClass "td" "memname") = [] := by
    rw [List.filter_eq_nil_iff]
    intro n hn hclass
    have htd := isElement_of_hasClass hclass
    rw [h n hn] at htd
    cases htd
  rw [signatures, hnone]
  rfl

/-- No signatures are added: a cell keeps its texts, and the new trees hold no cells. -/
theorem Forest.signatures_replaceBelow (hnew : ∀ l g, new l = some g → g.Lacks "td")
    (htd : ∀ n ∈ f.nodes, n.isElement "td" = true → new n.label = none) :
    (f.replaceBelow new).signatures.Sublist f.signatures := by
  induction f with
  | nil => exact List.Sublist.refl _
  | cons l i below next ihb ihn =>
    have hbelow := ihb fun n hn => htd n (by simp [nodes, hn])
    have hnext := ihn fun n hn => htd n (by simp [nodes, hn])
    rw [replaceBelow, signatures_cons, signatures_cons]
    refine List.Sublist.append ?_ (List.Sublist.append ?_ hnext)
    · -- the class of a node does not depend on what stands below it
      have hsame : Node.hasClass ⟨l, i, (new l).getD (below.replaceBelow new)⟩ "td" "memname" =
          Node.hasClass ⟨l, i, below⟩ "td" "memname" := rfl
      rw [hsame]
      split
      · next hclass =>
        have hl : new l = none :=
          htd ⟨l, i, below⟩ List.mem_cons_self (isElement_of_hasClass hclass)
        rw [hl, Option.getD_none, texts_replaceBelow]
      · exact List.Sublist.refl _
    · cases hl : new l with
      | some g =>
        rw [Option.getD_some, signatures_eq_nil (hnew l g hl)]
        exact List.nil_sublist _
      | none => exact hbelow

/-- No label is left to be completed where all of them were completed. -/
theorem inheritedLabels_replaceBelow (hnew : ∀ l g, new l = some g → IsLabelText g)
    (htable : new table.label = none)
    (hall : ∀ label ∈ inheritedLabels table, new label.label ≠ none) :
    inheritedLabels (table.replaceBelow new) = [] := by
  rw [List.eq_nil_iff_forall_not_mem]
  intro n hn
  obtain ⟨hmem, hspan, hclass, htext⟩ := mem_inheritedLabels_iff.mp hn
  rw [Node.below_replaceBelow htable] at hmem
  rcases Forest.mem_nodes_replaceBelow hmem with ⟨m, hm, rfl⟩ | ⟨l, g, hl, hg⟩
  · rw [Node.ownText_replaceBelow] at htext
    cases hl : new m.label with
    | some g =>
      -- a completed label has another text
      rw [hl] at htext
      exact absurd htext (hnew _ g hl).texts
    | none =>
      -- another one has the text that it had
      rw [hl] at htext
      exact absurd hl (hall m (mem_inheritedLabels_iff.mpr ⟨hm, hspan, hclass, htext⟩))
  · have hlacks := (hnew l g hl).lacks_span n hg
    rw [hspan] at hlacks
    cases hlacks

end Replaced

/-! ### The page after some tables -/

section Cleared

variable {p : Page} {s l : Nat} {n : Node}

/-- The nodes after the children of one were cut off: below the others it is empty, wherever they
stand afterwards. -/
theorem Labelled.node?_clear_of_ne (h : p.Labelled) (hs : p.node? s = some n) (hne : l ≠ s) :
    (p.clear s).node? l =
      (p.node? l).map fun m => { m with below := m.below.updateBelow s fun _ => .nil } := by
  obtain ⟨hn, rfl⟩ := h.node?_eq_some_iff.mp hs
  have hcleared := (follows_clear h n.label).labelled.nodup
  have hclear : (p.clear n.label).forest =
      p.forest.updateBelow n.label (fun _ => .nil) ++ n.below := by
    rw [clear, hs]
  rw [hclear, Forest.preorder_append, List.nodup_append] at hcleared
  rw [node?, hclear, Forest.find?_append]
  by_cases hin : l ∈ n.below.preorder
  · -- a node that is cut off does not hold the one that it was below
    obtain ⟨m, hm, rfl⟩ := Forest.exists_node_of_mem_preorder hin
    have hnotMem : n.label ∉ m.below.preorder := by
      intro hmem
      have hself := Forest.label_notMem_below h.nodup hn
      exact hself ((Forest.preorder_below_sublist hm).subset hmem)
    have hfront : (p.forest.updateBelow n.label (fun _ => .nil)).find? m.label = none := by
      rw [Forest.find?_eq_none_iff]
      exact fun hfront => hcleared.2.2 _ hfront _ hin rfl
    have hback : n.below.find? m.label = some m :=
      (Forest.find?_eq_some_iff (h.nodup.sublist (Forest.preorder_below_sublist hn))).mpr ⟨hm, rfl⟩
    rw [hfront, hback, h.node?_label ((Forest.nodes_below_sublist hn).subset hm), Option.map_some,
      Forest.updateBelow_eq_self hnotMem]
    rfl
  · have hkept := Forest.find?_updateBelow_of_ne (u := fun _ => .nil) h.nodup hne
      (fun m hm hlabel => by
        rw [Forest.eq_of_label_eq h.nodup hm hn hlabel]
        exact ⟨hin, List.not_mem_nil⟩)
    rw [hkept, Forest.find?_eq_none_iff.mpr hin, node?]
    cases p.forest.find? l <;> rfl

/-- Replacing the children of a node by a copy of trees changes below the other nodes what stands at
its label there. -/
theorem Labelled.node?_clear_append (h : p.Labelled) (hs : p.node? s = some n) (f : Forest)
    (hl : l < p.next) :
    ((p.clear s).append s f).node? l =
      if l = s then some { n with below := (f.relabel p.next).1 }
      else (p.node? l).map fun m =>
        { m with below := m.below.updateBelow s fun _ => (f.relabel p.next).1 } := by
  have hcleared := (follows_clear h s).labelled.nodup
  have happend : ((p.clear s).append s f).node? l =
      ((p.clear s).forest.updateBelow s (· ++ (f.relabel p.next).1)).find? l := by
    have hnext : (p.clear s).next = p.next := by
      rw [clear, hs]
    rw [← hnext]
    rfl
  have hfresh : l ∉ (f.relabel p.next).1.preorder := by
    rw [Forest.preorder_relabel, List.mem_range'_1]
    omega
  have hempty := node?_clear hs
  rw [happend]
  split
  · next heq =>
    subst heq
    exact Forest.find?_updateBelow hempty
  · next hne =>
    rw [Forest.find?_updateBelow_of_ne hcleared hne, ← node?, h.node?_clear_of_ne hs hne,
      Option.map_map]
    · congr 1
      funext m
      simp only [Function.comp_apply, Forest.updateBelow_updateBelow]
      rfl
    · -- the node at the label is empty by now
      intro m hm hlabel
      have hm' := (Forest.find?_eq_some_iff hcleared).mpr ⟨hm, hlabel⟩
      rw [← node?, hempty] at hm'
      cases hm'
      exact ⟨List.not_mem_nil, hfresh⟩

end Cleared

/-- The page after the tables `done`: `new` says what stands below the labels that these complete,
and everything else is as it was, also what has been taken out of the document. -/
structure Completed (urls : Urls) (p : Page) (done : List Node) (new : Nat → Option Forest)
    (q : Page) : Prop where
  tables : done <+: p.elements "table"
  labelled : q.Labelled
  next_le : p.next ≤ q.next
  node? : ∀ n ∈ p.forest.nodes, q.node? n.label = some (n.replaceBelow new)
  completes : ∀ l g, new l = some g → ∃ table ∈ done, ∃ label owner k,
    Completes table label owner ∧ label.label = l ∧ p.next ≤ k ∧
      g = ((labelText urls owner).relabel k).1
  new : ∀ table ∈ done, ∀ label owner, Completes table label owner →
    ∃ k, p.next ≤ k ∧ new label.label = some ((labelText urls owner).relabel k).1

namespace Completed

variable {urls : Urls} {p q : Page} {done rest : List Node} {table label : Node} {owner : String}
  {new : Nat → Option Forest}

theorem nil (urls : Urls) (hp : p.Labelled) : Completed urls p [] (fun _ => none) p where
  tables := List.nil_prefix
  labelled := hp
  next_le := Nat.le_refl _
  node? := by
    intro n hn
    rw [Node.replaceBelow_eq_self rfl fun _ _ => rfl, hp.node?_label hn]
  completes := nofun
  new := nofun

/-- Trees that were put below a label are those of a completed one. -/
theorem isLabelText (h : Completed urls p done new q) : ∀ l g, new l = some g → IsLabelText g := by
  intro l g hl
  obtain ⟨table, -, label, owner, k, -, -, -, rfl⟩ := h.completes l g hl
  exact isLabelText_labelText urls owner k

/-- Their labels are new. -/
theorem notMem_of_lt (h : Completed urls p done new q) {s : Nat} (hs : s < p.next) :
    ∀ l g, new l = some g → s ∉ g.preorder := by
  intro l g hl hmem
  obtain ⟨table, -, label, owner, k, -, -, hk, rfl⟩ := h.completes l g hl
  rw [Forest.preorder_relabel, List.mem_range'_1] at hmem
  omega

theorem label_mem_body (h : Completed urls p done new q) (htable : table ∈ done)
    (hlabel : Completes table label owner) :
    label ∈ p.body.nodes ∧ label.isElement "span" = true := by
  obtain ⟨hbody, -⟩ := mem_elements_iff.mp (h.tables.subset htable)
  obtain ⟨hbelow, hspan, -⟩ := mem_inheritedLabels_iff.mp hlabel.mem
  exact ⟨(Forest.nodes_below_sublist hbody).subset hbelow, hspan⟩

/-- Nothing was put below a node that is no span. -/
theorem new_eq_none (hp : p.Labelled) (h : Completed urls p done new q) {n : Node} {tag : String}
    (hn : n ∈ p.body.nodes) (htag : n.isElement tag = true) (hspan : tag ≠ "span") :
    new n.label = none := by
  rw [Option.eq_none_iff_forall_ne_some]
  intro g hg
  obtain ⟨table, htable, label, owner, k, hlabel, heq, -, -⟩ := h.completes _ g hg
  obtain ⟨hmem, hlabelspan⟩ := h.label_mem_body htable hlabel
  rw [Forest.eq_of_label_eq hp.nodup_body hmem hn heq] at hlabelspan
  exact hspan (eq_of_isElement htag hlabelspan)

theorem table_mem_body (hsplit : p.elements "table" = done ++ table :: rest) :
    table ∈ p.body.nodes ∧ table.isElement "table" = true :=
  mem_elements_iff.mp (by simp [hsplit])

/-- **A table that an earlier one has touched stands inside of it**, and the label of that one
stands inside of both. -/
theorem inside (hp : p.Labelled) (h : Completed urls p done new q)
    (hsplit : p.elements "table" = done ++ table :: rest) {l : Nat}
    (hl : l ∈ table.below.preorder) (hnew : new l ≠ none) :
    ∃ outer ∈ done, ∃ label owner, Completes outer label owner ∧ table ∈ outer.below.nodes ∧
      label ∈ table.below.nodes ∧ label.label = l := by
  obtain ⟨g, hg⟩ := Option.ne_none_iff_exists'.mp hnew
  obtain ⟨outer, houter, label, owner, k, hlabel, heq, -, -⟩ := h.completes l g hg
  have hbody := (table_mem_body hsplit).1
  -- the label stands in both tables
  have hinside : label ∈ table.below.nodes := by
    obtain ⟨n, hn, hnl⟩ := Forest.exists_node_of_mem_preorder hl
    have hlabelbody := (h.label_mem_body houter hlabel).1
    have hnbody := (Forest.nodes_below_sublist hbody).subset hn
    rwa [Forest.eq_of_label_eq hp.nodup_body hlabelbody hnbody (heq.trans hnl.symm)]
  have hpairwise := (Forest.pairwise_nodes hp.nodup_body).filter (·.isElement "table")
  have helements : p.body.nodes.filter (·.isElement "table") = done ++ table :: rest := by
    rw [← hsplit, elements, Node.elements, ← descendants, descendants_eq]
  rw [helements, List.pairwise_append] at hpairwise
  refine ⟨outer, houter, label, owner, hlabel, ?_, hinside, heq⟩
  rcases hpairwise.2.2 outer houter table List.mem_cons_self with hin | hapart
  · exact hin
  · exact absurd hinside (hapart label (mem_inheritedLabels_iff.mp hlabel.mem).1)

/-- A table with one signature at most comes to nothing once all of its labels are completed. -/
theorem labelOf_of_labels (hp : p.Labelled) (h : Completed urls p done new q)
    (hbody : table ∈ p.body.nodes) (htag : table.isElement "table" = true)
    (hlabels : ∀ label ∈ inheritedLabels table, new label.label ≠ none)
    (hsignatures : (signatureNames table).length ≤ 1) :
    labelOf (table.replaceBelow new) = .ok none := by
  have htable := h.new_eq_none hp hbody htag (by decide)
  have hnone := inheritedLabels_replaceBelow h.isLabelText htable hlabels
  have hone : (signatureNames (table.replaceBelow new)).length ≤ 1 := by
    refine Nat.le_trans (List.Sublist.length_le ?_) hsignatures
    rw [signatureNames_eq, signatureNames_eq, Node.below_replaceBelow htable]
    refine Forest.signatures_replaceBelow (fun l g hg => (h.isLabelText l g hg).lacks_td) ?_
    intro n hn htd
    exact h.new_eq_none hp ((Forest.nodes_below_sublist hbody).subset hn) htd (by decide)
  rcases hnow : labelOf (table.replaceBelow new) with e | _ | ⟨label, owner⟩
  · rcases labelOf_eq_error_iff.mp hnow with ⟨-, hseveral⟩ | ⟨-, -, hseveral⟩
    · omega
    · rw [hnone, List.length_nil] at hseveral
      omega
  · rfl
  · have hcompletes := (labelOf_eq_some_iff.mp hnow).labels
    rw [hnone] at hcompletes
    cases hcompletes

section Step

variable (hp : p.Labelled) (h : Completed urls p done new q)
  (hsplit : p.elements "table" = done ++ table :: rest)
include hp h hsplit

theorem node?_table : q.node? table.label = some (table.replaceBelow new) ∧
    new table.label = none := by
  obtain ⟨hbody, htag⟩ := table_mem_body hsplit
  exact ⟨h.node? table (hp.mem_nodes_of_mem_body hbody),
    h.new_eq_none hp hbody htag (by decide)⟩

/-- **What a table is once an earlier one has touched it**: it neither fails nor completes a label,
and it would have completed the same label in the same way. -/
theorem labelOf_touched {l : Nat} (hl : l ∈ table.below.preorder) (hnew : new l ≠ none) :
    labelOf (table.replaceBelow new) = .ok none ∧ (∀ e, ¬ Fails table e) ∧
      ∀ label owner, Completes table label owner →
        ∃ k, p.next ≤ k ∧ new label.label = some ((labelText urls owner).relabel k).1 := by
  obtain ⟨outer, houter, label, owner, hlabel, hin, hinside, rfl⟩ := h.inside hp hsplit hl hnew
  obtain ⟨hbody, htag⟩ := table_mem_body hsplit
  refine ⟨h.labelOf_of_labels hp hbody htag ?_ ?_, hlabel.not_fails_inside hin, ?_⟩
  · intro label' hlabel'
    rw [hlabel.labels_inside hin hinside, List.mem_singleton] at hlabel'
    rwa [hlabel']
  · obtain ⟨signature, -, hmember, -, -⟩ := hlabel.parsed
    have hlength := (signatureNames_sublist hin).length_le
    rwa [hmember.signatures, List.length_singleton] at hlength
  · intro label' owner' hcompletes
    obtain ⟨rfl, rfl⟩ := hlabel.eq_inside hin hcompletes
    exact h.new outer houter label' owner' hlabel

/-- The table is as it was if nothing in it was completed. -/
theorem node?_untouched (hnew : ∀ l ∈ table.below.preorder, new l = none) :
    q.node? table.label = some table := by
  obtain ⟨hnode, htable⟩ := h.node?_table hp hsplit
  rw [hnode, Node.replaceBelow_eq_self htable hnew]

omit hp h in
theorem tables_concat : done ++ [table] <+: p.elements "table" :=
  ⟨rest, by rw [hsplit, List.append_assoc, List.singleton_append]⟩

omit hp in
/-- A table without a label of its own leaves the page as it is. -/
theorem skip (hnew : ∀ label owner, Completes table label owner →
      ∃ k, p.next ≤ k ∧ new label.label = some ((labelText urls owner).relabel k).1) :
    Completed urls p (done ++ [table]) new q where
  tables := tables_concat hsplit
  labelled := h.labelled
  next_le := h.next_le
  node? := h.node?
  completes := by
    intro l g hl
    obtain ⟨table', htable', hrest⟩ := h.completes l g hl
    exact ⟨table', List.mem_append_left _ htable', hrest⟩
  new := by
    intro table' htable' label owner hlabel
    rcases List.mem_append.mp htable' with hdone | hlast
    · exact h.new table' hdone label owner hlabel
    · rw [List.mem_singleton.mp hlast] at hlabel
      exact hnew label owner hlabel

/-- **One more label.**  A table that completes a label on the page as it is by now adds what the
label holds. -/
theorem complete (hnew : ∀ l ∈ table.below.preorder, new l = none)
    (hlabel : Completes table label owner) :
    Completed urls p (done ++ [table])
      (Function.update new label.label (some ((labelText urls owner).relabel q.next).1))
      ((q.clear label.label).append label.label (labelText urls owner)) := by
  obtain ⟨hbelow, -⟩ := mem_inheritedLabels_iff.mp hlabel.mem
  have hbody := (Forest.nodes_below_sublist (table_mem_body hsplit).1).subset hbelow
  have hmem := hp.mem_nodes_of_mem_body hbody
  have hlt := hp.label_lt_next hmem
  have hclear := follows_clear h.labelled label.label
  have happend := follows_append hclear.labelled label.label (labelText urls owner)
  constructor
  · exact tables_concat hsplit
  · exact happend.labelled
  · exact Nat.le_trans h.next_le (Nat.le_trans hclear.next_le happend.next_le)
  · intro n hn
    have hnlt := hp.label_lt_next hn
    rw [h.labelled.node?_clear_append (h.node? label hmem) _ (Nat.lt_of_lt_of_le hnlt h.next_le)]
    split
    · next heq =>
      rw [Forest.eq_of_label_eq hp.nodup hn hmem heq, Node.replaceBelow_update_self]
    · next hne =>
      have hnodup := hp.nodup.sublist (Forest.preorder_below_sublist hn)
      rw [h.node? n hn, Option.map_some, Node.replaceBelow_update hnodup hne (h.notMem_of_lt hlt)]
  · intro l g hl
    by_cases heq : l = label.label
    · subst heq
      rw [Function.update_self] at hl
      cases hl
      exact ⟨table, by simp, label, owner, q.next, hlabel, rfl, h.next_le, rfl⟩
    · rw [Function.update_of_ne heq] at hl
      obtain ⟨table', htable', hrest⟩ := h.completes l g hl
      exact ⟨table', List.mem_append_left _ htable', hrest⟩
  · intro table' htable' label' owner' hlabel'
    rcases List.mem_append.mp htable' with hdone | hlast
    · -- an earlier table has not completed this label
      obtain ⟨k, hk, hold⟩ := h.new table' hdone label' owner' hlabel'
      have hne : label'.label ≠ label.label := by
        intro heq
        rw [heq, hnew _ (Forest.label_mem_preorder hbelow)] at hold
        cases hold
      exact ⟨k, hk, by rw [Function.update_of_ne hne, hold]⟩
    · rw [List.mem_singleton.mp hlast, ← labelOf_eq_some_iff, labelOf_eq_some_iff.mpr hlabel]
        at hlabel'
      cases hlabel'
      exact ⟨q.next, h.next_le, Function.update_self _ _ _⟩

/-- A table that fails is as it was, so it fails on the page as it is by now. -/
theorem labelOf_of_fails {e : RevisionError} (hfails : Fails table e) :
    labelOf ((q.node? table.label).getD default) = .error e := by
  have hnew : ∀ l ∈ table.below.preorder, new l = none := by
    intro l hl
    by_contra hnew
    exact (h.labelOf_touched hp hsplit hl hnew).2.1 e hfails
  rw [h.node?_untouched hp hsplit hnew]
  exact labelOf_eq_error_iff.mpr hfails

/-- **One table that does not fail**: it completes no label, or a new one. -/
theorem step (hnot : ∀ e, ¬ Fails table e) :
    labelOf ((q.node? table.label).getD default) = .ok none ∧
        Completed urls p (done ++ [table]) new q ∨
      ∃ label owner, labelOf ((q.node? table.label).getD default) = .ok (some (label, owner)) ∧
        new label.label = none ∧
        Completed urls p (done ++ [table])
          (Function.update new label.label (some ((labelText urls owner).relabel q.next).1))
          ((q.clear label.label).append label.label (labelText urls owner)) := by
  by_cases htouched : ∃ l ∈ table.below.preorder, new l ≠ none
  · obtain ⟨l, hl, hnew⟩ := htouched
    obtain ⟨hnone, -, hsame⟩ := h.labelOf_touched hp hsplit hl hnew
    rw [(h.node?_table hp hsplit).1]
    exact Or.inl ⟨hnone, h.skip hsplit hsame⟩
  · have hnew : ∀ l ∈ table.below.preorder, new l = none := by simpa using htouched
    rw [h.node?_untouched hp hsplit hnew, Option.getD_some]
    rcases hlabel : labelOf table with e | _ | ⟨label, owner⟩
    · exact absurd (labelOf_eq_error_iff.mp hlabel) (hnot e)
    · refine Or.inl ⟨rfl, h.skip hsplit fun label owner hcompletes => ?_⟩
      rw [← labelOf_eq_some_iff, hlabel] at hcompletes
      cases hcompletes
    · have hcompletes := labelOf_eq_some_iff.mp hlabel
      have hbelow := (mem_inheritedLabels_iff.mp hcompletes.mem).1
      exact Or.inr ⟨label, owner, rfl, hnew _ (Forest.label_mem_preorder hbelow),
        h.complete hp hsplit hnew hcompletes⟩

end Step

end Completed

/-! ### All tables -/

/-- What is wrong with the first table with which something is wrong. -/
def FirstFails (tables : List Node) (e : RevisionError) : Prop :=
  ∃ before table after, tables = before ++ table :: after ∧
    (∀ t ∈ before, ∀ e', ¬ Fails t e') ∧ Fails table e

section Tables

variable {urls : Urls} {p q : Page} {done rest : List Node} {table : Node}
  {new : Nat → Option Forest} {e : RevisionError}

theorem firstFails_cons : FirstFails (table :: rest) e ↔
    Fails table e ∨ (∀ e', ¬ Fails table e') ∧ FirstFails rest e := by
  constructor
  · rintro ⟨before, t, after, hsplit, hbefore, hfails⟩
    cases before with
    | nil =>
      cases hsplit
      exact Or.inl hfails
    | cons b before =>
      cases hsplit
      obtain ⟨hfirst, hbefore⟩ := List.forall_mem_cons.mp hbefore
      exact Or.inr ⟨hfirst, before, t, after, rfl, hbefore, hfails⟩
  · rintro (hfails | ⟨hfirst, before, t, after, rfl, hbefore, hfails⟩)
    · exact ⟨[], table, rest, rfl, List.forall_mem_nil _, hfails⟩
    · exact ⟨table :: before, t, after, rfl, List.forall_mem_cons.mpr ⟨hfirst, hbefore⟩, hfails⟩

/-- Something is wrong with a first table unless nothing is wrong with any. -/
theorem exists_firstFails (tables : List Node) :
    (∀ t ∈ tables, ∀ e, ¬ Fails t e) ∨ ∃ e, FirstFails tables e := by
  induction tables with
  | nil => exact Or.inl (List.forall_mem_nil _)
  | cons t tables ih =>
    by_cases hfirst : ∃ e, Fails t e
    · obtain ⟨e, he⟩ := hfirst
      exact Or.inr ⟨e, firstFails_cons.mpr (Or.inl he)⟩
    · have hnot : ∀ e, ¬ Fails t e := not_exists.mp hfirst
      rcases ih with hall | ⟨e, he⟩
      · exact Or.inl (List.forall_mem_cons.mpr ⟨hnot, hall⟩)
      · exact Or.inr ⟨e, firstFails_cons.mpr (Or.inr ⟨hnot, he⟩)⟩

/-- The labels `added` are completed in `new'` besides those of `new`. -/
structure Adds (new new' : Nat → Option Forest) (added : List Nat) : Prop where
  nodup : added.Nodup
  fresh : ∀ l ∈ added, new l = none
  ne_none_iff : ∀ l, new' l ≠ none ↔ new l ≠ none ∨ l ∈ added

theorem adds_nil (new : Nat → Option Forest) : Adds new new [] :=
  ⟨List.nodup_nil, List.forall_mem_nil _, by simp⟩

theorem Adds.cons {new' : Nat → Option Forest} {added : List Nat} {s : Nat} {g : Forest}
    (h : Adds (Function.update new s (some g)) new' added) (hs : new s = none) :
    Adds new new' (s :: added) := by
  have hne : s ∉ added := by
    intro hmem
    have hfresh := h.fresh s hmem
    rw [Function.update_self] at hfresh
    cases hfresh
  constructor
  · exact List.nodup_cons.mpr ⟨hne, h.nodup⟩
  · intro l hl
    rcases List.mem_cons.mp hl with rfl | hl
    · exact hs
    · have hls : l ≠ s := fun heq => hne (heq ▸ hl)
      rw [← Function.update_of_ne hls (some g) new, h.fresh l hl]
  · intro l
    rw [h.ne_none_iff, List.mem_cons]
    by_cases hls : l = s
    · simp [hls]
    · rw [Function.update_of_ne hls]
      simp [hls]

/-- **The tables that are left**: the first that fails decides, and if none does, the labels that
they add are counted. -/
theorem Completed.labelTables (hp : p.Labelled) (h : Completed urls p done new q)
    (hsplit : p.elements "table" = done ++ rest) :
    (∀ e, FirstFails rest e → (labelTables urls (rest.map (·.label)) q).2 = .error e) ∧
    ((∀ t ∈ rest, ∀ e, ¬ Fails t e) →
      ∃ (new' : Nat → Option Forest) (added : List Nat) (q' : Page),
        Page.labelTables urls (rest.map (·.label)) q = (q', .ok added.length) ∧
          Completed urls p (done ++ rest) new' q' ∧ Adds new new' added) := by
  induction rest generalizing done new q with
  | nil =>
    constructor
    · rintro e ⟨before, t, after, hnil, -⟩
      simp at hnil
    · intro _
      exact ⟨new, [], q, rfl, by simpa using h, adds_nil new⟩
  | cons table rest ih =>
    have hsplit' : p.elements "table" = (done ++ [table]) ++ rest := by simpa using hsplit
    have hlist : done ++ table :: rest = (done ++ [table]) ++ rest := by simp
    rw [List.map_cons, Page.labelTables, List.forall_mem_cons]
    simp only [firstFails_cons]
    by_cases hfails : ∃ e, Fails table e
    · -- the run ends here
      obtain ⟨e, he⟩ := hfails
      rw [h.labelOf_of_fails hp hsplit he]
      constructor
      · rintro e' (he' | ⟨hnot, -⟩)
        · rw [he.unique he']
        · exact absurd he (hnot e)
      · rintro ⟨hnot, -⟩
        exact absurd he (hnot e)
    · have hnot : ∀ e, ¬ Fails table e := not_exists.mp hfails
      have hfirst : ∀ e, Fails table e ∨ (∀ e', ¬ Fails table e') ∧ FirstFails rest e →
          FirstFails rest e := by
        rintro e (he | ⟨-, he⟩)
        · exact absurd he (hnot e)
        · exact he
      rw [hlist]
      rcases h.step hp hsplit hnot with ⟨hnone, hskip⟩ | ⟨label, owner, hlabel, hnew, hcomplete⟩
      · obtain ⟨herror, hok⟩ := ih hskip hsplit'
        rw [hnone]
        exact ⟨fun e he => herror e (hfirst e he), fun hall => hok hall.2⟩
      · obtain ⟨herror, hok⟩ := ih hcomplete hsplit'
        rw [hlabel]
        constructor
        · intro e he
          show Except.map (· + 1) (Page.labelTables urls (rest.map (·.label)) _).2 = .error e
          rw [herror e (hfirst e he)]
          rfl
        · rintro ⟨-, hall⟩
          obtain ⟨new', added, q', hrun, hcompleted, hadds⟩ := hok hall
          refine ⟨new', label.label :: added, q', ?_, hcompleted, hadds.cons hnew⟩
          simp only [hrun]
          rfl

end Tables

/-- **Which labels are completed, and when this fails.**  On a page that was not changed, the first
table with which something is wrong decides the error.  If there is none, the labels that are
completed are the only ones of some table of an inherited member.  Below each of them stands
what names the class of the signature, as a copy with labels that were free: a single link to the
page of the class whose only child is the text, or the text alone if no page is known.  Everything
else on the page is as it was. -/
theorem label_eq {p : Page} (h : p.Labelled) (urls : Urls) :
    (∀ e, (p.label urls).2 = .error e ↔ FirstFails (p.elements "table") e) ∧
    ((∀ table ∈ p.elements "table", ∀ e, ¬ Fails table e) →
      ∃ (labels : List Nat) (new : Nat → Option Forest),
        (p.label urls).2 = .ok labels.length ∧ labels.Nodup ∧
        (∀ l, l ∈ labels ↔ ∃ table ∈ p.elements "table", ∃ label owner,
          Completes table label owner ∧ label.label = l) ∧
        (∀ l, l ∈ labels ↔ new l ≠ none) ∧
        (∀ table ∈ p.elements "table", ∀ label owner, Completes table label owner →
          ∃ k, p.next ≤ k ∧ new label.label = some ((labelText urls owner).relabel k).1 ∧
            (∀ url, urls.lookup owner = some url → new label.label = some
              (.cons k (.element { name := "a", attrs := [{ name := "href", value := url }] })
                (.cons (k + 1) (.text ("inherited from " ++ owner)) .nil .nil) .nil)) ∧
            (urls.lookup owner = none → new label.label = some
              (.cons k (.text ("inherited from " ++ owner)) .nil .nil))) ∧
        (p.label urls).1.body = p.body.replaceBelow new ∧
        ∀ n ∈ p.forest.nodes, (p.label urls).1.node? n.label = some (n.replaceBelow new)) := by
  obtain ⟨herror, hok⟩ := (Completed.nil urls h).labelTables h (List.nil_append _).symm
  constructor
  · intro e
    refine ⟨fun hresult => ?_, herror e⟩
    rcases exists_firstFails (p.elements "table") with hall | ⟨e', he'⟩
    · obtain ⟨new, added, q, hrun, -, -⟩ := hok hall
      rw [label, hrun] at hresult
      cases hresult
    · have hresult' := herror e' he'
      rw [← label, hresult] at hresult'
      cases hresult'
      exact he'
  · intro hall
    obtain ⟨new, added, q, hrun, hcompleted, hadds⟩ := hok hall
    rw [List.nil_append] at hcompleted
    have hadded : ∀ l, l ∈ added ↔ new l ≠ none := by
      intro l
      simp [hadds.ne_none_iff l]
    have hroot : new root = none := by
      rw [Option.eq_none_iff_forall_ne_some]
      intro g hg
      obtain ⟨table, htable, label, owner, k, hlabel, heq, -, -⟩ := hcompleted.completes _ g hg
      have hmem := (hcompleted.label_mem_body htable hlabel).1
      exact h.root_notMem_body (heq ▸ Forest.label_mem_preorder hmem)
    rw [label, hrun]
    refine ⟨added, new, rfl, hadds.nodup, ?_, hadded, ?_, ?_, hcompleted.node?⟩
    · intro l
      rw [hadded]
      constructor
      · intro hl
        obtain ⟨g, hg⟩ := Option.ne_none_iff_exists'.mp hl
        obtain ⟨table, htable, label, owner, k, hlabel, heq, -, -⟩ := hcompleted.completes l g hg
        exact ⟨table, htable, label, owner, hlabel, heq⟩
      · rintro ⟨table, htable, label, owner, hlabel, rfl⟩
        obtain ⟨k, -, hnew⟩ := hcompleted.new table htable label owner hlabel
        rw [hnew]
        exact Option.some_ne_none _
    · intro table htable label owner hlabel
      obtain ⟨k, hk, hnew⟩ := hcompleted.new table htable label owner hlabel
      refine ⟨k, hk, hnew, fun url hurl => ?_, fun hnone => ?_⟩
      · rw [hnew, relabel_labelText_of_some hurl]
      · rw [hnew, relabel_labelText_of_none hnone]
    · have hdocument := hcompleted.node? _ h.document_mem
      rw [Node.replaceBelow] at hdocument
      simp only [hroot, Option.getD_none] at hdocument
      rw [body, document, hdocument]
      rfl

/-- A table with a label, and a table in it that holds the signature. -/
def memberTable (signature : String) : Forest :=
  .ofElement "table" [("class", "mlabels")]
    (.ofElement "td" []
        (.ofElement "table" [] (.ofElement "td" [("class", "memname")] (.ofText signature))) ++
      .ofElement "td" [] (.ofElement "span" [("class", "mlabel")] (.ofText "inherited")))

/-- Two members, one of a class that the diagram knows. -/
def inheritedMembers : Forest := memberTable "int BfObject::doMath" ++ memberTable "Ship::fire"

/-- The page of a class with these members. -/
def inheritedPage : Page := Page.empty.append root inheritedMembers

/-- The same in a table that holds everything. -/
def layoutPage : Page := Page.empty.append root (.ofElement "table" [] inheritedMembers)

/-- The only page of a class that is known. -/
def objectUrls : Urls := [("BfObject", "class_bf_object.html")]

theorem label_inheritedPage :
    inheritedPage.Labelled ∧
      (∀ table ∈ inheritedPage.elements "table", ∀ e, ¬ Fails table e) ∧
      (∃ (labels : List Nat) (new : Nat → Option Forest), labels.length = 2 ∧
        (∀ l, l ∈ labels ↔ new l ≠ none) ∧
        (∃ k, new 7 = some (.cons k
          (.element { name := "a", attrs := [{ name := "href", value := "class_bf_object.html" }] })
            (.cons (k + 1) (.text "inherited from BfObject") .nil .nil) .nil)) ∧
        (∃ k, new 15 = some (.cons k (.text "inherited from Ship") .nil .nil)) ∧
        (inheritedPage.label objectUrls).1.body = inheritedPage.body.replaceBelow new) ∧
      ((inheritedPage.label objectUrls).1.node? 7).map (·.below) = some (.cons 17
        (.element { name := "a", attrs := [{ name := "href", value := "class_bf_object.html" }] })
          (.cons 18 (.text "inherited from BfObject") .nil .nil) .nil) ∧
      ((inheritedPage.label objectUrls).1.node? 15).map (·.below) =
        some (.cons 19 (.text "inherited from Ship") .nil .nil) ∧
      layoutPage.Labelled ∧ FirstFails (layoutPage.elements "table") (.ambiguousSignature 2) := by
  have hempty : Page.empty.Labelled := ⟨by decide, by decide, _, _, rfl⟩
  have hpage : inheritedPage.Labelled := (follows_append hempty root _).labelled
  have hlayout : layoutPage.Labelled := (follows_append hempty root _).labelled
  have hgood : (inheritedPage.elements "table").all (fun t => (labelOf t).isOk) = true := by
    decide +kernel
  have hnot : ∀ table ∈ inheritedPage.elements "table", ∀ e, ¬ Fails table e := by
    intro table htable e hfails
    have hok := List.all_eq_true.mp hgood table htable
    rw [labelOf_eq_error_iff.mpr hfails] at hok
    cases hok
  have htwo : (inheritedPage.label objectUrls).2 = .ok 2 := by decide +kernel
  have herror : (layoutPage.label []).2 = .error (.ambiguousSignature 2) := by decide +kernel
  obtain ⟨labels, new, hlabels, -, -, hnew, hcontents, hbody, -⟩ :=
    (label_eq hpage objectUrls).2 hnot
  have hlength : labels.length = 2 := by
    rw [htwo] at hlabels
    exact (Except.ok.inj hlabels).symm
  have hobject : Completes ((inheritedPage.node? 1).getD default)
      ((inheritedPage.node? 7).getD default) "BfObject" :=
    labelOf_eq_some_iff.mp (by decide +kernel)
  have hship : Completes ((inheritedPage.node? 9).getD default)
      ((inheritedPage.node? 15).getD default) "Ship" :=
    labelOf_eq_some_iff.mp (by decide +kernel)
  obtain ⟨k, -, -, hlink, -⟩ := hcontents _ (by decide +kernel) _ _ hobject
  obtain ⟨m, -, -, -, htext⟩ := hcontents _ (by decide +kernel) _ _ hship
  exact ⟨hpage, hnot, ⟨labels, new, hlength, hnew, ⟨k, hlink _ rfl⟩, ⟨m, htext rfl⟩, hbody⟩,
    by decide +kernel, by decide +kernel, hlayout, ((label_eq hlayout []).1 _).mp herror⟩

end BindingDocs.Page
