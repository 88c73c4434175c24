import BindingDocs.Proofs.Page.SignatureTables
import BindingDocs.Proofs.Text.Trim

/-!
# Return types in links

The renderer writes a type that it knows as a link, and a type that it does not know as a text.  A
signature is read from the texts directly inside its cell, so a return type in a link in front of
the signature is not part of it.  The summary then shows what is left of the return type, or that
there is none.

## Main definitions

* `Forest.leadingText` — what a cell says before its signature, in links and otherwise.
* `Member.before` — what a signature says before the class.
* `namedReturn` — the return type that a cell names.
* `Page.ShowsReturnTypes` — all summaries show the return types that the cells name.

## Main results

* `Member.eq_before` — the parts of a signature.
* `returnText_eq_iff` — when the signature says as much as its cell.
* `Reduces.isNewSummary_iff` — the row that a table gets.
* `Turn.node?_summary` — **a summary stays as it is.**
* `showsReturnTypes_iff` — **the pages whose summaries show the return types.**
-/

namespace BindingDocs.Page

open Page (Forest Item Node)
open Text

/-! ### What a cell says before the class -/

/-- The texts of the trees in front of the first text among the roots, joined. -/
def Forest.leadingText : Forest → String
  | nil => ""
  | cons _ i below next =>
    if i.text?.isSome then "" else below.innerText ++ next.leadingText

/-- What a signature says before the class. -/
def Member.before (text : List Char) : List Char :=
  match splitLast? [':', ':'] (trim text) with
  | some (qualifier, _) =>
    match splitLastBy? isBlank (trim qualifier) with
    | some (returns, _) => text.takeWhile isBlank ++ returns
    | none => text.takeWhile isBlank
  | none => []

section Signature

variable {text : List Char} {m : Member}

/-- A text in front of which there are no blanks is trimmed at its end only. -/
theorem eq_trim_of_head {s : List Char} (h : ∀ c, s.head? = some c → isBlank c = false) :
    ∃ b, IsBlankText b ∧ s = trim s ++ b := by
  obtain ⟨b, hb, heq⟩ := eq_trim s
  have hnone : s.takeWhile isBlank = [] := by
    cases s with
    | nil => rfl
    | cons c s => rw [List.takeWhile_cons_of_neg (by simp [h c rfl])]
  rw [hnone, List.nil_append] at heq
  exact ⟨b, hb, heq⟩

/-- **The parts of a signature**: what it says before the class, the class, and the member behind
two colons, with blanks between them. -/
theorem Member.eq_before (h : Member.parse? text = some m) :
    trim (Member.before text) = m.returns ∧ ∃ gap gap' rest, IsBlankText gap ∧ IsBlankText gap' ∧
      text = Member.before text ++ (gap ++ (m.owner ++ (gap' ++ ("::".toList ++ rest)))) := by
  obtain ⟨⟨qualifier, name⟩, hsplit, hm⟩ := Option.map_eq_some_iff.mp h
  obtain ⟨tail, -, htext⟩ := eq_trim text
  have hlead := isBlankText_takeWhile text
  have hparts := splitLast?_eq_some hsplit
  -- the part before the colons begins where the text does
  have hhead : ∀ c, qualifier.head? = some c → isBlank c = false := by
    intro c hc
    refine (isTrimmed_trim text).head c ?_
    rw [hparts, List.head?_append, hc]
    rfl
  obtain ⟨gap', hgap', hqualifier⟩ := eq_trim_of_head hhead
  rw [Member.before, hsplit]
  dsimp only at hm ⊢
  cases hlast : splitLastBy? isBlank (trim qualifier) with
  | none =>
    rw [hlast] at hm
    subst hm
    refine ⟨trim_eq_nil_iff.mpr hlead, [], gap', name ++ tail, List.forall_mem_nil _, hgap', ?_⟩
    calc text = text.takeWhile isBlank ++ (trim text ++ tail) := htext
      _ = text.takeWhile isBlank ++ ((trim qualifier ++ gap' ++ ([':', ':'] ++ name)) ++ tail) := by
        rw [← hqualifier, ← hparts]
      _ = _ := by simp
  | some parts =>
    obtain ⟨returns, owner⟩ := parts
    obtain ⟨c, hc, hq⟩ := splitLastBy?_eq_some hlast
    rw [hlast] at hm
    subst hm
    refine ⟨trim_append_of_left hlead returns, [c], gap', name ++ tail, by simpa [IsBlankText],
      hgap', ?_⟩
    calc text = text.takeWhile isBlank ++ (trim text ++ tail) := htext
      _ = text.takeWhile isBlank ++ ((trim qualifier ++ gap' ++ ([':', ':'] ++ name)) ++ tail) := by
        rw [← hqualifier, ← hparts]
      _ = _ := by
        rw [hq]
        simp

/-- **When a signature says as much about the return type as its cell**: nothing stands in front of
it there, or it says nothing itself and the cell says that there is none. -/
theorem returnText_eq_iff (h : Member.parse? text = some m) (leading : List Char) :
    (trim (leading ++ Member.before text) ≠ [] →
      returnText m.returns = String.ofList (trim (leading ++ Member.before text))) ↔
    trim leading = [] ∨ m.returns = [] ∧ trim leading = "nil".toList := by
  have hbefore := (Member.eq_before h).1
  by_cases hleading : trim leading = []
  · rw [trim_append_of_left (trim_eq_nil_iff.mp hleading), hbefore, returnText]
    simp +contextual [hleading]
  · by_cases hreturns : m.returns = []
    · rw [trim_append_of_right (trim_eq_nil_iff.mp (hbefore.trans hreturns)), returnText,
        if_pos hreturns]
      simp only [hleading, hreturns, ne_eq, not_false_eq_true, forall_true_left, false_or, true_and]
      constructor
      · intro heq
        rw [heq, String.toList_ofList]
      · intro heq
        rw [heq, String.ofList_toList]
    · -- the text in front of the signature is missing
      have hne : trim (Member.before text) ≠ [] := by rwa [hbefore]
      obtain ⟨between, heq⟩ := exists_trim_append hleading hne
      rw [heq, hbefore, returnText, if_neg hreturns]
      have hpos := List.length_pos_iff.mpr hleading
      simp only [hleading, hreturns, false_and, or_false, iff_false]
      intro hshown
      have hlist := congrArg String.toList (hshown (by simp [hleading]))
      rw [String.toList_ofList, String.toList_ofList] at hlist
      have hlength := congrArg List.length hlist
      rw [List.length_append, List.length_append] at hlength
      omega

end Signature

/-! ### The row that a table gets -/

/-- A summary that came into a page. -/
structure IsNewSummary (p q : Page) (row : Node) : Prop where
  mem : row ∈ q.forest.nodes
  new : p.next ≤ row.label
  hasClass : row.hasClass "tr" "nofloat argline" = true

section Row

variable {p q : Page} {table first n row : Node} {signature : String} {m : Member} {l : Nat}

/-- The summary of a table, as one row. -/
theorem exists_summary (p : Page) (table first : Node) (m : Member) :
    ∃ (row : Node) (names types : List Node), p.summaryTree table first m = row.toForest ∧
      row.label = p.next + 1 ∧ IsSummary row names types m.returns := by
  obtain ⟨row, hrow, hlabel, hsummary⟩ := exists_row (p.next + 1) (table.elements "td").length
    ((p.named first m).refresh (nameCells table)) ((p.named first m).refresh (typeCells table))
    m.returns
  exact ⟨row, _, _, hrow, hlabel, hsummary⟩

/-- The row stands where the rows of the table are kept. -/
theorem Reduces.mem_row (hp : p.Labelled) (htable : table ∈ p.forest.nodes)
    (h : Reduces table first signature m) (hsummary : HasSummary table)
    (hrow : p.summaryTree table first m = row.toForest) :
    row ∈ (p.reduce table first m).forest.nodes ∧
      (p.reduce table first m).forest.Lists table.rowContainer.label row.label := by
  have hnode := h.node?_reduce_label hp htable (rowContainer_mem_nodes htable)
  have hcontainer := ((addsNo_reduce hp table first m).labelled.node?_eq_some_iff.mp hnode).1
  have hput : row ∈ (table.rowContainer.reduced p table first m).below.nodes ∧
      row.label ∈ (table.rowContainer.reduced p table first m).below.rootLabels := by
    rw [Node.reduced, if_pos hsummary, Node.updateBelow, if_pos (by simp), hrow,
      Forest.nodes_append, Forest.rootLabels_append]
    exact ⟨List.mem_append_right _ List.mem_cons_self, List.mem_append_right _ List.mem_cons_self⟩
  exact ⟨(Forest.nodes_below_sublist hcontainer).subset hput.1,
    _, hcontainer, label_reduced _ _ _ _ _, hput.2⟩

/-- **The row that a table gets** is the only summary that comes into the page. -/
theorem Reduces.isNewSummary_iff (hp : p.Labelled) (htable : table ∈ p.forest.nodes)
    (h : Reduces table first signature m) (hsummary : HasSummary table)
    (hrow : p.summaryTree table first m = row.toForest) {names types : List Node}
    (hshows : IsSummary row names types m.returns) (hlabel : row.label = p.next + 1) :
    IsNewSummary p (p.reduce table first m) n ↔ n = row := by
  have hnamed := addsNo_named hp "tr" first m
  have hdetach := hnamed.trans (addsNo_detachAll hnamed.labelled "tr" (typeCells table))
  have hnext : ((p.named first m).detachAll (typeCells table)).next = p.next + 1 := by
    rw [next_detachAll, named, next_setText]
  have hreduce : (p.reduce table first m).forest =
      ((p.named first m).detachAll (typeCells table)).forest.updateBelow table.rowContainer.label
        (· ++ row.toForest) := by
    rw [reduce, if_pos hsummary, ← hrow, summaryTree, ← hnext]
    rfl
  have hrownodes : row.toForest.nodes = row :: row.below.nodes := by
    simp [Node.toForest, Forest.nodes]
  constructor
  · rintro ⟨hmem, hnew, hclass⟩
    have htr := isElement_of_hasClass hclass
    rw [hreduce] at hmem
    rcases Forest.mem_nodes_updateBelow_append hmem with ⟨k, hk, hklabel, hitem⟩ | hput
    · -- the name in the first cell is no row
      have hlacks := hdetach.lacks k hk (hklabel ▸ hnew)
      rw [Node.isElement, Node.localName?, hitem] at hlacks
      rw [Node.isElement, Node.localName?, hlacks] at htr
      cases htr
    · rw [hrownodes, List.mem_cons] at hput
      refine hput.resolve_right fun hbelow => ?_
      rw [hshows.lacks_tr n hbelow] at htr
      cases htr
  · rintro rfl
    exact ⟨(h.mem_row hp htable hsummary hrow).1, by omega, hshows.hasClass⟩

/-- A table that has not as many types as names gets no row. -/
theorem not_isNewSummary (hp : p.Labelled) (hsummary : ¬ HasSummary table) :
    ¬ IsNewSummary p (p.reduce table first m) n := by
  rintro ⟨hmem, hnew, hclass⟩
  rw [reduce, if_neg hsummary] at hmem
  have htr := isElement_of_hasClass hclass
  rw [(addsNo_named hp "tr" first m).lacks n hmem hnew] at htr
  cases htr

/-! ### Summaries stay -/

/-- What stands below a node is listed by the node or by one below it. -/
theorem Forest.exists_lists_of_mem_below {f : Forest} {c : Nat} (hn : n ∈ f.nodes)
    (hc : c ∈ n.below.preorder) : ∃ a ∈ n.toForest.preorder, f.Lists a c := by
  rcases mem_preorder_iff.mp hc with hroot | ⟨a, hlists⟩
  · exact ⟨n.label, Node.mem_toForest_iff.mpr (Or.inl rfl), n, hn, rfl, hroot⟩
  · exact ⟨a, Node.mem_toForest_iff.mpr (Or.inr hlists.mem_preorder_left),
      lists_of_mem_nodes hn hlists⟩

/-- A table that does not stand around another does not hold the place where that one keeps its
rows. -/
theorem rowContainer_notMem (hp : p.Labelled) (htable : table ∈ p.forest.nodes) {other : Node}
    (hother : other ∈ p.forest.nodes) (htag : other.isElement "table" = true)
    (hne : other.label ≠ table.label) (hnot : table.label ∉ other.below.preorder) :
    table.rowContainer.label ∉ other.toForest.preorder := by
  have hout : table.label ∉ other.toForest.preorder := by
    rw [Node.mem_toForest_iff, not_or]
    exact ⟨hne.symm, hnot⟩
  intro hin
  rcases rowContainer_mem table with heq | ⟨hroot, hbody⟩
  · exact hout (heq ▸ hin)
  · rcases Node.mem_toForest_iff.mp hin with heq | hbelow
    · -- a table is no body of a table
      rw [Forest.eq_of_label_eq hp.nodup (rowContainer_mem_nodes htable) hother heq] at hbody
      exact absurd (eq_of_isElement htag hbody) (by decide)
    · obtain ⟨a, ha, hlists⟩ := Forest.exists_lists_of_mem_below hother hbelow
      have hlisted : p.forest.Lists table.label table.rowContainer.label := by
        refine ⟨table, htable, rfl, ?_⟩
        rw [← Forest.map_label_roots]
        exact List.mem_map_of_mem hroot
      exact hout (hlists.unique hp.nodup hlisted ▸ ha)

/-- **The row of a table stands apart from the tables that are not around it.** -/
theorem Reduces.apart_row (hp : p.Labelled) (htable : table ∈ p.forest.nodes)
    (h : Reduces table first signature m) (hsummary : HasSummary table)
    (hrow : p.summaryTree table first m = row.toForest) {other : Node}
    (hother : other ∈ p.forest.nodes) (htag : other.isElement "table" = true)
    (hne : other.label ≠ table.label) (hnot : table.label ∉ other.below.preorder) :
    (p.reduce table first m).Apart row.label other.label := by
  have hfollows := (addsNo_reduce hp table first m).toFollows
  have hafter := hfollows.labelled
  have holdlt := hp.label_lt_next hother
  have hnew : ∀ l ∈ row.toForest.preorder, p.next ≤ l := by
    intro l hl
    rw [← hrow, summaryTree, Forest.preorder_relabel, List.mem_range'_1] at hl
    omega
  obtain ⟨hrowmem, hlisted⟩ := h.mem_row hp htable hsummary hrow
  have hotherafter := (hafter.node?_eq_some_iff.mp (h.node?_reduce_label hp htable hother)).1
  refine ⟨?_, ?_, ?_⟩
  · have hle := hnew row.label (Node.mem_toForest_iff.mpr (Or.inl rfl))
    omega
  · rw [← label_reduced other p table first m, hafter.isDescendant_eq_false_iff hotherafter]
    intro hbelow
    obtain ⟨a, ha, hlists⟩ := Forest.exists_lists_of_mem_below hotherafter hbelow
    rw [hlists.unique hafter.nodup hlisted] at ha
    refine rowContainer_notMem hp htable hother htag hne hnot (Node.mem_toForest_iff.mpr ?_)
    rcases Node.mem_toForest_iff.mp ha with heq | hin
    · exact Or.inl (heq.trans (label_reduced _ _ _ _ _))
    · exact Or.inr (hfollows.mem_below hp hotherafter hother (label_reduced _ _ _ _ _).symm
        (hp.label_lt_next (rowContainer_mem_nodes htable)) hin)
  · rw [hafter.isDescendant_eq_false_iff hrowmem]
    intro hbelow
    have hle := hnew _ (Node.mem_toForest_iff.mpr (Or.inr hbelow))
    omega

end Row

section Turn

variable {p q q' : Page} {table row : Node} {c : Nat}

/-- No label is lost. -/
theorem mem_preorder_cleanTables {ls : List Nat} (hp : p.Labelled) (hc : c ∈ p.forest.preorder) :
    c ∈ (cleanTables ls p).1.forest.preorder := by
  induction ls generalizing p with
  | nil => exact hc
  | cons l ls ih =>
    cases hclean : p.cleanTable? l with
    | some q =>
      obtain ⟨table, first, signature, m, hnode, h, rfl⟩ := (cleanTable?_eq_some_iff hp).mp hclean
      have htable := (hp.node?_eq_some_iff.mp hnode).1
      rw [(cleanTables_cons_of_some hclean ls).1]
      exact ih (addsNo_reduce hp table first m).labelled (h.mem_preorder hp htable hc)
    | none =>
      rw [(cleanTables_cons_of_none hclean ls).1]
      exact ih hp hc

theorem Turn.mem_preorder (hp : p.Labelled) (h : Turn p q table) (hc : c ∈ p.forest.preorder) :
    c ∈ q.forest.preorder := by
  obtain ⟨before, old, after, -, -, rfl, -⟩ := h
  exact mem_preorder_cleanTables hp hc

theorem Turn.label_lt_next (hp : p.Labelled) (h : Turn p q table) : table.label < p.next := by
  obtain ⟨before, old, after, hsplit, hlabel, -, -⟩ := h
  have hold : old ∈ p.signatureTables := by simp [hsplit]
  have hmem := hp.mem_nodes_of_mem_body (mem_signatureTables_iff.mp hold).1
  exact hlabel ▸ hp.label_lt_next hmem

/-- The summary of a table stands apart from the tables that are visited later. -/
theorem Turn.apart_row (hp : p.Labelled) (hturn : Turn p q table)
    (h : Reduces table first signature m) (hsummary : HasSummary table)
    (hrow : q.summaryTree table first m = row.toForest) {other : Node}
    (hother : other ∈ p.signatureTables) (hne : other.label ≠ table.label)
    (hnot : table.label ∉ other.below.preorder) :
    other.label ∈ (q.reduce table first m).forest.preorder ∧
      (q.reduce table first m).Apart row.label other.label := by
  obtain ⟨hfollows, htable⟩ := hturn.follows hp
  have hq := hfollows.labelled
  obtain ⟨hbody, hclass⟩ := mem_signatureTables_iff.mp hother
  have hmem := hp.mem_nodes_of_mem_body hbody
  -- the other table by then
  obtain ⟨now, hnow, hlabel⟩ := Forest.exists_node_of_mem_preorder
    (hturn.mem_preorder hp (Forest.label_mem_preorder hmem))
  have hplace := place_eq hp hfollows hnow hmem hlabel.symm
  have htag := isElement_eq hplace "table" ▸ isElement_of_hasClass hclass
  rw [← hlabel] at hne ⊢
  refine ⟨h.mem_preorder hq htable (Forest.label_mem_preorder hnow),
    h.apart_row hq htable hsummary hrow hnow htag hne fun hbelow => hnot ?_⟩
  exact hfollows.mem_below hp hnow hmem hlabel.symm (hturn.label_lt_next hp) hbelow

/-- **A summary stays as it is** until all tables have been visited. -/
theorem Turn.node?_summary (hp : p.Labelled) (hturn : Turn p q table)
    (h : Reduces table first signature m) (hsummary : HasSummary table)
    (hrow : q.summaryTree table first m = row.toForest) :
    p.clean.1.node? row.label = some row := by
  obtain ⟨hfollows, htable⟩ := hturn.follows hp
  obtain ⟨after, hafter, hend, -⟩ :=
    hturn.exists_after hp (h.cleanTable? hfollows.labelled htable)
  have hstep := (addsNo_reduce hfollows.labelled table first m).labelled
  have hrowmem := (h.mem_row hfollows.labelled htable hsummary hrow).1
  have hapart : ∀ l ∈ after.map (·.label), l ∈ (q.reduce table first m).forest.preorder ∧
      (q.reduce table first m).Apart row.label l := by
    intro l hl
    obtain ⟨other, hother, rfl⟩ := List.mem_map.mp hl
    obtain ⟨hmem, hne, hnot⟩ := hafter other hother
    exact hturn.apart_row hp h hsummary hrow hmem hne hnot
  rw [hend]
  exact (node?_cleanTables_of_apart hstep (.refl hstep) (Forest.label_mem_preorder hrowmem) hapart
    (hstep.node?_label hrowmem)).1

/-- **The summary that a table gets when its turn comes**, and that stays as it is. -/
theorem Turn.exists_newSummary (hp : p.Labelled) (hturn : Turn p q table)
    (hclean : q.cleanTable? table.label = some q') :
    ∃ signature m, signatureNames table = [signature] ∧
      Member.parse? signature.toList = some m ∧
      (HasSummary table → ∃ row, (∀ n, IsNewSummary q q' n ↔ n = row) ∧
        row.below.spanTexts "returntype" = [returnText m.returns] ∧
        p.clean.1.node? row.label = some row) ∧
      (¬ HasSummary table → ∀ n, ¬ IsNewSummary q q' n) := by
  obtain ⟨hfollows, htable⟩ := hturn.follows hp
  have hq := hfollows.labelled
  obtain ⟨table', first, signature, m, hnode, h, rfl⟩ := (cleanTable?_eq_some_iff hq).mp hclean
  rw [hq.node?_label htable, Option.some.injEq] at hnode
  subst hnode
  refine ⟨signature, m, h.signatures, h.parsed, fun hsummary => ?_, fun hnone n =>
    not_isNewSummary hq hnone⟩
  obtain ⟨row, names, types, hrow, hlabel, hshows⟩ := exists_summary q table first m
  exact ⟨row, fun n => h.isNewSummary_iff hq htable hsummary hrow hshows hlabel,
    hshows.returnType, hturn.node?_summary hp h hsummary hrow⟩

end Turn

/-! ### What the summaries of a page show -/

/-- The cell of the only signature of a table. -/
structure IsSignatureCell (table cell : Node) (signature : String) : Prop where
  signatures : signatureNames table = [signature]
  mem : cell ∈ table.elements "td"
  hasClass : cell.hasClass "td" "memname" = true
  texts : cell.directTexts = [signature]

/-- A signature has a cell. -/
theorem exists_signatureCell {table : Node} {signature : String}
    (h : signatureNames table = [signature]) : ∃ cell, IsSignatureCell table cell signature := by
  have hmem : signature ∈ signatureNames table := by simp [h]
  obtain ⟨cell, hcell, htext⟩ := List.mem_flatMap.mp hmem
  obtain ⟨hcell, hclass⟩ := List.mem_filter.mp hcell
  have hsublist := directTexts_sublist (Node.mem_elements_iff.mp hcell).1 hclass
  rw [h, List.sublist_singleton] at hsublist
  refine ⟨cell, h, hcell, hclass, hsublist.resolve_left fun hnil => ?_⟩
  rw [hnil] at htext
  cases htext

section SignatureCell

variable {p q q' : Page} {table cell row : Node} {signature : String} {m : Member}

/-- A summary shows what the signature says. -/
theorem IsSignatureCell.exists_row (h : IsSignatureCell table cell signature) (hp : p.Labelled)
    (hturn : Turn p q table) (hclean : q.cleanTable? table.label = some q')
    (hm : Member.parse? signature.toList = some m) (hsummary : HasSummary table) :
    ∃ row, (∀ n, IsNewSummary q q' n ↔ n = row) ∧ ∀ shown : List Char,
      row.below.spanTexts "returntype" = [String.ofList shown] ↔
        returnText m.returns = String.ofList shown := by
  obtain ⟨signature', m', hsignatures, hm', hone, -⟩ := hturn.exists_newSummary hp hclean
  rw [h.signatures, List.cons.injEq] at hsignatures
  obtain ⟨rfl, -⟩ := hsignatures
  rw [hm, Option.some.injEq] at hm'
  subst hm'
  obtain ⟨row, honly, htype, -⟩ := hone hsummary
  exact ⟨row, honly, fun shown => by rw [htype, List.cons.injEq, and_iff_left rfl]⟩

/-- A table that gets a summary has as many types as names, and its signature names a class. -/
theorem IsSignatureCell.hasSummary (h : IsSignatureCell table cell signature) (hp : p.Labelled)
    (hturn : Turn p q table) (hclean : q.cleanTable? table.label = some q')
    (hnew : IsNewSummary q q' row) :
    HasSummary table ∧ ∃ m, Member.parse? signature.toList = some m := by
  obtain ⟨signature', m, hsignatures, hm, -, hnone⟩ := hturn.exists_newSummary hp hclean
  rw [h.signatures, List.cons.injEq] at hsignatures
  obtain ⟨rfl, -⟩ := hsignatures
  refine ⟨?_, m, hm⟩
  by_contra hno
  exact hnone hno row hnew

end SignatureCell

/-- The return type that a cell names: what stands before the class, in links and otherwise. -/
def namedReturn (cell : Node) (signature : String) : List Char :=
  trim (cell.below.leadingText.toList ++ Member.before signature.toList)

/-- Whenever a signature cell names a return type, the summary of its table shows it. -/
def ShowsReturnTypes (p : Page) : Prop :=
  ∀ q q' table cell signature row, p.Turn q table → q.cleanTable? table.label = some q' →
    IsSignatureCell table cell signature → IsNewSummary q q' row → namedReturn cell signature ≠ [] →
      row.below.spanTexts "returntype" = [String.ofList (namedReturn cell signature)]

/-- **The pages whose summaries show the return types.**  A table that is reduced gets one summary,
if it has as many types as names, and this stays as it is.  It shows what the signature says before
the class, or that there is nothing.  So it shows the return type that the cell names exactly if
nothing stands in front of the signature there, or the signature says nothing before the class and
the cell says `nil`. -/
theorem showsReturnTypes_iff {p : Page} (hp : p.Labelled) :
    (∀ q q' table, p.Turn q table → q.cleanTable? table.label = some q' →
      ∃ cell signature m, IsSignatureCell table cell signature ∧
        Member.parse? signature.toList = some m ∧
        (HasSummary table → ∃ row, (∀ n, IsNewSummary q q' n ↔ n = row) ∧
          row.below.spanTexts "returntype" = [returnText m.returns] ∧
          p.clean.1.node? row.label = some row) ∧
        (¬ HasSummary table → ∀ n, ¬ IsNewSummary q q' n)) ∧
    (p.ShowsReturnTypes ↔ ∀ q q' table cell signature m, p.Turn q table →
      q.cleanTable? table.label = some q' → HasSummary table →
        IsSignatureCell table cell signature → Member.parse? signature.toList = some m →
          trim cell.below.leadingText.toList = [] ∨
            m.returns = [] ∧ trim cell.below.leadingText.toList = "nil".toList) := by
  constructor
  · intro q q' table hturn hclean
    obtain ⟨signature, m, hsignatures, hrest⟩ := hturn.exists_newSummary hp hclean
    obtain ⟨cell, hcell⟩ := exists_signatureCell hsignatures
    exact ⟨cell, signature, m, hcell, hrest⟩
  · constructor
    · intro hshows q q' table cell signature m hturn hclean hsummary hcell hm
      obtain ⟨row, honly, htype⟩ := hcell.exists_row hp hturn hclean hm hsummary
      refine (returnText_eq_iff hm _).mp fun hnamed => (htype _).mp ?_
      exact hshows q q' table cell signature row hturn hclean hcell ((honly row).mpr rfl) hnamed
    · intro hleading q q' table cell signature row hturn hclean hcell hnew hnamed
      obtain ⟨hsummary, m, hm⟩ := hcell.hasSummary hp hturn hclean hnew
      obtain ⟨row', honly, htype⟩ := hcell.exists_row hp hturn hclean hm hsummary
      rw [(honly row).mp hnew]
      exact (htype _).mpr ((returnText_eq_iff hm _).mpr
        (hleading q q' table cell signature m hturn hclean hsummary hcell hm) hnamed)

/-- A page with a member that returns a class with a page of its own. -/
def pointPage : Page := Page.empty.append root
  (.ofElement "table" [("class", "memname")] (.ofElement "tbody" [] (.ofElement "tr" []
    (signatureCell "memname" (.ofElement "a" [("class", "el"), ("href", "class_point.html")]
        (.ofText "Point") ++ .ofText " Ship::getLoc") ++
      signatureCell "paramtype" (.ofText "int ") ++ signatureCell "paramname" (.ofText "slot")))))

theorem not_showsReturnTypes_pointPage :
    pointPage.Labelled ∧ ¬ pointPage.ShowsReturnTypes := by
  have hempty : Page.empty.Labelled := ⟨by decide, by decide, _, _, rfl⟩
  have hpage : pointPage.Labelled := (follows_append hempty root _).labelled
  refine ⟨hpage, fun hshows => ?_⟩
  have hturn : pointPage.Turn pointPage ((pointPage.node? 1).getD default) :=
    ⟨[], (pointPage.node? 1).getD default, [], by decide +kernel, rfl, rfl, by decide +kernel⟩
  obtain ⟨q', hclean⟩ : ∃ q', pointPage.cleanTable? ((pointPage.node? 1).getD default).label =
      some q' := Option.isSome_iff_exists.mp (by decide +kernel)
  have hcell : IsSignatureCell ((pointPage.node? 1).getD default)
      ((pointPage.node? 4).getD default) " Ship::getLoc" := by
    constructor <;> decide +kernel
  have hleading := (showsReturnTypes_iff hpage).2.mp hshows pointPage q' _ _ _
    ⟨[], "Ship".toList, "getLoc".toList⟩ hturn hclean (by decide +kernel) hcell (by decide +kernel)
  exact absurd hleading (by decide +kernel)

end BindingDocs.Page
