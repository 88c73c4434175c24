import BindingDocs.Proofs.Page.SignatureTables

/-!
# Reducing signatures twice

Once the signatures of a page are reduced, nothing is left to do.  The name of a member is not
qualified, so a table that was reduced is not reduced again, and neither is any table around it that
holds the same first cell.  A table inside it that does not hold the cell has no signature at all,
because the only one of the outer table stood there.  All other tables are as they were.  So a table
is settled when its turn comes at the latest, and it stays so.

## Main definitions

* `IsFit` — a table whose only signature stands in its first cell.
* `IsSettled` — a table that is not reduced any more.

## Main results

* `Member.parse?_name` — the name of a member is not qualified.
* `Reduces.settled_or_eq` — **what one table does to the others.**
* `settled_cleanTables` — all tables that were visited are settled.
* `clean_again` — **a second run reduces nothing.**
-/

namespace BindingDocs.Page

open Page (Forest Item Node)

/-- **The name of a member is not qualified.** -/
theorem Member.parse?_name {text : List Char} {m : Member} (h : Member.parse? text = some m) :
    Member.parse? m.name = none := by
  obtain ⟨⟨qualifier, name⟩, hsplit, hm⟩ := Option.map_eq_some_iff.mp h
  have hname : m.name = Text.trim name := by
    rw [← hm]
    dsimp only
    split <;> rfl
  have hnot := Text.not_isInfix_of_splitLast? (by decide) hsplit
  have hqualified := isSome_memberParse?_iff.not.mpr fun hinfix =>
    hnot ((Text.isInfix_trim_iff (by decide) (by decide) rfl name).mp (hname ▸ hinfix))
  rwa [Option.not_isSome_iff_eq_none] at hqualified

/-! ### Tables that are settled -/

/-- The only signature of the table, if there is just one, stands in its first cell. -/
def IsFit (table : Node) : Prop :=
  (signatureNames table).length = 1 → ∃ first ∈ (table.elements "td").head?,
    first.hasClass "td" "memname" = true ∧ first.directTexts = signatureNames table

instance (table : Node) : Decidable (IsFit table) :=
  inferInstanceAs (Decidable (_ → _))

/-- The only signature of the table, if there is just one, names no class. -/
def IsSettled (table : Node) : Prop :=
  ∀ signature, signatureNames table = [signature] → Member.parse? signature.toList = none

section Tables

variable {p q : Page} {table first other cell : Node} {signature : String} {m : Member} {l : Nat}

theorem IsSettled.not_reduces (h : IsSettled table) : ¬ Reduces table first signature m := by
  intro hreduces
  have hparsed := hreduces.parsed
  rw [h signature hreduces.signatures] at hparsed
  cases hparsed

theorem IsSettled.of_signatures_eq_nil (h : signatureNames table = []) : IsSettled table := by
  intro signature hone
  rw [h] at hone
  cases hone

theorem Reduces.first_hasClass (h : Reduces table first signature m) (hfit : IsFit table) :
    first.hasClass "td" "memname" = true := by
  obtain ⟨first', hhead, hclass, -⟩ := hfit (by rw [h.signatures, List.length_singleton])
  rw [Option.mem_def, h.head, Option.some.injEq] at hhead
  rwa [hhead]

/-- In a table that is fit, no cell but the first holds a signature. -/
theorem IsFit.signatures_eq_nil (hfit : IsFit table) (h : Reduces table first signature m)
    (hin : other ∈ table.below.nodes) (hfirst : first ∉ other.below.nodes) :
    signatureNames other = [] := by
  obtain ⟨first', hhead, hclass, htexts⟩ := hfit (by rw [h.signatures, List.length_singleton])
  rw [Option.mem_def, h.head, Option.some.injEq] at hhead
  subst hhead
  obtain ⟨cells, hcells⟩ := List.head?_eq_some_iff.mp h.head
  -- the other cells of the table add nothing to the texts of the first
  have hrest : (cells.filter (·.hasClass "td" "memname")).flatMap (·.directTexts) = [] := by
    have hfilter : (first :: cells).filter (·.hasClass "td" "memname") =
        first :: cells.filter (·.hasClass "td" "memname") := List.filter_cons_of_pos hclass
    have hall := htexts
    rw [signatureNames, hcells, hfilter, List.flatMap_cons] at hall
    exact List.self_eq_append_right.mp hall
  rw [signatureNames, List.flatMap_eq_nil_iff]
  intro n hn
  obtain ⟨hn, hnclass⟩ := List.mem_filter.mp hn
  have hne : n ≠ first := by
    rintro rfl
    exact hfirst (Node.mem_elements_iff.mp hn).1
  have hntable := (Node.elements_sublist hin "td").subset hn
  rw [hcells, List.mem_cons] at hntable
  exact List.flatMap_eq_nil_iff.mp hrest n
    (List.mem_filter.mpr ⟨hntable.resolve_left hne, hnclass⟩)

/-! ### What one table does to the others -/

section Reduced

variable (hp : p.Labelled) (htable : table ∈ p.forest.nodes) (hfit : IsFit table)
  (h : Reduces table first signature m)

include hp htable hfit h

/-- A table that holds the first cell has the name of the member for a signature. -/
theorem Reduces.settled_of_mem (hother : other ∈ p.forest.nodes)
    (hin : first.label ∈ other.below.preorder) : IsSettled (other.reduced p table first m) := by
  have hclass := h.first_hasClass hfit
  have hafter := (addsNo_reduce hp table first m).labelled
  have hnode := h.node?_reduce_label hp htable (h.first_mem_forest htable)
  rw [h.reduced_first hp htable] at hnode
  have hturn := (hafter.node?_eq_some_iff.mp (h.node?_reduce_label hp htable hother)).1
  have hbelow := hafter.mem_below_of_node? hnode hturn
    (h.first_mem_below hp htable hclass hother hin)
  have hname := directTexts_sublist hbelow hclass
  intro signature' hone
  have htexts : [String.ofList m.name].Sublist [signature'] := hone ▸ hname
  obtain rfl : String.ofList m.name = signature' := by simpa using htexts
  rw [String.toList_ofList]
  exact Member.parse?_name h.parsed

/-- **What one table does to the others**: they are settled, or they are as they were. -/
theorem Reduces.settled_or_eq (hother : other ∈ p.forest.nodes)
    (htag : other.isElement "table" = true) :
    IsSettled (other.reduced p table first m) ∨ other.reduced p table first m = other := by
  obtain ⟨hfirst, htd⟩ := h.first_mem
  by_cases hin : first.label ∈ other.below.preorder
  · exact Or.inl (h.settled_of_mem hp htable hfit hother hin)
  · by_cases hinside : other ∈ table.below.nodes
    · left
      have hnone := hfit.signatures_eq_nil h hinside fun hbelow =>
        hin (Forest.label_mem_preorder hbelow)
      have hout : first.label ∉ other.toForest.preorder := by
        rw [Node.mem_toForest_iff, not_or]
        refine ⟨fun heq => ?_, hin⟩
        rw [Forest.eq_of_label_eq hp.nodup (h.first_mem_forest htable) hother heq] at htd
        exact absurd (eq_of_isElement htd htag) (by decide)
      refine IsSettled.of_signatures_eq_nil (List.eq_nil_of_sublist_nil ?_)
      exact hnone ▸ signatureNames_reduced_sublist hout
    · -- the table holds the first cell, and the other one does not
      right
      refine h.reduced_of_apart hp htable hother ⟨?_, ?_, ?_⟩
      · intro heq
        rw [Forest.eq_of_label_eq hp.nodup hother htable heq] at hin
        exact hin (Forest.label_mem_preorder hfirst)
      · rw [hp.isDescendant_eq_false_iff htable]
        exact fun hbelow => hinside (hp.mem_below_of_node? (hp.node?_label hother) htable hbelow)
      · rw [hp.isDescendant_eq_false_iff hother]
        intro hbelow
        have htablebelow := hp.mem_below_of_node? (hp.node?_label htable) hother hbelow
        exact hin ((Forest.preorder_below_sublist htablebelow).subset
          (Forest.label_mem_preorder hfirst))

end Reduced

/-! ### The run -/

/-- The table with this label is settled. -/
def Settled (p : Page) (l : Nat) : Prop :=
  ∃ table, p.node? l = some table ∧ table.isElement "table" = true ∧ IsSettled table

/-- The table with this label is settled or fit. -/
def Ready (p : Page) (l : Nat) : Prop :=
  ∃ table, p.node? l = some table ∧ table.isElement "table" = true ∧
    (IsSettled table ∨ IsFit table)

theorem Settled.cleanTable? (hp : p.Labelled) (h : Settled p l) : p.cleanTable? l = none := by
  obtain ⟨table, hnode, -, hsettled⟩ := h
  rw [Option.eq_none_iff_forall_ne_some]
  intro q hq
  obtain ⟨table', first, signature, m, hnode', hreduces, -⟩ := (cleanTable?_eq_some_iff hp).mp hq
  rw [hnode, Option.some.injEq] at hnode'
  subst hnode'
  exact hsettled.not_reduces hreduces

/-- A table that is not reduced is settled. -/
theorem settled_of_cleanTable?_eq_none (hp : p.Labelled) (h : Ready p l)
    (hnone : p.cleanTable? l = none) : Settled p l := by
  obtain ⟨table, hnode, htag, -⟩ := h
  obtain ⟨htable, rfl⟩ := hp.node?_eq_some_iff.mp hnode
  refine ⟨table, hnode, htag, fun signature hsignatures => ?_⟩
  rw [Option.eq_none_iff_forall_ne_some]
  intro m hm
  obtain ⟨first, hfirst⟩ := exists_first hsignatures
  have hreduces : Reduces table first signature m := ⟨hsignatures, hm, hfirst⟩
  rw [hreduces.cleanTable? hp htable] at hnone
  cases hnone

/-- **One table**: it is settled afterwards, and no other table is less so than before. -/
theorem Ready.step (hp : p.Labelled) (h : Ready p l) (hq : p.cleanTable? l = some q) :
    Settled q l ∧ ∀ k, (Ready p k → Ready q k) ∧ (Settled p k → Settled q k) := by
  obtain ⟨table, first, signature, m, hnode, hreduces, rfl⟩ := (cleanTable?_eq_some_iff hp).mp hq
  obtain ⟨htable, rfl⟩ := hp.node?_eq_some_iff.mp hnode
  obtain ⟨table', hnode', htag, hstate⟩ := h
  rw [hnode, Option.some.injEq] at hnode'
  subst hnode'
  have hfit := hstate.resolve_left fun hsettled => hsettled.not_reduces hreduces
  have hafter {other : Node} (hother : other ∈ p.forest.nodes) :=
    hreduces.node?_reduce_label hp htable hother
  have htags {other : Node} (htag : other.isElement "table" = true) :
      (other.reduced p table first m).isElement "table" = true := by
    rwa [Node.isElement, Node.localName?, item_reduced]
  refine ⟨⟨_, hafter htable, htags htag, ?_⟩, fun k => ⟨?_, ?_⟩⟩
  · exact hreduces.settled_of_mem hp htable hfit htable
      (Forest.label_mem_preorder hreduces.first_mem.1)
  · rintro ⟨other, hnode, htag, hstate⟩
    obtain ⟨hother, rfl⟩ := hp.node?_eq_some_iff.mp hnode
    refine ⟨_, hafter hother, htags htag, ?_⟩
    rcases hreduces.settled_or_eq hp htable hfit hother htag with hsettled | heq
    · exact Or.inl hsettled
    · rwa [heq]
  · rintro ⟨other, hnode, htag, hstate⟩
    obtain ⟨hother, rfl⟩ := hp.node?_eq_some_iff.mp hnode
    refine ⟨_, hafter hother, htags htag, ?_⟩
    rcases hreduces.settled_or_eq hp htable hfit hother htag with hsettled | heq
    · exact hsettled
    · rwa [heq]

/-- **All tables that were visited are settled**, and those that were so before stay so. -/
theorem settled_cleanTables {ls : List Nat} (hp : p.Labelled) (hls : ∀ l ∈ ls, Ready p l) :
    (∀ l ∈ ls, Settled (cleanTables ls p).1 l) ∧
      ∀ l, Settled p l → Settled (cleanTables ls p).1 l := by
  induction ls generalizing p with
  | nil => exact ⟨List.forall_mem_nil _, fun _ => id⟩
  | cons l ls ih =>
    obtain ⟨hl, hls⟩ := List.forall_mem_cons.mp hls
    cases hclean : p.cleanTable? l with
    | some q =>
      obtain ⟨hfirst, hstep⟩ := hl.step hp hclean
      have hq := ((leads_cleanTable? hclean).follows hp).labelled
      obtain ⟨hvisited, hkept⟩ := ih hq fun k hk => (hstep k).1 (hls k hk)
      rw [(cleanTables_cons_of_some hclean ls).1]
      exact ⟨List.forall_mem_cons.mpr ⟨hkept l hfirst, hvisited⟩,
        fun k hk => hkept k ((hstep k).2 hk)⟩
    | none =>
      obtain ⟨hvisited, hkept⟩ := ih hp hls
      rw [(cleanTables_cons_of_none hclean ls).1]
      have hfirst := settled_of_cleanTable?_eq_none hp hl hclean
      exact ⟨List.forall_mem_cons.mpr ⟨hkept l hfirst, hvisited⟩, hkept⟩

/-- Tables that are settled leave the page as it is. -/
theorem cleanTables_eq_self {ls : List Nat} (h : ∀ l ∈ ls, p.cleanTable? l = none) :
    cleanTables ls p = (p, 0) := by
  induction ls with
  | nil => rfl
  | cons l ls ih =>
    obtain ⟨hl, hls⟩ := List.forall_mem_cons.mp h
    rw [(cleanTables_cons_of_none hl ls).1, ih hls]

theorem addsNo_cleanTables (hp : p.Labelled) (ls : List Nat) :
    AddsNo "table" p (cleanTables ls p).1 := by
  induction ls generalizing p with
  | nil => exact .refl hp
  | cons l ls ih =>
    cases hclean : p.cleanTable? l with
    | some q =>
      obtain ⟨table, first, -, m, -, -, rfl⟩ := (cleanTable?_eq_some_iff hp).mp hclean
      have hstep := addsNo_reduce hp table first m
      rw [(cleanTables_cons_of_some hclean ls).1]
      exact hstep.trans (ih hstep.labelled)
    | none =>
      rw [(cleanTables_cons_of_none hclean ls).1]
      exact ih hp

/-- The signature tables afterwards are among those before. -/
theorem signatureTables_clean (hp : p.Labelled) :
    p.clean.1.signatureTables.map (·.label) ⊆ p.signatureTables.map (·.label) := by
  intro l hl
  obtain ⟨table, htable, rfl⟩ := List.mem_map.mp hl
  have hclean := addsNo_cleanTables hp (p.signatureTables.map (·.label))
  obtain ⟨hbody, hclass⟩ := mem_signatureTables_iff.mp htable
  have hmem := hclean.labelled.mem_nodes_of_mem_body hbody
  have hlt : table.label < p.next := by
    refine Nat.lt_of_not_le fun hle => ?_
    have htag := isElement_of_hasClass hclass
    rw [hclean.lacks table hmem hle] at htag
    cases htag
  have hold := hclean.toFollows.mem_body hp hlt (Forest.label_mem_preorder hbody)
  obtain ⟨old, holdbody, hlabel⟩ := Forest.exists_node_of_mem_preorder hold
  have hplace := place_eq hp hclean.toFollows hmem (hp.mem_nodes_of_mem_body holdbody) hlabel
  rw [← hasClass_eq hplace] at hclass
  exact List.mem_map.mpr ⟨old, mem_signatureTables_iff.mpr ⟨holdbody, hclass⟩, hlabel⟩

end Tables

/-- **A second run reduces nothing** where each table with one signature holds it in its first cell:
a signature gets one summary at most, and its name is kept. -/
theorem clean_again {p : Page} (hp : p.Labelled) (hfit : ∀ table ∈ p.signatureTables, IsFit table) :
    p.clean.1.clean = (p.clean.1, 0) := by
  have hready : ∀ l ∈ p.signatureTables.map (·.label), Ready p l := by
    intro l hl
    obtain ⟨table, htable, rfl⟩ := List.mem_map.mp hl
    obtain ⟨hbody, hclass⟩ := mem_signatureTables_iff.mp htable
    exact ⟨table, hp.node?_label (hp.mem_nodes_of_mem_body hbody), isElement_of_hasClass hclass,
      Or.inr (hfit table htable)⟩
  obtain ⟨hsettled, -⟩ := settled_cleanTables hp hready
  have hclean := ((leads_clean p).follows hp).labelled
  rw [clean_eq]
  refine cleanTables_eq_self fun l hl => ?_
  exact (hsettled l (signatureTables_clean hp hl)).cleanTable? hclean

/-- A table with a signature in its first cell and a table in another. -/
def nestedPage : Page := Page.empty.append root
  (.ofElement "table" [("class", "memname")] (.ofElement "tr" []
    (signatureCell "memname" (.ofText "Ship::dock") ++
      .ofElement "td" [] (.ofElement "table" [("class", "memname")] (.ofElement "tr" []
        (signatureCell "paramtype" (.ofText "Point") ++
          signatureCell "paramname" (.ofText "at")))))))

theorem clean_again_nestedPage :
    nestedPage.Labelled ∧ (∀ table ∈ nestedPage.signatureTables, IsFit table) ∧
      nestedPage.clean.2 = 1 ∧ nestedPage.clean.1.clean = (nestedPage.clean.1, 0) := by
  have hempty : Page.empty.Labelled := ⟨by decide, by decide, _, _, rfl⟩
  have hpage : nestedPage.Labelled := (follows_append hempty root _).labelled
  have hfit : ∀ table ∈ nestedPage.signatureTables, IsFit table := by decide +kernel
  have hone : nestedPage.clean.2 = 1 := by decide +kernel
  exact ⟨hpage, hfit, hone, clean_again hpage hfit⟩

end BindingDocs.Page
