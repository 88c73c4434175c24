import BindingDocs.Page.Inherited
import BindingDocs.Proofs.Page.Labelled
import BindingDocs.Proofs.Text.Search
import Mathlib.Data.List.Flatten

/-!
# Tables of inherited members

The table of an inherited member says so, and it holds one signature, which names the class.  It
should hold one label, which is completed with this class.  Several signatures or several labels are
an error.  Tables stand in tables, so a label or a signature is often that of an outer table, too.
Then the outer one decides: inside of it there is nothing else that could go wrong.

## Main definitions

* `IsOfMember` — the table of an inherited member.
* `Completes`, `Fails` — what comes of a table.

## Main results

* `isSome_memberParse?_iff` — which signatures name a class.
* `labelOf_eq_error_iff`, `labelOf_eq_some_iff` — **what comes of a table.**
* `Completes.labels_inside`, `Completes.not_fails_inside`, `Completes.eq_inside` — tables inside of
  one that completes a label.
-/

namespace BindingDocs.Page

open Page (Forest Item Node)

/-! ### Qualified names -/

/-- A name is qualified exactly if it holds two colons. -/
theorem isSome_memberParse?_iff {text : List Char} :
    (Member.parse? text).isSome = true ↔ "::".toList <:+: text := by
  rw [Member.parse?, Option.isSome_map, Text.isSome_splitLast?_iff]
  exact Text.isInfix_trim_iff (by decide) (by decide) rfl text

/-! ### One table -/

/-- A table of an inherited member: it says so, and it holds one signature, which is qualified. -/
structure IsOfMember (table : Node) (signature : String) : Prop where
  inherited : "inherited".toList <:+: table.textContent.toList
  signatures : signatureNames table = [signature]
  qualified : "::".toList <:+: signature.toList

/-- The table completes its only label with the class of its signature. -/
structure Completes (table label : Node) (owner : String) : Prop where
  labels : inheritedLabels table = [label]
  parsed : ∃ signature m, IsOfMember table signature ∧
    Member.parse? signature.toList = some m ∧ String.ofList m.owner = owner

/-- What is wrong with a table: it says that a member is inherited and holds several signatures, or
it is the table of an inherited member and holds several labels. -/
inductive Fails (table : Node) : RevisionError → Prop where
  | signatures (inherited : "inherited".toList <:+: table.textContent.toList)
      (several : 2 ≤ (signatureNames table).length) :
      Fails table (.ambiguousSignature (signatureNames table).length)
  | labels {signature : String} {m : Member} (member : IsOfMember table signature)
      (parsed : Member.parse? signature.toList = some m)
      (several : 2 ≤ (inheritedLabels table).length) :
      Fails table (.inheritedLabel (String.ofList m.name) (inheritedLabels table).length)

section Table

variable {table label : Node} {owner signature : String} {m : Member} {e : RevisionError}

/-- A list that is neither empty nor a single element has two elements. -/
theorem two_le_length_of_ne {α : Type} {l : List α} (hnil : l ≠ []) (hone : ∀ a, l ≠ [a]) :
    2 ≤ l.length := by
  match l with
  | [] => exact absurd rfl hnil
  | [a] => exact absurd rfl (hone a)
  | _ :: _ :: l => simp

theorem exists_cons_cons_of_two_le {α : Type} {l : List α} (h : 2 ≤ l.length) :
    ∃ a b r, l = a :: b :: r := by
  match l with
  | a :: b :: r => exact ⟨a, b, r, rfl⟩

/-- What is decided about a table is so: an error is wrong with it, and a label is its only one. -/
theorem labelOf_sound :
    (∀ e, labelOf table = .error e → Fails table e) ∧
      ∀ label owner, labelOf table = .ok (some (label, owner)) → Completes table label owner := by
  rw [labelOf]
  split
  · exact ⟨nofun, nofun⟩
  · next hinherited =>
    have hinherited : "inherited".toList <:+: table.textContent.toList := by
      simpa [Text.contains_iff_isInfix] using hinherited
    split
    · exact ⟨nofun, nofun⟩
    · next name hname =>
      split
      · exact ⟨nofun, nofun⟩
      · next m hm =>
        have hmember : IsOfMember table name :=
          ⟨hinherited, hname, isSome_memberParse?_iff.mp (Option.isSome_of_eq_some hm)⟩
        split
        · exact ⟨nofun, nofun⟩
        · next label hlabel =>
          refine ⟨nofun, ?_⟩
          rintro _ _ ⟨⟩
          exact ⟨hlabel, name, m, hmember, hm, rfl⟩
        · next labels hnil hone =>
          refine ⟨?_, nofun⟩
          rintro _ ⟨⟩
          exact .labels hmember hm (two_le_length_of_ne hnil hone)
    · next names hnil hone =>
      refine ⟨?_, nofun⟩
      rintro _ ⟨⟩
      exact .signatures hinherited (two_le_length_of_ne hnil hone)

/-- The labels of the table of an inherited member decide. -/
theorem labelOf_of_isOfMember (h : IsOfMember table signature)
    (hm : Member.parse? signature.toList = some m) :
    labelOf table =
      match inheritedLabels table with
      | [] => .ok none
      | [label] => .ok (some (label, String.ofList m.owner))
      | labels => .error (.inheritedLabel (String.ofList m.name) labels.length) := by
  have hinherited : Text.contains "inherited".toList table.textContent.toList = true :=
    Text.contains_iff_isInfix.mpr h.inherited
  rw [labelOf, hinherited, h.signatures]
  simp only [hm]
  rfl

/-- **A table is refused exactly if something is wrong with it.** -/
theorem labelOf_eq_error_iff : labelOf table = .error e ↔ Fails table e := by
  constructor
  · exact labelOf_sound.1 e
  · rintro (⟨hinherited, hseveral⟩ | ⟨hmember, hm, hseveral⟩)
    · obtain ⟨a, b, names, hnames⟩ := exists_cons_cons_of_two_le hseveral
      rw [labelOf, Text.contains_iff_isInfix.mpr hinherited, hnames]
      rfl
    · obtain ⟨a, b, labels, hlabels⟩ := exists_cons_cons_of_two_le hseveral
      rw [labelOf_of_isOfMember hmember hm, hlabels]

/-- **A label is completed exactly if it is the only one of an inherited member.** -/
theorem labelOf_eq_some_iff :
    labelOf table = .ok (some (label, owner)) ↔ Completes table label owner := by
  constructor
  · exact labelOf_sound.2 label owner
  · rintro ⟨hlabels, signature, m, hmember, hm, rfl⟩
    rw [labelOf_of_isOfMember hmember hm, hlabels]

theorem Fails.unique {e' : RevisionError} (h : Fails table e) (h' : Fails table e') : e = e' := by
  rw [← labelOf_eq_error_iff] at h h'
  exact Except.error.inj (h.symm.trans h')

theorem Completes.mem (h : Completes table label owner) : label ∈ inheritedLabels table := by
  rw [h.labels]
  exact List.mem_singleton_self label

theorem mem_inheritedLabels_iff : label ∈ inheritedLabels table ↔
    label ∈ table.below.nodes ∧ label.isElement "span" = true ∧
      label.hasClass "span" "mlabel" = true ∧ label.ownText = "inherited" := by
  rw [inheritedLabels, List.mem_filter, Node.mem_elements_iff, Bool.and_eq_true, beq_iff_eq,
    and_assoc]

/-- A label that is completed stands in a table, so there is one. -/
theorem exists_table_of_labelOf {found : Option Node}
    (h : labelOf (found.getD default) = .ok (some (label, owner))) :
    ∃ table, found = some table ∧ label ∈ table.below.nodes ∧ label.isElement "span" = true := by
  obtain ⟨hbelow, hspan, -⟩ := mem_inheritedLabels_iff.mp (labelOf_eq_some_iff.mp h).mem
  cases found with
  | none => cases hbelow
  | some table => exact ⟨table, rfl, hbelow, hspan⟩

theorem Labelled.mem_nodes_of_labelOf {p : Page} (h : p.Labelled) {l : Nat}
    (hlabel : labelOf ((p.node? l).getD default) = .ok (some (label, owner))) :
    label ∈ p.forest.nodes ∧ label.isElement "span" = true := by
  obtain ⟨table, htable, hbelow, hspan⟩ := exists_table_of_labelOf hlabel
  have hmem := (h.node?_eq_some_iff.mp htable).1
  exact ⟨(Forest.nodes_below_sublist hmem).subset hbelow, hspan⟩

end Table

/-! ### Tables in tables -/

section Inside

variable {inner table : Node}

theorem Node.elements_sublist (h : inner ∈ table.below.nodes) (tag : String) :
    (inner.elements tag).Sublist (table.elements tag) := by
  rw [Node.elements, Node.elements, Node.descendants, Node.descendants, Forest.walk_eq_nodes,
    Forest.walk_eq_nodes]
  exact (Forest.nodes_below_sublist h).filter _

theorem inheritedLabels_sublist (h : inner ∈ table.below.nodes) :
    (inheritedLabels inner).Sublist (inheritedLabels table) :=
  (Node.elements_sublist h "span").filter _

theorem signatureNames_sublist (h : inner ∈ table.below.nodes) :
    (signatureNames inner).Sublist (signatureNames table) :=
  ((Node.elements_sublist h "td").filter _).flatMap _

/-! A table inside of one that completes a label has no other label and no other signature. -/

variable {label label' : Node} {owner owner' : String}

theorem Completes.labels_inside (h : Completes table label owner) (hin : inner ∈ table.below.nodes)
    (hlabel : label ∈ inner.below.nodes) : inheritedLabels inner = [label] := by
  have hsublist : (inheritedLabels inner).Sublist [label] := h.labels ▸ inheritedLabels_sublist hin
  have hmem : label ∈ inheritedLabels inner :=
    mem_inheritedLabels_iff.mpr ⟨hlabel, (mem_inheritedLabels_iff.mp h.mem).2⟩
  rcases List.sublist_singleton.mp hsublist with hnil | hone
  · rw [hnil] at hmem
    cases hmem
  · exact hone

theorem Completes.not_fails_inside (h : Completes table label owner)
    (hin : inner ∈ table.below.nodes) (e : RevisionError) : ¬ Fails inner e := by
  obtain ⟨signature, -, hmember, -, -⟩ := h.parsed
  have hsignatures := (signatureNames_sublist hin).length_le
  have hlabels := (inheritedLabels_sublist hin).length_le
  rw [hmember.signatures, List.length_singleton] at hsignatures
  rw [h.labels, List.length_singleton] at hlabels
  rintro (⟨-, hseveral⟩ | ⟨-, -, hseveral⟩)
  · omega
  · omega

theorem Completes.eq_inside (h : Completes table label owner) (hin : inner ∈ table.below.nodes)
    (h' : Completes inner label' owner') : label' = label ∧ owner' = owner := by
  obtain ⟨signature, m, hmember, hm, rfl⟩ := h.parsed
  obtain ⟨signature', m', hmember', hm', rfl⟩ := h'.parsed
  have hlabels := inheritedLabels_sublist hin
  have hsignatures := signatureNames_sublist hin
  rw [h.labels, h'.labels, List.singleton_sublist, List.mem_singleton] at hlabels
  rw [hmember.signatures, hmember'.signatures, List.singleton_sublist, List.mem_singleton]
    at hsignatures
  rw [hsignatures, hm] at hm'
  cases hm'
  exact ⟨hlabels, rfl⟩

end Inside

end BindingDocs.Page
