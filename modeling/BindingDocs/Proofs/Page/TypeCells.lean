import BindingDocs.Proofs.Page.Repair
import Mathlib.Logic.Relation

/-!
# Cells with a parameter type

The renderer ends a parameter type with a no-break space, which puts what follows out of place.  The
space is to go from every cell with such a type, and from no other cell.  Mending a line drops one
space, the last one before the end of a cell, provided that a type begins somewhere before it; the
cell may hold something else.

The two agree on a line exactly if the last space that ends a cell is the only one that ends a type.
The argument goes through the place of that space.  A line is cut at it in one way only, and in what
is left of the line a type with a space can stand only in front of its cell, or in the cell itself.

## Main definitions

* `HasSpacedType` — the line has a parameter type with a space at its end.
* `DropsTypeSpace` — one such space is dropped.
* `Trimmed` — such spaces are dropped until there are none, and nothing else changes.
* `OnlyLastSpaced` — the last space that ends a cell is the only one that ends a type.

## Main results

* `shortenFirst_cases` — which space is dropped.
* `trimmed_shortenFirst_iff` — when this trims a line.
* `trimmed_repairLine_iff` — **when a line is trimmed by mending it.**
-/

namespace BindingDocs.Page

open Text

/-- The space that ends a parameter type. -/
def spaceRef : List Char := "&#160;".toList

/-- The end of a cell. -/
def cellEnd : List Char := "</td>".toList

/-- The end of a cell with a space before it. -/
def spacedEnd : List Char := spaceRef ++ cellEnd

/-- No cell begins or ends in the text. -/
def InOneCell (x : List Char) : Prop := ¬ "<td".toList <:+: x ∧ ¬ cellEnd <:+: x

/-- A line in which a parameter type begins, with `x` from there to some end of a cell. -/
def fromType (before x after : List Char) : List Char :=
  before ++ (typeCell.toList ++ (x ++ (cellEnd ++ after)))

/-- Some cell holds a parameter type that ends in a space. -/
def HasSpacedType (s : List Char) : Prop :=
  ∃ before x after, s = fromType before (x ++ spaceRef) after ∧ InOneCell x

/-- The space at the end of one parameter type is dropped. -/
inductive DropsTypeSpace : List Char → List Char → Prop
  | drop (before : List Char) {x : List Char} (hx : InOneCell x) (after : List Char) :
    DropsTypeSpace (fromType before (x ++ spaceRef) after) (fromType before x after)

/-- The spaces at the ends of parameter types are dropped, and nothing else changes. -/
def Trimmed (s t : List Char) : Prop :=
  Relation.ReflTransGen DropsTypeSpace s t ∧ ¬ HasSpacedType t

/-- No space before the end of a cell comes after the beginning of a parameter type; or the last
such space ends a parameter type, which has no other one at its end, and no earlier type has one.  A
type that is nothing but the space is not the first on the line. -/
def OnlyLastSpaced (s : List Char) : Prop :=
  (∀ before x after, s ≠ fromType before (x ++ spaceRef) after) ∨
    ∃ before x after, s = fromType before (x ++ spaceRef) after ∧ InOneCell x ∧
      (x ≠ [] ∨ typeCell.toList <:+: before) ∧ ¬ spaceRef <:+ x ∧ ¬ HasSpacedType before ∧
      ¬ spacedEnd <:+: after

variable {s t before before' x x' after after' : List Char}

/-! ### The space that is dropped -/

theorem fromType_eq (before x after : List Char) :
    fromType before x after = before ++ typeCell.toList ++ x ++ (cellEnd ++ after) := by
  simp only [fromType, List.append_assoc]

theorem fromType_spaceRef (before x after : List Char) : fromType before (x ++ spaceRef) after =
    before ++ typeCell.toList ++ x ++ (spacedEnd ++ after) := by
  simp only [fromType, spacedEnd, List.append_assoc]

theorem fromType_ne_nil (before x after : List Char) : fromType before x after ≠ [] := by
  intro h
  have htype := (List.append_eq_nil_iff.mp (List.append_eq_nil_iff.mp h).2).1
  exact absurd htype (by decide)

/-- What is read is as long as it can be: no space before the end of a cell comes after it. -/
theorem shortenCell?_eq_some (hs : OneLine s) (h : shortenCell? s = some t) :
    ∃ x after, x ≠ [] ∧ ¬ spacedEnd <:+: after ∧
      s = fromType [] (x ++ spaceRef) after ∧ t = fromType [] x after := by
  obtain ⟨⟨x, after⟩, hcell, rfl⟩ := Option.map_eq_some_iff.mp h
  obtain ⟨u, rfl, hrun⟩ := lit_eq_some.mp hcell
  obtain ⟨hne, u, rfl, -, hend⟩ := run1_eq_some hrun
  obtain ⟨u, rfl, hrest⟩ := lit_eq_some.mp hend
  obtain rfl := Option.some.inj hrest
  refine ⟨x, u, hne, ?_, ?_, ?_⟩
  rotate_left
  · rw [fromType_spaceRef, List.append_assoc, List.append_assoc]
    rfl
  · rw [fromType_eq, ← List.append_assoc]
    rfl
  -- the reader would have gone on to a later one
  rintro ⟨a, b, rfl⟩
  have hcut : "&#160;</td>".toList ++ (a ++ spacedEnd ++ b) =
      spacedEnd ++ a ++ (spacedEnd ++ b) := by
    rw [List.append_assoc a, ← List.append_assoc]
    rfl
  have hline : '\n' ∉ spacedEnd ++ a := by
    have hrest := hs.of_append.of_append
    rw [hcut] at hrest
    exact hrest.not_mem_left (List.append_ne_nil_of_left_ne_nil (by decide) b)
  rw [hcut] at hrun
  have hlonger := run1_longest hrun (List.append_ne_nil_of_left_ne_nil (by decide) a)
    (inLine_of_not_mem hline)
  cases (lit_append "&#160;</td>" b).symm.trans hlonger

/-- Nothing is read where a type begins if it cannot be followed by a space and the end of a
cell. -/
theorem eq_nil_of_shortenCell?_eq_none (hs : OneLine s) (h : shortenCell? s = none)
    (hx : s = fromType [] (x ++ spaceRef) after) : x = [] := by
  rw [fromType_spaceRef, List.append_assoc, List.append_assoc, List.nil_append] at hx
  subst hx
  by_contra hne
  rw [shortenCell?, Option.map_eq_none_iff, lit_append, run1_eq_none_iff] at h
  have hline : '\n' ∉ x := hs.of_append.not_mem_left
    (List.append_ne_nil_of_left_ne_nil (by decide) after)
  cases (lit_append "&#160;</td>" after).symm.trans (h x _ hne rfl (inLine_of_not_mem hline))

/-- **Which space is dropped.**  It is the last one before the end of a cell, if a type begins
before it and something stands between them. -/
theorem shortenFirst_cases (hs : OneLine s) :
    (shortenFirst s = s ∧ ∀ before x after, s = fromType before (x ++ spaceRef) after → x = []) ∨
    ∃ before x after, x ≠ [] ∧ ¬ spacedEnd <:+: after ∧
      s = fromType before (x ++ spaceRef) after ∧ shortenFirst s = fromType before x after := by
  induction s with
  | nil =>
    exact Or.inl ⟨rfl, fun before x after h => absurd h.symm (fromType_ne_nil _ _ _)⟩
  | cons c s ih =>
    rw [shortenFirst]
    split
    · next t h =>
      obtain ⟨x, after, hne, hlast, hx, rfl⟩ := shortenCell?_eq_some hs h
      exact Or.inr ⟨[], x, after, hne, hlast, hx, rfl⟩
    · next h =>
      have hs' : OneLine s := hs.of_append (a := [c])
      rcases ih hs' with ⟨hkept, hnone⟩ | ⟨before, x, after, hne, hlast, hx, hdrop⟩
      · refine Or.inl ⟨by rw [hkept], fun before x after hx => ?_⟩
        cases before with
        | nil => exact eq_nil_of_shortenCell?_eq_none hs h hx
        | cons d before => exact hnone before x after (List.cons.inj hx).2
      · refine Or.inr ⟨c :: before, x, after, hne, hlast, ?_, ?_⟩
        · rw [hx]
          rfl
        · rw [hdrop]
          rfl

/-! ### The place of the space -/

section Place

variable {u u' a a' c : List Char}

theorem exists_eq_cellEnd_append (hc : c ≠ []) {b : List Char} (h : cellEnd ++ a = c ++ '<' :: b) :
    ∃ e, c = cellEnd ++ e := by
  obtain ⟨e, he, -⟩ := append_cons_eq_cons_append (u := "/td>".toList) (by decide) hc h
  exact ⟨e, he⟩

/-- The last space before the end of a cell stands at one place. -/
theorem eq_of_last (ha : ¬ spacedEnd <:+: a) (ha' : ¬ spacedEnd <:+: a')
    (h : u ++ (spacedEnd ++ a) = u' ++ (spacedEnd ++ a')) : u = u' ∧ a = a' := by
  have hcut {a a' c : List Char} (ha : ¬ spacedEnd <:+: a)
      (h : spacedEnd ++ a = c ++ (spacedEnd ++ a')) : c = [] := by
    by_contra hc
    obtain ⟨e, -, rfl⟩ := append_cons_eq_cons_append (u := "#160;</td>".toList) (by decide) hc h
    exact ha ⟨e, a', List.append_assoc _ _ _⟩
  rcases List.append_eq_append_iff.mp h with ⟨c, rfl, hc⟩ | ⟨c, rfl, hc⟩
  · obtain rfl := hcut ha hc
    exact ⟨(List.append_nil u).symm, List.append_cancel_left hc⟩
  · obtain rfl := hcut ha' hc
    exact ⟨List.append_nil u', (List.append_cancel_left hc).symm⟩

/-- What is left when a space is dropped shows where it stood. -/
theorem eq_of_drop (hs : u ++ (spacedEnd ++ a) = u' ++ (spacedEnd ++ a'))
    (ht : u ++ (cellEnd ++ a) = u' ++ (cellEnd ++ a')) : u = u' ∧ a = a' := by
  have hcut {a a' c : List Char} (hs : spacedEnd ++ a = c ++ (spacedEnd ++ a'))
      (ht : cellEnd ++ a = c ++ (cellEnd ++ a')) : c = [] := by
    cases c with
    | nil => rfl
    | cons d c =>
      obtain ⟨hamp, -⟩ : '&' = d ∧ _ := List.cons.inj hs
      obtain ⟨hopen, -⟩ : '<' = d ∧ _ := List.cons.inj ht
      rw [← hopen] at hamp
      exact absurd hamp (by decide)
  rcases List.append_eq_append_iff.mp hs with ⟨c, rfl, hc⟩ | ⟨c, rfl, hc⟩
  · rw [List.append_assoc] at ht
    obtain rfl := hcut hc (List.append_cancel_left ht)
    exact ⟨(List.append_nil u).symm, List.append_cancel_left hc⟩
  · rw [List.append_assoc] at ht
    obtain rfl := hcut hc (List.append_cancel_left ht).symm
    exact ⟨List.append_nil u', (List.append_cancel_left hc).symm⟩

end Place

/-! ### Cells in what is left -/

theorem inOneCell_nil : InOneCell [] := by
  constructor
  · intro h
    exact absurd (List.infix_nil.mp h) (by decide)
  · intro h
    exact absurd (List.infix_nil.mp h) (by decide)

theorem HasSpacedType.append (h : HasSpacedType s) (r : List Char) : HasSpacedType (s ++ r) := by
  obtain ⟨before, x, after, rfl, hx⟩ := h
  exact ⟨before, x, after ++ r, by simp only [fromType, List.append_assoc], hx⟩

theorem hasSpacedType_of_isSuffix (hx : InOneCell x) (hend : spaceRef <:+ x)
    (before after : List Char) : HasSpacedType (fromType before x after) := by
  obtain ⟨y, rfl⟩ := hend
  refine ⟨before, y, after, rfl, fun h => hx.1 ?_, fun h => hx.2 ?_⟩
  · exact h.trans (List.prefix_append y spaceRef).isInfix
  · exact h.trans (List.prefix_append y spaceRef).isInfix

theorem not_isInfix_typeCell_append (hx : InOneCell x) : ¬ cellEnd <:+: typeCell.toList ++ x := by
  intro h
  rcases List.infix_cons_iff.mp h with hbegins | hrest
  · obtain ⟨-, hbegins⟩ := List.cons_prefix_cons.mp hbegins
    exact absurd (List.cons_prefix_cons.mp hbegins).1 (by decide)
  · have hnot : '<' ∉ "td class=\"paramtype\">".toList := by decide
    exact hx.2 ((isInfix_append_iff hnot _ _).mp hrest)

/-- A space at the end of a type, or of what begins with one, stands in it. -/
theorem isSuffix_of_typeCell_append (h : spaceRef <:+ before ++ typeCell.toList ++ x) :
    spaceRef <:+ x := by
  have hcut : before ++ typeCell.toList ++ x =
      before ++ "<td class=\"paramtype\"".toList ++ '>' :: x := by
    have htype : typeCell.toList = "<td class=\"paramtype\"".toList ++ ['>'] := by decide
    simp only [htype, List.append_assoc, List.singleton_append]
  rw [hcut] at h
  exact isSuffix_of_append_cons (by decide) h

/-- An earlier cell that ends in front of the end of a type ends in front of the type. -/
theorem hasSpacedType_of_append (hx : InOneCell x) (hx' : InOneCell x')
    (h : before ++ (typeCell.toList ++ x) = fromType before' (x' ++ spaceRef) after) :
    HasSpacedType before := by
  rw [fromType_eq] at h
  rcases List.append_eq_append_iff.mp h with ⟨c, -, hc⟩ | ⟨c, rfl, hc⟩
  · exact absurd ⟨c, after, by rw [hc, List.append_assoc]⟩ (not_isInfix_typeCell_append hx)
  · by_cases hne : c = []
    · rw [hne, List.nil_append] at hc
      exact absurd ⟨[], after, hc⟩ (not_isInfix_typeCell_append hx)
    · obtain ⟨e, rfl⟩ := exists_eq_cellEnd_append hne hc
      exact ⟨before', x', e, fromType_eq _ _ _ |>.symm, hx'⟩

/-- **A line without its last space** has no type with a space at its end if neither the cell of the
last space nor the text before it has one. -/
theorem not_hasSpacedType_fromType (hx : InOneCell x) (hend : ¬ spaceRef <:+ x)
    (hbefore : ¬ HasSpacedType before) (hlast : ¬ spacedEnd <:+: after) :
    ¬ HasSpacedType (fromType before x after) := by
  rintro ⟨before', x', after', h, hx'⟩
  have hspace : spaceRef <:+ before' ++ typeCell.toList ++ (x' ++ spaceRef) :=
    ⟨before' ++ typeCell.toList ++ x', List.append_assoc _ _ _⟩
  rw [fromType_eq, fromType_eq] at h
  -- the two ends of cells are compared
  rcases List.append_eq_append_iff.mp h with ⟨c, hc, hrest⟩ | ⟨c, hc, hrest⟩
  · rw [hc] at hspace
    cases c with
    | nil =>
      rw [List.append_nil] at hspace
      exact hend (isSuffix_of_typeCell_append hspace)
    | cons d c =>
      obtain ⟨rfl, -⟩ : '<' = d ∧ _ := List.cons.inj hrest
      obtain ⟨e, rfl⟩ := isSuffix_of_append_cons (by decide) hspace
      have hfound : spacedEnd <:+: cellEnd ++ after :=
        ⟨'<' :: e, after', by rw [hrest]; simp [spacedEnd]⟩
      exact hlast ((isInfix_append_iff (u := cellEnd) (by decide) _ _).mp hfound)
  · by_cases hne : c = []
    · rw [hne, List.append_nil] at hc
      rw [← hc] at hspace
      exact hend (isSuffix_of_typeCell_append hspace)
    · obtain ⟨e, rfl⟩ := exists_eq_cellEnd_append hne hrest
      rw [List.append_assoc before, ← fromType_eq] at hc
      exact hbefore (hasSpacedType_of_append hx hx' hc)

/-! ### Dropping step by step -/

theorem length_fromType_spaceRef (before x after : List Char) :
    (fromType before (x ++ spaceRef) after).length = (fromType before x after).length + 6 := by
  have hspace : spaceRef.length = 6 := by decide
  simp only [fromType, List.length_append, hspace]
  omega

theorem DropsTypeSpace.length (h : DropsTypeSpace s t) : s.length = t.length + 6 := by
  cases h
  exact length_fromType_spaceRef _ _ _

theorem length_le_of_steps (h : Relation.ReflTransGen DropsTypeSpace s t) :
    t.length ≤ s.length := by
  induction h with
  | refl => exact Nat.le_refl _
  | tail _ hstep ih =>
    have hlength := hstep.length
    omega

/-- A line that is shorter by one space comes about by one step. -/
theorem dropsTypeSpace_of_steps (h : Relation.ReflTransGen DropsTypeSpace s t)
    (hlength : s.length = t.length + 6) : DropsTypeSpace s t := by
  rcases h.cases_head with rfl | ⟨u, hstep, hrest⟩
  · omega
  · have hfirst := hstep.length
    rcases hrest.cases_head with rfl | ⟨v, hstep', hrest'⟩
    · exact hstep
    · have hsecond := hstep'.length
      have hlast := length_le_of_steps hrest'
      omega

/-! ### Lines that are trimmed -/

/-- A type that begins before the beginning of another one. -/
theorem isInfix_typeCell_of_eq (hne : x ≠ [])
    (h : before ++ (typeCell.toList ++ x) = before' ++ typeCell.toList) :
    typeCell.toList <:+: before' := by
  rcases List.append_eq_append_iff.mp h with ⟨c, rfl, hc⟩ | ⟨c, -, hc⟩
  · have hc' : c ≠ [] := by
      rintro rfl
      exact hne (List.append_right_eq_self.mp hc)
    obtain ⟨e, rfl, -⟩ := append_cons_eq_cons_append (u := "td class=\"paramtype\">".toList)
      (b := "td class=\"paramtype\">".toList) (by decide) hc' hc
    exact ⟨before, e, List.append_assoc _ _ _⟩
  · have hlength := congrArg List.length hc
    rw [List.length_append, List.length_append] at hlength
    have hpos : 0 < x.length := List.length_pos_iff.mpr hne
    omega

/-- The space that is dropped is the only one that ends a type. -/
theorem onlyLastSpaced_of_drop (h : DropsTypeSpace s t)
    (hs : s = fromType before (x ++ spaceRef) after) (ht : t = fromType before x after)
    (hne : x ≠ []) (hlast : ¬ spacedEnd <:+: after) (hleft : ¬ HasSpacedType t) :
    OnlyLastSpaced s := by
  cases h with
  | @drop before' x' hx' after' =>
    rw [fromType_spaceRef, fromType_spaceRef] at hs
    have hplace := ht
    rw [fromType_eq, fromType_eq] at hplace
    obtain ⟨hfront, rfl⟩ := eq_of_drop hs hplace
    refine Or.inr ⟨before', x', after', rfl, hx', ?_, ?_, ?_, hlast⟩
    · by_cases hempty : x' = []
      · rw [hempty, List.append_nil, List.append_assoc] at hfront
        exact Or.inr (isInfix_typeCell_of_eq hne hfront.symm)
      · exact Or.inl hempty
    · exact fun hend => hleft (hasSpacedType_of_isSuffix hx' hend _ _)
    · exact fun hbefore => hleft (hbefore.append _)

theorem trimmed_shortenFirst_iff (hs : OneLine s) :
    Trimmed s (shortenFirst s) ↔ OnlyLastSpaced s := by
  rcases shortenFirst_cases hs with ⟨hkept, hnone⟩ | ⟨before, x, after, hne, hlast, hx, hdrop⟩
  · rw [hkept]
    constructor
    · rintro ⟨-, hleft⟩
      refine Or.inl fun before x after hx => hleft ⟨before, x, after, hx, ?_⟩
      rw [hnone before x after hx]
      exact inOneCell_nil
    · rintro (hnot | ⟨before, x, after, hx, -, hsome, -⟩)
      · exact ⟨.refl, fun ⟨before, x, after, hx, _⟩ => hnot before x after hx⟩
      · rcases hsome with hne | ⟨p, q, rfl⟩
        · exact absurd (hnone before x after hx) hne
        · have hlonger := hnone p (q ++ typeCell.toList ++ x) after (by
            rw [hx]
            simp only [fromType, List.append_assoc])
          have htype := (List.append_eq_nil_iff.mp (List.append_eq_nil_iff.mp hlonger).1).2
          exact absurd htype (by decide)
  · rw [hdrop]
    constructor
    · rintro ⟨hsteps, hleft⟩
      refine onlyLastSpaced_of_drop (dropsTypeSpace_of_steps hsteps ?_) hx rfl hne hlast hleft
      rw [hx, length_fromType_spaceRef]
    · rintro (hnot | ⟨before', x', after', hx', hcell, -, hend, hbefore, hlast'⟩)
      · exact absurd hx (hnot before x after)
      · have hplace := hx'
        rw [hx, fromType_spaceRef, fromType_spaceRef] at hplace
        obtain ⟨hfront, rfl⟩ := eq_of_last hlast hlast' hplace
        have ht : fromType before x after = fromType before' x' after := by
          rw [fromType_eq, fromType_eq, hfront]
        rw [ht]
        refine ⟨.single ?_, not_hasSpacedType_fromType hcell hend hbefore hlast⟩
        rw [hx']
        exact .drop before' hcell after

/-- A line without its licence comments. -/
def dropLicences (s : List Char) : List Char := substitute (enclosed? "/* @license" "*/") [] s

/-- **When a line is trimmed by mending it.**  A line is mended in three steps: references are
replaced, a space is dropped, and licence comments are taken out.  The second step trims the line
exactly if its last space before the end of a cell is the only one that ends a parameter type; for a
line without licence comments it is the last step. -/
theorem trimmed_repairLine_iff {page line : List Char} (h : line ∈ pieces page) :
    repairLine line = dropLicences (shortenFirst (mendReferences line)) ∧
    (Trimmed (mendReferences line) (shortenFirst (mendReferences line)) ↔
      OnlyLastSpaced (mendReferences line)) ∧
    (¬ licence <:+: line → (Trimmed (mendReferences line) (repairLine line) ↔
      OnlyLastSpaced (mendReferences line))) := by
  have hline : OneLine (mendReferences line) := by
    apply oneLine_of_mem_pieces
    rw [pieces_mendReferences]
    exact List.mem_map_of_mem h
  have htrimmed := trimmed_shortenFirst_iff hline
  refine ⟨rfl, htrimmed, fun hlicence => ?_⟩
  rw [repairLine_eq hlicence]
  exact htrimmed

/-- A cell with a parameter type. -/
def typeCellOf (type : String) : List Char := typeCell.toList ++ (type.toList ++ cellEnd)

/-- Two cells with parameter types that end in a space. -/
def twoTypes : List Char := typeCellOf "int&#160;" ++ typeCellOf "num&#160;"

/-- A line with one parameter type is trimmed, and a line with two is not. -/
theorem not_trimmed_repairLine_twoTypes :
    (typeCellOf "int&nbsp;" ∈ pieces (typeCellOf "int&nbsp;") ∧
      Trimmed (mendReferences (typeCellOf "int&nbsp;")) (repairLine (typeCellOf "int&nbsp;"))) ∧
    (twoTypes ∈ pieces twoTypes ∧ ¬ Trimmed (mendReferences twoTypes) (repairLine twoTypes)) := by
  have hline : typeCellOf "int&nbsp;" ∈ pieces (typeCellOf "int&nbsp;") := by decide +kernel
  have hcell : InOneCell "int".toList := by constructor <;> decide +kernel
  refine ⟨⟨hline, ?_⟩, by decide +kernel, ?_⟩
  · refine ((trimmed_repairLine_iff hline).2.2 (by decide +kernel)).mpr (Or.inr ?_)
    refine ⟨[], "int".toList, [], by decide +kernel, hcell, by decide, by decide +kernel, ?_,
      by decide +kernel⟩
    rintro ⟨before, x, after, h, -⟩
    exact fromType_ne_nil _ _ _ h.symm
  · rintro ⟨-, hleft⟩
    exact hleft ⟨[], "int".toList, typeCellOf "num", by decide +kernel, hcell⟩

end BindingDocs.Page
