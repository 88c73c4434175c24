import BindingDocs.Proofs.Page.SettledSignatures
import BindingDocs.Proofs.Text.Trim
import Mathlib.Data.List.Infix

/-!
# Qualified names read back

A qualified name is written from a return type, a class and a member with blanks between them.  The
class may be qualified itself, and so may the return type, which may also consist of several words.
So neither the first pair of colons nor the first blank says where a part ends.  The member holds no
pair of colons and does not begin with a colon; hence the pair of colons in front of it is the last
one of the text, even where the class ends in a colon.  The class holds no blank; hence the last
blank in front of it divides it from the return type.

## Main definitions

* `Member.IsPrintable` — members whose parts can be written.
* `Member.Layout`, `Member.Layout.Fits` — the blanks around the parts.
* `Member.Layout.print` — the qualified name of a member.

## Main results

* `Member.parse?_append` — what is read around a pair of colons after which there is none.
* `Member.parse?_inverts_print` — **reading inverts printing**, and what is read otherwise.
-/

namespace BindingDocs.Page.Member

open Text

/-- A member whose parts can be written: the return type neither begins nor ends with a blank, the
class is not empty and holds no blank, and the member is not qualified. -/
structure IsPrintable (m : Member) : Prop where
  returns : IsTrimmed m.returns
  owner_ne_nil : m.owner ≠ []
  owner : ∀ c ∈ m.owner, isBlank c = false
  name : IsTrimmed m.name
  name_head : m.name.head? ≠ some ':'
  name_plain : ¬ "::".toList <:+: m.name

instance (m : Member) : Decidable m.IsPrintable :=
  haveI := List.decidableBAll (fun c => isBlank c = false) m.owner
  decidable_of_iff (IsTrimmed m.returns ∧ m.owner ≠ [] ∧ (∀ c ∈ m.owner, isBlank c = false) ∧
      IsTrimmed m.name ∧ m.name.head? ≠ some ':' ∧ ¬ "::".toList <:+: m.name)
    ⟨fun ⟨returns, ne, owner, name, head, plain⟩ => ⟨returns, ne, owner, name, head, plain⟩,
      fun h => ⟨h.returns, h.owner_ne_nil, h.owner, h.name, h.name_head, h.name_plain⟩⟩

/-- The blanks that a qualified name is written with. -/
structure Layout where
  before : List Char
  afterReturns : List Char
  afterOwner : List Char
  beforeName : List Char
  after : List Char

/-- The blanks are blanks, and there are some between a return type and the class. -/
structure Layout.Fits (g : Layout) (m : Member) : Prop where
  before : IsBlankText g.before
  afterReturns : IsBlankText g.afterReturns
  afterOwner : IsBlankText g.afterOwner
  beforeName : IsBlankText g.beforeName
  after : IsBlankText g.after
  gap : m.returns ≠ [] → g.afterReturns ≠ []

instance (g : Layout) (m : Member) : Decidable (g.Fits m) :=
  decidable_of_iff (IsBlankText g.before ∧ IsBlankText g.afterReturns ∧ IsBlankText g.afterOwner ∧
      IsBlankText g.beforeName ∧ IsBlankText g.after ∧ (m.returns ≠ [] → g.afterReturns ≠ []))
    ⟨fun ⟨before, returns, owner, name, after, gap⟩ => ⟨before, returns, owner, name, after, gap⟩,
      fun h => ⟨h.before, h.afterReturns, h.afterOwner, h.beforeName, h.after, h.gap⟩⟩

/-- What stands in front of the last pair of colons. -/
def Layout.qualifier (g : Layout) (m : Member) : List Char :=
  g.before ++ (m.returns ++ (g.afterReturns ++ (m.owner ++ g.afterOwner)))

/-- The qualified name of a member. -/
def Layout.print (g : Layout) (m : Member) : List Char :=
  g.qualifier m ++ ("::".toList ++ (g.beforeName ++ (m.name ++ g.after)))

/-! ### The last pair of colons -/

/-- The return type and the class that are read from a qualifier. -/
def ofQualifier (qualifier name : List Char) : Member :=
  match splitLastBy? isBlank qualifier with
  | some (returns, owner) => ⟨trim returns, owner, name⟩
  | none => ⟨[], qualifier, name⟩

/-- **What is read around a pair of colons after which there is none.** -/
theorem parse?_append {t : List Char} (ht : ¬ "::".toList <:+: ':' :: t) (q : List Char) :
    parse? (q ++ ("::".toList ++ t)) = some (ofQualifier (trim q) (trim t)) := by
  have hcolons : IsTrimmed "::".toList := by decide
  obtain ⟨q', t', htrim, hq, htt, hprefix⟩ := exists_trim_around hcolons (by decide) q t
  have hlast : ¬ "::".toList <:+: "::".toList.tail ++ t' := fun hwithin =>
    ht (hwithin.trans (List.cons_prefix_cons.mpr ⟨rfl, hprefix⟩).isInfix)
  have hcut : splitLast? [':', ':'] (q' ++ ("::".toList ++ t')) = some (q', t') :=
    splitLast?_append (by decide) hlast q'
  rw [parse?, htrim, hcut, Option.map_some]
  dsimp only
  rw [hq, htt]
  cases hsplit : splitLastBy? isBlank (trim q) with
  | none => rw [ofQualifier, hsplit]
  | some parts => rw [ofQualifier, hsplit]

section Print

variable {m : Member} {g : Layout}

theorem colon_notMem {b : List Char} (hb : IsBlankText b) : ':' ∉ b :=
  fun hmem => absurd (hb _ hmem) (by decide)

/-- A text between blanks that neither begins with a colon nor holds two colons one after the other
completes no pair of colons. -/
theorem not_isInfix_colon_cons {n b e : List Char} (hb : IsBlankText b) (he : IsBlankText e)
    (hhead : n.head? ≠ some ':') (hn : ¬ "::".toList <:+: n) :
    ¬ "::".toList <:+: ':' :: (b ++ (n ++ e)) := by
  have hpair : ¬ "::".toList <:+: n ++ e := by
    have hreverse : "::".toList.reverse <:+: e.reverse ++ n.reverse ↔
        "::".toList.reverse <:+: n.reverse :=
      isInfix_append_iff (fun hmem => colon_notMem he (List.mem_reverse.mp hmem)) _ _
    rw [← List.reverse_append, List.reverse_infix, List.reverse_infix] at hreverse
    rwa [hreverse]
  have hfirst : (b ++ (n ++ e)).head? ≠ some ':' := by
    have hblank {a : List Char} (ha : IsBlankText a) : a.head? ≠ some ':' := fun h =>
      colon_notMem ha (List.mem_of_mem_head? h)
    rw [List.head?_append, List.head?_append, Ne, Option.or_eq_some_iff, Option.or_eq_some_iff]
    rintro (h | ⟨-, h | ⟨-, h⟩⟩)
    · exact hblank hb h
    · exact hhead h
    · exact hblank he h
  rw [List.infix_cons_iff]
  rintro (⟨r, hr⟩ | hwithin)
  · exact hfirst (by rw [← (List.cons.inj hr).2]; rfl)
  · exact hpair ((isInfix_append_iff (colon_notMem hb) _ _).mp hwithin)

/-- What is read in front of the last pair of colons. -/
theorem ofQualifier_print (hm : m.IsPrintable) (hg : g.Fits m) :
    ofQualifier (trim (g.qualifier m)) m.name = m := by
  have howner : IsTrimmed m.owner := isTrimmed_of_not_isBlank hm.owner
  by_cases hreturns : m.returns = []
  · -- all blanks stand in front of the class
    have htrim : trim (g.qualifier m) = m.owner := by
      refine trim_eq_of_eq (hg.before.append hg.afterReturns) hg.afterOwner howner ?_
      rw [Layout.qualifier, hreturns, List.nil_append, List.append_assoc]
    rw [htrim, ofQualifier, splitLastBy?_eq_none hm.owner, ← hreturns]
  · obtain ⟨b, c, hgap⟩ := List.eq_nil_or_concat g.afterReturns |>.resolve_left (hg.gap hreturns)
    rw [List.concat_eq_append] at hgap
    have hblanks : IsBlankText b ∧ isBlank c = true := by
      have hall := hg.afterReturns
      rw [hgap] at hall
      exact ⟨fun d hd => hall d (List.mem_append_left _ hd), hall c (by simp)⟩
    have htrim : trim (g.qualifier m) = (m.returns ++ b) ++ c :: m.owner := by
      refine trim_eq_of_eq hg.before hg.afterOwner ?_ (by simp [Layout.qualifier, hgap])
      have htrimmed := hm.returns.append howner hreturns hm.owner_ne_nil (b ++ [c])
      simpa using htrimmed
    have hread : trim (m.returns ++ b) = m.returns := by
      rw [trim_append_of_right hblanks.1]
      exact trim_eq_of_eq (a := []) (b := []) (List.forall_mem_nil _) (List.forall_mem_nil _)
        hm.returns (by simp)
    rw [htrim, ofQualifier, splitLastBy?_append hblanks.2 hm.owner]
    dsimp only
    rw [hread]

/-- A qualified name is read back. -/
theorem parse?_layout_print (hm : m.IsPrintable) (hg : g.Fits m) : parse? (g.print m) = some m := by
  have hlast := not_isInfix_colon_cons hg.beforeName hg.after hm.name_head hm.name_plain
  have hname : trim (g.beforeName ++ (m.name ++ g.after)) = m.name :=
    trim_eq_of_eq hg.beforeName hg.after hm.name rfl
  rw [Layout.print, parse?_append hlast, hname, ofQualifier_print hm hg]

end Print

/-- **Reading inverts printing**: a qualified name is read back whatever blanks stand around its
parts.  Nothing is read exactly if the text holds no pair of colons, and the member that is read
never holds one. -/
theorem parse?_inverts_print {m : Member} {g : Layout} (hm : m.IsPrintable) (hg : g.Fits m) :
    parse? (g.print m) = some m ∧
    ∀ text, (parse? text = none ↔ ¬ "::".toList <:+: text) ∧
      ∀ m', parse? text = some m' → ¬ "::".toList <:+: m'.name := by
  have hnone (text : List Char) : parse? text = none ↔ ¬ "::".toList <:+: text := by
    rw [← isSome_memberParse?_iff, Option.not_isSome_iff_eq_none]
  refine ⟨parse?_layout_print hm hg, fun text => ⟨hnone text, fun m' hm' => ?_⟩⟩
  exact (hnone _).mp (parse?_name hm')

/-- A return type of two words, the second of which is qualified, and a class that is qualified and
ends in a colon. -/
def operatorName : Member := ⟨"const std::set".toList, "Geom::Box:".toList, "a : b".toList⟩

/-- Wide spaces in front of the class and around the last pair of colons. -/
def wideLayout : Layout :=
  ⟨[' '], [Char.ofNat 0x3000, '\t'], [Char.ofNat 0xA0], [Char.ofNat 0x2003], ['\n']⟩

theorem parse?_inverts_print_operatorName :
    operatorName.IsPrintable ∧ wideLayout.Fits operatorName ∧
    parse? (wideLayout.print operatorName) = some operatorName := by
  have hm : operatorName.IsPrintable := by decide
  have hg : wideLayout.Fits operatorName := by decide
  exact ⟨hm, hg, (parse?_inverts_print hm hg).1⟩

end BindingDocs.Page.Member
