import BindingDocs.Proofs.Scan.Capture
import BindingDocs.Proofs.Signature.Printing

/-!
# Blanks before the arguments

The blanks between a method and its arguments are read as the end of the method, and then trimmed
off.  But a word in front of blanks may also be a type, and types are tried first.  A method with
nothing before it is therefore taken for a type as soon as a method can be found in what follows its
first blanks: the blanks that remain, or the arguments up to a parenthesis in them.

## Main definitions

* `Signature.readAs` — the signature that is read where no blanks are written.
* `Opens` — texts whose first parenthesis opens given arguments.

## Main results

* `parse?_print_ne_of_newline` — a gap that leaves the line is not read over.
* `parse?_print_ne_of_bare` — a method with nothing before it is taken for a type.
* `parse?_gap_iff` — **the gaps that make no difference.**
-/

namespace BindingDocs

open Text

namespace Signature

variable {d : Dialect} {sig : Signature} {l : Layout} {gap s : List Char}

/-! ### A type that is the keyword -/

/-- The signature that the annotation is read as: the word `static` in the place of the type is
taken for the keyword. -/
def readAs (sig : Signature) : Signature :=
  if sig.isStatic = false ∧ sig.returns = some "static" then
    { sig with isStatic := true, returns := none }
  else sig

theorem IsPrintable.readAs (h : sig.IsPrintable) : sig.readAs.IsPrintable := by
  unfold Signature.readAs
  split
  · exact ⟨nofun, h.owner, h.method, h.arguments⟩
  · exact h

/-- What is read is not ambiguous any more. -/
theorem returns_readAs (h : sig.readAs.isStatic = false) : sig.readAs.returns ≠ some "static" := by
  unfold readAs at h ⊢
  split at h
  · cases h
  · next hnot =>
    rw [if_neg hnot]
    exact fun hreturns => hnot ⟨h, hreturns⟩

/-- Both signatures are written alike, over all gaps. -/
theorem exists_print_readAs (sig : Signature) (hl : l.Fits d) :
    ∃ l' : Layout, l'.Fits d ∧ ∀ gap, l.print sig gap = l'.print sig.readAs gap := by
  by_cases hkeyword : sig.isStatic = false ∧ sig.returns = some "static"
  · -- the blanks after the type are now those after the keyword
    refine ⟨{ l with afterStatic := l.afterReturns },
      ⟨hl.margin, hl.afterCommand, hl.afterReturns, hl.afterReturns, hl.separator, hl.tail⟩, ?_⟩
    intro gap
    obtain ⟨hstatic, hreturns⟩ := hkeyword
    simp only [readAs, Layout.print, Layout.printParts, Layout.printTyped, hstatic, hreturns,
      and_self, if_true, Bool.false_eq_true, if_false]
    rfl
  · refine ⟨l, hl, ?_⟩
    intro gap
    rw [readAs, if_neg hkeyword]

/-! ### Gaps that leave the line -/

/-- The first parenthesis of the text opens the arguments, and the gap stands before it. -/
def Opens (gap arguments tail s : List Char) : Prop :=
  ∃ u, '(' ∉ u ∧ s = u ++ (gap ++ enclosed arguments tail)

theorem Opens.append {u arguments tail : List Char} (hu : '(' ∉ u)
    (h : Opens gap arguments tail s) : Opens gap arguments tail (u ++ s) := by
  obtain ⟨v, hv, rfl⟩ := h
  exact ⟨u ++ v, by simp [hu, hv], by simp⟩

theorem Opens.run_append {p : Char → Bool} {u arguments tail : List Char} (hu : IsRun p u)
    (hp : p '(' = false) (h : Opens gap arguments tail s) : Opens gap arguments tail (u ++ s) :=
  h.append (not_mem_of_class hu.2 hp)

theorem paren_not_mem_separator {w : String} (hw : w ∈ separators d) : '(' ∉ w.toList := by
  rcases mem_separators hw with rfl | rfl | rfl <;> decide

section Print

variable (hsig : sig.IsPrintable) (hl : l.Fits d)
include hsig hl

theorem opens_printOwned :
    Opens gap sig.arguments.toList l.tail (l.printOwned sig gap) := by
  have hcall : Opens gap sig.arguments.toList l.tail (l.printCall sig gap) :=
    ⟨sig.method.toList, not_mem_of_class hsig.method.2 (by decide), rfl⟩
  unfold Layout.printOwned
  split
  · next name howner =>
    exact (hcall.append (paren_not_mem_separator hl.separator)).run_append
      (hsig.owner name howner) (by decide)
  · exact hcall

theorem opens_printTyped :
    Opens gap sig.arguments.toList l.tail (l.printTyped sig gap) := by
  unfold Layout.printTyped
  split
  · next type hreturns =>
    exact ((opens_printOwned hsig hl).run_append hl.afterReturns (by decide)).run_append
      (hsig.returns type hreturns) (by decide)
  · exact opens_printOwned hsig hl

/-- The first parenthesis of an annotation opens its arguments. -/
theorem opens_print : Opens gap sig.arguments.toList l.tail (l.print sig gap) := by
  have hparts : Opens gap sig.arguments.toList l.tail (l.printParts sig gap) := by
    unfold Layout.printParts
    split
    · exact ((opens_printTyped hsig hl).run_append hl.afterStatic (by decide)).append (by decide)
    · exact opens_printTyped hsig hl
  have hmargin : '(' ∉ l.margin := by
    intro hmem
    have hclass := hl.margin '(' hmem
    revert hclass
    decide
  exact ((hparts.run_append hl.afterCommand (by decide)).append (by decide)).append hmargin

end Print

/-- The text in front of given arguments is determined if its end is the first parenthesis and the
end of the arguments the last one. -/
theorem append_enclosed_inj {u v arguments tail t : List Char} (hu : '(' ∉ u) (htail : ')' ∉ tail)
    (h : u ++ enclosed arguments tail = v ++ enclosed arguments t) : u = v := by
  obtain ⟨w, rfl, hw⟩ := append_cons_eq_append hu h
  rcases w with _ | ⟨b, w⟩
  · simp
  · -- the arguments would end in the tail
    obtain ⟨-, hrest⟩ := List.cons.inj hw
    have hsplit : arguments ++ ')' :: tail = (w ++ '(' :: arguments) ++ ')' :: t := by
      simpa [enclosed] using hrest
    rcases List.append_eq_append_iff.mp hsplit with ⟨x, hx, hclose⟩ | ⟨x, hx, -⟩
    · rcases x with _ | ⟨b, x⟩
      · have hlength := congrArg List.length hx
        simp at hlength
        omega
      · obtain ⟨-, rfl⟩ := List.cons.inj hclose
        simp at htail
    · have hlength := congrArg List.length hx
      simp at hlength
      omega

/-- **A gap that leaves the line is not read over.**  If the arguments are read as before, then
only blanks are left to read a method from. -/
theorem parse?_print_ne_of_newline (hsig : sig.IsPrintable) (hl : l.Fits d)
    (hgap : ∀ c ∈ gap, isBlank c = true) (hline : '\n' ∈ gap) :
    parse? d (l.print sig gap) ≠ some sig := by
  intro hread
  obtain ⟨_, s, hend, hparts⟩ := exists_ofParts_of_parse? hread
  obtain ⟨t, method, hsuffix, hcall, htrim⟩ := exists_call_of_ofParts hparts
  obtain ⟨hmethod, tail, rfl⟩ := call_eq_some hcall
  obtain ⟨v, hv⟩ := hsuffix.trans hend
  obtain ⟨u, hu, hprint⟩ : Opens gap sig.arguments.toList l.tail (l.print sig gap) :=
    opens_print hsig hl
  have hparen : '(' ∉ gap := not_mem_of_class hgap (by decide)
  rw [hprint, ← List.append_assoc, ← List.append_assoc] at hv
  have hfront : u ++ gap = v ++ method :=
    append_enclosed_inj (by simp [hu, hparen]) hl.tail hv.symm
  rcases List.append_eq_append_iff.mp hfront with ⟨w, -, rfl⟩ | ⟨w, -, rfl⟩
  · have hblank : trim ([] ++ method) = [] :=
      trim_append_blanks (List.forall_mem_nil _) fun c hc => hgap c (List.mem_append_right w hc)
    rw [List.nil_append, htrim] at hblank
    exact hsig.method.1 hblank
  · exact hmethod (List.mem_append_right w hline)

/-! ### Methods taken for types -/

/-- **What follows some of the blanks is read as a call**: the blanks that remain stand for the
method, or else the arguments up to a parenthesis in them. -/
theorem blanks1_gap_ne_none {arguments tail : List Char} (hgap : ∀ c ∈ gap, isBlank c = true)
    (hline : '\n' ∉ gap) (hne : gap ≠ []) (hlong : gap.length = 1 → '(' ∈ arguments)
    (harguments : '\n' ∉ arguments) (htail : ')' ∉ tail) :
    blanks1 (ownerAndCall d) (gap ++ enclosed arguments tail) ≠ none := by
  obtain ⟨b, gap, rfl⟩ := List.exists_cons_of_ne_nil hne
  obtain ⟨hb, hgap⟩ := List.forall_mem_cons.mp hgap
  have hrest : ownerAndCall d (gap ++ enclosed arguments tail) ≠ none := by
    have hhead : ∀ c, ([] ++ (gap ++ enclosed arguments tail)).head? = some c →
        isWord c = false ∧ c ≠ ':' ∧ c ≠ '.' := fun c hc => head?_gap hgap hc
    have hbare := ownerAndCall_bare (d := d) (List.forall_mem_nil _) hhead
    simp only [List.nil_append] at hbare
    rw [hbare, ne_eq, Option.map_eq_none_iff]
    cases gap with
    | nil => exact call_ne_none (hlong rfl) harguments htail
    | cons b' gap =>
      have hparen : '(' ∉ b' :: gap := not_mem_of_class hgap (by decide)
      have hgapLine : '\n' ∉ b' :: gap := fun hmem => hline (List.mem_cons_of_mem b hmem)
      rw [call_enclosed (by simp) hgapLine hparen harguments htail]
      simp
  rw [blanks1, as, ne_eq, Option.map_eq_none_iff, run1_eq_none_iff]
  intro hnone
  exact hrest (hnone [b] _ (by simp) rfl (by simpa using hb))

/-- The method is then read as a type. -/
theorem exists_type_of_bare (hsig : sig.IsPrintable) (hl : l.Fits d)
    (hgap : ∀ c ∈ gap, isBlank c = true) (hline : '\n' ∉ gap) (hreturns : sig.returns = none)
    (hnot : ¬ sig.AllowsGap gap) :
    ∃ type parts, typeAndCall d (l.printTyped sig gap) = some (some type, parts) := by
  simp only [AllowsGap, not_or, not_and, Classical.not_not] at hnot
  obtain ⟨hne, hbare⟩ := hnot
  obtain ⟨howner, -, hlong⟩ := hbare hline
  have hblanks : blanks1 (ownerAndCall d) (gap ++ enclosed sig.arguments.toList l.tail) ≠ none :=
    blanks1_gap_ne_none hgap hline hne hlong hsig.arguments hl.tail
  have hrun : run1 isWord (blanks1 (ownerAndCall d)) (l.printTyped sig gap) ≠ none := by
    simp only [Layout.printTyped, hreturns, Layout.printOwned, howner, Layout.printCall]
    rw [ne_eq, run1_eq_none_iff]
    intro hnone
    exact hblanks (hnone _ _ hsig.method.1 rfl hsig.method.2)
  obtain ⟨⟨type, parts⟩, hsome⟩ := Option.ne_none_iff_exists'.mp hrun
  exact ⟨type, parts, by simp [typeAndCall, either, as, hsome]⟩

/-- Behind the keyword everything is read as static. -/
theorem isStatic_of_keyword
    (h : lit "static" (blanks1 (as (ofParts true) (typeAndCall d))) s = some sig) :
    sig.isStatic = true := by
  obtain ⟨t, -, ht⟩ := lit_eq_some.mp h
  obtain ⟨u, t', -, ht'⟩ := blanks1_eq_some ht
  obtain ⟨parts, -, rfl⟩ := as_eq_some.mp ht'
  rfl

/-- **A method with nothing before it is taken for a type** over a gap that is not allowed, and so
another signature is read, or none. -/
theorem parse?_print_ne_of_bare (hsig : sig.IsPrintable) (hl : l.Fits d)
    (hgap : ∀ c ∈ gap, isBlank c = true) (hline : '\n' ∉ gap) (hreturns : sig.returns = none)
    (hnot : ¬ sig.AllowsGap gap) : parse? d (l.print sig gap) ≠ some sig := by
  obtain ⟨type, parts, htyped⟩ := exists_type_of_bare hsig hl hgap hline hreturns hnot
  have hread : ∀ isStatic, as (ofParts isStatic) (typeAndCall d) (l.printTyped sig gap) =
      some (ofParts isStatic (some type, parts)) := by
    intro isStatic
    rw [as, htyped]
    rfl
  obtain ⟨sig', hparts, hother⟩ : ∃ sig' : Signature,
      either (lit "static" (blanks1 (as (ofParts true) (typeAndCall d))))
        (as (ofParts false) (typeAndCall d)) (l.printParts sig gap) = some sig' ∧
      (sig'.returns ≠ none ∨ sig'.isStatic ≠ sig.isStatic) := by
    unfold Layout.printParts
    split
    · refine ⟨ofParts true (some type, parts), ?_, Or.inl (by simp [ofParts])⟩
      have hkeyword := blanks1_append hl.afterStatic.1 hl.afterStatic.2
        (fun c hc => isBlank_of_isWord (head?_printTyped hsig hc)) (hread true)
      rw [either, lit_append, hkeyword]
      rfl
    · next hstatic =>
      cases hkeyword : lit "static" (blanks1 (as (ofParts true) (typeAndCall d)))
          (l.printTyped sig gap) with
      | some sig' =>
        refine ⟨sig', by rw [either, hkeyword]; rfl, Or.inr ?_⟩
        rw [isStatic_of_keyword hkeyword]
        exact Ne.symm hstatic
      | none =>
        refine ⟨ofParts false (some type, parts), ?_, Or.inl (by simp [ofParts])⟩
        rw [either, hkeyword, hread false]
        rfl
  rw [parse?_print_eq hsig hl hparts]
  split
  · exact (Option.some_ne_none sig).symm
  · rintro ⟨⟩
    rcases hother with hreturns' | hstatic
    · exact hreturns' hreturns
    · exact hstatic rfl

/-! ### The gaps that make no difference -/

theorem parse?_print_ne (hsig : sig.IsPrintable) (hl : l.Fits d)
    (hgap : ∀ c ∈ gap, isBlank c = true) (hnot : ¬ sig.AllowsGap gap) :
    parse? d (l.print sig gap) ≠ some sig := by
  by_cases hline : '\n' ∈ gap
  · exact parse?_print_ne_of_newline hsig hl hgap hline
  · refine parse?_print_ne_of_bare hsig hl hgap hline ?_ hnot
    exact Decidable.byContradiction fun hreturns =>
      hnot (Or.inr ⟨hline, Or.inr (Or.inl hreturns)⟩)

/-- **The gaps that make no difference.**  An annotation without blanks before the parenthesis is
read, with the word `static` as the keyword.  Blanks that are written there are without influence on
what is read exactly if they stand on the line and there is a class or a type before the method, or
if there is only one of them and no further parenthesis in the arguments.  Over other blanks
on the line the method is taken for a type, and a gap that leaves the line is not read over. -/
theorem parse?_gap_iff (hsig : sig.IsPrintable) (hl : l.Fits d) :
    parse? d (l.print sig []) = some sig.readAs ∧
      ∀ gap : List Char, (∀ c ∈ gap, isBlank c = true) →
        (parse? d (l.print sig gap) = parse? d (l.print sig []) ↔ sig.readAs.AllowsGap gap) := by
  obtain ⟨l', hl', hprint⟩ := exists_print_readAs sig hl
  have hread : ∀ gap : List Char, (∀ c ∈ gap, isBlank c = true) → sig.readAs.AllowsGap gap →
      parse? d (l.print sig gap) = some sig.readAs := by
    intro gap hgap hallows
    rw [hprint]
    exact parse?_print_of_allowsGap hsig.readAs hl' hgap returns_readAs hallows
  have hplain := hread [] (List.forall_mem_nil _) (Or.inl rfl)
  refine ⟨hplain, ?_⟩
  intro gap hgap
  rw [hplain]
  constructor
  · intro hsame
    rw [hprint] at hsame
    exact Decidable.byContradiction fun hnot => parse?_print_ne hsig.readAs hl' hgap hnot hsame
  · exact hread gap hgap

/-- A method with nothing before it. -/
def getLoc (arguments : String) : Signature where
  isStatic := false
  returns := none
  owner := none
  method := "getLoc"
  arguments := arguments

/-- One blank after each word, and nothing around the annotation. -/
def singleSpaced : Layout where
  margin := []
  afterCommand := [' ']
  afterStatic := [' ']
  afterReturns := [' ']
  separator := "::"
  tail := []

theorem not_parse?_getLoc_twoBlanks :
    (getLoc "x").IsPrintable ∧ singleSpaced.Fits .block ∧
      parse? .block "@luafunc getLoc(x)".toList = some (getLoc "x") ∧
      parse? .block "@luafunc getLoc (x)".toList = some (getLoc "x") ∧
      parse? .block "@luafunc getLoc  (x)".toList ≠ some (getLoc "x") ∧
      parse? .block "@luafunc getLoc  (x)".toList = none := by
  have hsig : (getLoc "x").IsPrintable := ⟨nofun, nofun, by decide +kernel, by decide +kernel⟩
  have hl : singleSpaced.Fits .block :=
    ⟨nofun, by decide +kernel, by decide +kernel, by decide +kernel, by decide +kernel,
      by decide +kernel⟩
  obtain ⟨hplain, hsame⟩ := parse?_gap_iff hsig hl
  have hone := (hsame [' '] (List.all_eq_true.mp (by decide +kernel))).mpr (by decide +kernel)
  have htwo := mt (hsame [' ', ' '] (List.all_eq_true.mp (by decide +kernel))).mp
    (by decide +kernel)
  rw [hplain] at htwo
  exact ⟨hsig, hl, hplain, hone.trans hplain, htwo, by decide +kernel⟩

/-- One blank is too much if there is a parenthesis in the arguments. -/
example : parse? .block "@luafunc getLoc (f(x))".toList =
    some { isStatic := false, returns := some "getLoc", owner := none, method := "(f",
           arguments := "x)" } := by decide +kernel

end Signature

end BindingDocs
