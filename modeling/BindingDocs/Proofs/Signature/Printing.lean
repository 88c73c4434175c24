import BindingDocs.Proofs.Text.Reader
import BindingDocs.Proofs.Text.Search
import BindingDocs.Proofs.Text.Word
import BindingDocs.Signature

/-!
# Annotations read back

An annotation is written from its parts with blanks between them.  Its keyword, its type and its
class are all optional, and each of them is a word, as is the method, so what a word stands for
depends on what follows it: a blank, a separator or the opening parenthesis.  The reader tries the
optional parts in turn and gives them up again only when the rest cannot be read.  Here the readers
of the parts are followed from the inside out, each on the text that is written for it.

Blanks may also stand between the method and the parenthesis.  They are harmless where a type or a
class stands before the method.

## Main definitions

* `Signature.IsPrintable` — signatures whose parts can be written.
* `Layout`, `Layout.Fits` — the blanks and the other texts around the parts.
* `Layout.print` — the annotation of a signature.
* `Signature.AllowsGap` — the blanks that may stand before the parenthesis.

## Main results

* `call_enclosed`, `call_eq_none`, `call_ne_none` — what is read in front of a parenthesis.
* `parse?_print_of_allowsGap` — an annotation is read back over the gaps that are allowed.
* `parse?_print` — **reading inverts printing.**
-/

namespace BindingDocs

open Text

namespace Signature

/-- A signature whose parts can be written: the type, the class and the method are words, and the
arguments stand on one line. -/
structure IsPrintable (sig : Signature) : Prop where
  returns : ∀ type, sig.returns = some type → IsRun isWord type.toList
  owner : ∀ name, sig.owner = some name → IsRun isWord name.toList
  method : IsRun isWord sig.method.toList
  arguments : '\n' ∉ sig.arguments.toList

/-- The texts that an annotation is written with besides its parts. -/
structure Layout where
  /-- What stands before the command. -/
  margin : List Char
  /-- The blanks after the command. -/
  afterCommand : List Char
  /-- The blanks after the keyword `static`. -/
  afterStatic : List Char
  /-- The blanks after the type. -/
  afterReturns : List Char
  /-- What stands between the class and the method. -/
  separator : String
  /-- What follows the annotation. -/
  tail : List Char

namespace Layout

/-- Blanks and stars stand before the command, at least one blank after each word, a separator of
the dialect after the class, and no closing parenthesis after the annotation. -/
structure Fits (l : Layout) (d : Dialect) : Prop where
  margin : ∀ c ∈ l.margin, isBlank c = true ∨ c = '*'
  afterCommand : IsRun isBlank l.afterCommand
  afterStatic : IsRun isBlank l.afterStatic
  afterReturns : IsRun isBlank l.afterReturns
  separator : l.separator ∈ separators d
  tail : ')' ∉ l.tail

end Layout

/-- The arguments in parentheses, and what follows. -/
def enclosed (arguments tail : List Char) : List Char := '(' :: (arguments ++ ')' :: tail)

namespace Layout

/-- The method, the blanks `gap`, and the arguments. -/
def printCall (l : Layout) (sig : Signature) (gap : List Char) : List Char :=
  sig.method.toList ++ (gap ++ enclosed sig.arguments.toList l.tail)

/-- The class, if there is one, and the call. -/
def printOwned (l : Layout) (sig : Signature) (gap : List Char) : List Char :=
  match sig.owner with
  | some name => name.toList ++ (l.separator.toList ++ l.printCall sig gap)
  | none => l.printCall sig gap

/-- The type, if there is one, and the rest. -/
def printTyped (l : Layout) (sig : Signature) (gap : List Char) : List Char :=
  match sig.returns with
  | some type => type.toList ++ (l.afterReturns ++ l.printOwned sig gap)
  | none => l.printOwned sig gap

/-- The keyword, if the function belongs to the class, and the rest. -/
def printParts (l : Layout) (sig : Signature) (gap : List Char) : List Char :=
  if sig.isStatic then "static".toList ++ (l.afterStatic ++ l.printTyped sig gap)
  else l.printTyped sig gap

/-- The annotation of a signature, with the blanks `gap` between the method and the arguments. -/
def print (l : Layout) (sig : Signature) (gap : List Char) : List Char :=
  l.margin ++ ("@luafunc".toList ++ (l.afterCommand ++ l.printParts sig gap))

end Layout

/-- Whether the annotation of the signature is still read as before with the blanks `gap` between
the method and the parenthesis: they stand on the line, and a class or a type stands before the
method, or else the gap is one blank and there are no further parentheses. -/
def AllowsGap (sig : Signature) (gap : List Char) : Prop :=
  gap = [] ∨ '\n' ∉ gap ∧
    (sig.owner ≠ none ∨ sig.returns ≠ none ∨ gap.length = 1 ∧ '(' ∉ sig.arguments.toList)

instance (sig : Signature) (gap : List Char) : Decidable (sig.AllowsGap gap) :=
  inferInstanceAs (Decidable (_ ∨ _))

/-! ### Calls -/

section Call

variable {d : Dialect} {α : Type} {k : Reader α} {s r arguments tail : List Char}

/-- The arguments reach up to the last parenthesis. -/
theorem run_arguments (harguments : '\n' ∉ arguments) (htail : ')' ∉ tail) :
    run inLine (lit ")" done) (arguments ++ ')' :: tail) = some (arguments, ()) := by
  refine run_append (inLine_of_not_mem harguments) (lit_append ")" tail) ?_
  -- no parenthesis is left for a longer run
  rintro (_ | ⟨b, u⟩) v hu huv -
  · exact absurd rfl hu
  · obtain ⟨-, rfl⟩ := List.cons.inj huv
    refine lit_eq_none ')' rfl ?_
    intro hhead
    exact htail (List.mem_append_right u (List.mem_of_mem_head? hhead))

/-- **A text in front of the arguments is read as the method**, if it stands on one line and holds
no parenthesis. -/
theorem call_enclosed (hr : r ≠ []) (hline : '\n' ∉ r) (hparen : '(' ∉ r)
    (harguments : '\n' ∉ arguments) (htail : ')' ∉ tail) :
    call (r ++ enclosed arguments tail) = some (r, arguments) := by
  have harg : lit "(" (run inLine (lit ")" done)) (enclosed arguments tail) =
      some (arguments, ()) := by
    rw [← run_arguments harguments htail]
    exact lit_append "(" (arguments ++ ')' :: tail)
  rw [call, as, short1_append hr (inLine_of_not_mem hline) harg]
  · rfl
  · -- a shorter run is not followed by a parenthesis
    rintro u (_ | ⟨b, v⟩) - hv rfl
    · exact absurd rfl hv
    · refine lit_eq_none '(' rfl ?_
      intro hhead
      obtain rfl : b = '(' := by simpa using hhead
      simp at hparen

/-- Nothing can be read as the method of arguments that stand alone, if they hold no further
parenthesis. -/
theorem call_eq_none (harguments : '(' ∉ arguments) (htail : ')' ∉ tail) :
    call (enclosed arguments tail) = none := by
  rw [call, as, Option.map_eq_none_iff, short1_eq_none_iff]
  intro r t hr henclosed _
  rw [Option.eq_none_iff_forall_ne_some]
  rintro ⟨r', u⟩ hlit
  obtain ⟨t', rfl, hrun⟩ := lit_eq_some.mp hlit
  obtain ⟨t'', rfl, -, hclose⟩ := run_eq_some hrun
  obtain ⟨rest, rfl, -⟩ := lit_eq_some.mp hclose
  obtain ⟨b, r, rfl⟩ := List.exists_cons_of_ne_nil hr
  obtain ⟨-, hsplit⟩ := List.cons.inj henclosed
  -- the second parenthesis stands in the tail, and so does the closing one after it
  obtain ⟨u, rfl, hrest⟩ := append_cons_eq_append harguments hsplit
  rcases u with _ | ⟨b, u⟩
  · simp at hrest
  · obtain ⟨-, rfl⟩ := List.cons.inj hrest
    simp at htail

/-- Arguments that hold a further parenthesis can be read as a method and its arguments. -/
theorem call_ne_none (hmem : '(' ∈ arguments) (hline : '\n' ∉ arguments) (htail : ')' ∉ tail) :
    call (enclosed arguments tail) ≠ none := by
  obtain ⟨u, v, rfl⟩ := List.append_of_mem hmem
  simp only [List.mem_append, List.mem_cons, not_or] at hline
  rw [call, as, ne_eq, Option.map_eq_none_iff, short1_eq_none_iff]
  intro hnone
  have hinLine : ∀ c ∈ '(' :: u, inLine c = true :=
    List.forall_mem_cons.mpr ⟨by decide, inLine_of_not_mem hline.1⟩
  have hfails := hnone ('(' :: u) ("(".toList ++ (v ++ ')' :: tail)) (by simp)
    (by simp [enclosed]) hinLine
  rw [lit_append, run_arguments hline.2.2 htail] at hfails
  cases hfails

end Call

/-! ### Owners -/

section Owner

variable {d : Dialect} {α : Type} {k : Reader α} {a : α} {s name y : List Char}

theorem mem_separators {w : String} (hw : w ∈ separators d) : w = "::" ∨ w = "." ∨ w = ":" := by
  cases d <;> simp_all [separators]

/-- A separator begins with a colon or a dot. -/
theorem head?_of_mem_separators {w : String} (hw : w ∈ separators d) :
    w.toList.head? = some ':' ∨ w.toList.head? = some '.' := by
  rcases mem_separators hw with rfl | rfl | rfl <;> decide

/-- So it begins with no word character and no blank. -/
theorem head?_separator {w : String} (hw : w ∈ separators d) {c : Char}
    (hc : (w.toList ++ s).head? = some c) : isWord c = false ∧ isBlank c = false := by
  rw [List.head?_append] at hc
  rcases head?_of_mem_separators hw with hhead | hhead <;>
  · rw [hhead] at hc
    cases hc
    decide

/-- A separator is read where it is written. -/
theorem separator_append {w : String} (hw : w ∈ separators d) (hk : k s = some a) :
    separator d k (w.toList ++ s) = some a := by
  have hlit : lit w k (w.toList ++ s) = some a := by rw [lit_append, hk]
  cases d with
  | bracketed =>
    rcases List.mem_cons.mp hw with rfl | hw
    · simp only [separator, separators, List.findSome?_cons, hlit]
    · obtain rfl := List.mem_singleton.mp hw
      have hother : lit "." k (":".toList ++ s) = none := lit_eq_none '.' rfl (by simp)
      simp only [separator, separators, List.findSome?_cons, hlit, hother]
  | block | plain =>
    obtain rfl := List.mem_singleton.mp hw
    simp only [separator, separators, List.findSome?_cons, hlit]

/-- No separator is read where another character stands first. -/
theorem separator_eq_none (hs : ∀ c, s.head? = some c → c ≠ ':' ∧ c ≠ '.') :
    separator d k s = none := by
  rw [separator, List.findSome?_eq_none_iff]
  intro w hw
  rcases head?_of_mem_separators hw with hhead | hhead
  · exact lit_eq_none ':' hhead fun h => (hs ':' h).1 rfl
  · exact lit_eq_none '.' hhead fun h => (hs '.' h).2 rfl

/-- A class and its separator are read where they are written. -/
theorem ownerAndCall_owner {w : String} {parts : List Char × List Char}
    (hname : IsRun isWord name) (hw : w ∈ separators d) (hcall : call s = some parts) :
    ownerAndCall d (name ++ (w.toList ++ s)) = some (some name, parts) := by
  have hrun := run1_append hname.1 hname.2 (fun c hc => (head?_separator hw hc).1)
    (separator_append hw hcall)
  simp [ownerAndCall, either, as, hrun]

/-- No class is read where a word is followed by something else than a separator. -/
theorem ownerAndCall_bare (hname : ∀ c ∈ name, isWord c = true)
    (hy : ∀ c, y.head? = some c → isWord c = false ∧ c ≠ ':' ∧ c ≠ '.') :
    ownerAndCall d (name ++ y) = (call (name ++ y)).map (none, ·) := by
  have hnone : run1 isWord (separator d call) (name ++ y) = none := by
    rw [run1_eq_none_iff]
    intro r t hr hsplit hall
    obtain ⟨name', rfl, rfl⟩ := exists_append_of_run hall (fun c hc => (hy c hc).1) hsplit
    refine separator_eq_none ?_
    intro c hc
    cases name' with
    | nil => exact (hy c hc).2
    | cons b name' =>
      obtain rfl : b = c := by simpa using hc
      have hword := hname b (by simp)
      constructor <;> rintro rfl <;> exact absurd hword (by decide)
  simp [ownerAndCall, either, as, hnone]

end Owner

/-! ### Types and the keyword -/

section Words

variable {d : Dialect} {α : Type} {k : Reader α} {type word s y : List Char}

/-- Blanks are read where they are written, and are not read where something else stands. -/
theorem blanks1_eq_none (hs : ∀ c, s.head? = some c → isBlank c = false) : blanks1 k s = none := by
  rw [blanks1, as, Option.map_eq_none_iff, run1_eq_none_iff]
  rintro (_ | ⟨c, r⟩) t hr rfl hall
  · exact absurd rfl hr
  · have hc := hall c List.mem_cons_self
    rw [hs c rfl] at hc
    cases hc

/-- One blank in front of another character leaves no choice. -/
theorem blanks1_cons {c : Char} (hc : isBlank c = true)
    (hs : ∀ c, s.head? = some c → isBlank c = false) : blanks1 k (c :: s) = k s := by
  cases hk : k s with
  | some a => exact blanks1_append (r := [c]) (by simp) (by simpa using hc) hs hk
  | none =>
    rw [blanks1, as, Option.map_eq_none_iff, run1_eq_none_iff]
    rintro (_ | ⟨b, _ | ⟨b', r⟩⟩) t hr hsplit hall
    · exact absurd rfl hr
    · obtain ⟨rfl, rfl⟩ := List.cons.inj hsplit
      exact hk
    · obtain ⟨rfl, rfl⟩ := List.cons.inj hsplit
      have hb' := hall b' (by simp)
      rw [hs b' rfl] at hb'
      cases hb'

/-- A type is read where it is written. -/
theorem typeAndCall_type {blanks : List Char} {parts : Option (List Char) × List Char × List Char}
    (htype : IsRun isWord type) (hblanks : IsRun isBlank blanks)
    (hs : ∀ c, s.head? = some c → isBlank c = false) (howned : ownerAndCall d s = some parts) :
    typeAndCall d (type ++ (blanks ++ s)) = some (some type, parts) := by
  have hstop : ∀ c, (blanks ++ s).head? = some c → isWord c = false :=
    fun c hc => isWord_of_isBlank (hblanks.of_head? hc)
  have hrun := run1_append htype.1 htype.2 hstop
    (blanks1_append hblanks.1 hblanks.2 hs howned)
  simp [typeAndCall, either, as, hrun]

/-- No blanks are read where a word stands. -/
theorem blanks1_word_append (hword : ∀ c ∈ word, isWord c = true)
    (hnone : word = [] → blanks1 k y = none) : blanks1 k (word ++ y) = none := by
  cases word with
  | nil => exact hnone rfl
  | cons c word =>
    refine blanks1_eq_none ?_
    intro b hb
    obtain rfl : c = b := by simpa using hb
    exact isBlank_of_isWord (hword c List.mem_cons_self)

/-- No type is read where a word is not followed by blanks and a call. -/
theorem typeAndCall_bare (hword : ∀ c ∈ word, isWord c = true)
    (hy : ∀ c, y.head? = some c → isWord c = false) (hnone : blanks1 (ownerAndCall d) y = none) :
    typeAndCall d (word ++ y) = (ownerAndCall d (word ++ y)).map (none, ·) := by
  have hrun : run1 isWord (blanks1 (ownerAndCall d)) (word ++ y) = none := by
    rw [run1_eq_none_iff]
    intro r t _ hsplit hall
    obtain ⟨word', rfl, rfl⟩ := exists_append_of_run hall hy hsplit
    exact blanks1_word_append (fun c hc => hword c (List.mem_append_right r hc)) fun _ => hnone
  simp [typeAndCall, either, as, hrun]

/-- The keyword is not read where another word stands, or where what follows cannot be read. -/
theorem static_eq_none (hword : ∀ c ∈ word, isWord c = true)
    (hy : ∀ c, y.head? = some c → isWord c = false)
    (hnone : word = "static".toList → blanks1 k y = none) :
    lit "static" (blanks1 k) (word ++ y) = none := by
  rw [Option.eq_none_iff_forall_ne_some]
  intro a ha
  obtain ⟨t, hsplit, ht⟩ := lit_eq_some.mp ha
  obtain ⟨word', hword', rfl⟩ := exists_append_of_run (List.all_eq_true.mp (by decide)) hy hsplit
  have hfails : blanks1 k (word' ++ y) = none := by
    refine blanks1_word_append (fun c hc => hword c (by simp [hword', hc])) ?_
    rintro rfl
    exact hnone (by simpa using hword')
  rw [hfails] at ht
  cases ht

end Words

/-! ### Whole annotations -/

section Print

variable {d : Dialect} {sig : Signature} {l : Layout} {gap arguments tail : List Char}

/-- What stands behind a method is neither a word character nor a separator. -/
theorem head?_gap (hgap : ∀ c ∈ gap, isBlank c = true) {c : Char}
    (hc : (gap ++ enclosed arguments tail).head? = some c) :
    isWord c = false ∧ c ≠ ':' ∧ c ≠ '.' := by
  cases gap with
  | nil =>
    obtain rfl : '(' = c := by simpa [enclosed] using hc
    decide
  | cons b gap =>
    obtain rfl : b = c := by simpa using hc
    have hb := hgap b List.mem_cons_self
    refine ⟨isWord_of_isBlank hb, ?_, ?_⟩ <;> rintro rfl <;> exact absurd hb (by decide)

/-- Arguments that stand alone do not begin with a word. -/
theorem ownerAndCall_enclosed :
    ownerAndCall d (enclosed arguments tail) = (call (enclosed arguments tail)).map (none, ·) := by
  have hhead : ∀ c, ([] ++ enclosed arguments tail).head? = some c →
      isWord c = false ∧ c ≠ ':' ∧ c ≠ '.' := fun c hc => head?_gap (List.forall_mem_nil _) hc
  exact ownerAndCall_bare (List.forall_mem_nil _) hhead

theorem typeAndCall_enclosed :
    typeAndCall d (enclosed arguments tail) =
      (ownerAndCall d (enclosed arguments tail)).map (none, ·) := by
  have hhead : ∀ c, ([] ++ enclosed arguments tail).head? = some c → isWord c = false :=
    fun c hc => (head?_gap (List.forall_mem_nil _) hc).1
  refine typeAndCall_bare (List.forall_mem_nil _) hhead (blanks1_eq_none ?_)
  intro c hc
  obtain rfl : '(' = c := by simpa [enclosed] using hc
  decide

/-- No blanks are read off before the arguments if there is one blank at most, and if what follows
cannot be read without it. -/
theorem blanks1_gap {α : Type} {k : Reader α} (hgap : ∀ c ∈ gap, isBlank c = true)
    (h : gap = [] ∨ gap.length = 1 ∧ '(' ∉ arguments)
    (hk : '(' ∉ arguments → k (enclosed arguments tail) = none) :
    blanks1 k (gap ++ enclosed arguments tail) = none := by
  have hhead : ∀ c, (enclosed arguments tail).head? = some c → isBlank c = false := by
    intro c hc
    obtain rfl : '(' = c := by simpa [enclosed] using hc
    decide
  rcases h with rfl | ⟨hlength, hparen⟩
  · exact blanks1_eq_none hhead
  · obtain ⟨b, rfl⟩ := List.length_eq_one_iff.mp hlength
    rw [List.singleton_append, blanks1_cons (hgap b List.mem_cons_self) hhead, hk hparen]

/-- Without a class and a type there is one blank at most. -/
theorem AllowsGap.of_bare (h : sig.AllowsGap gap) (hreturns : sig.returns = none)
    (howner : sig.owner = none) : gap = [] ∨ gap.length = 1 ∧ '(' ∉ sig.arguments.toList := by
  rcases h with hnil | ⟨-, hfirst | hfirst | hone⟩
  · exact Or.inl hnil
  · exact absurd howner hfirst
  · exact absurd hreturns hfirst
  · exact Or.inr hone

theorem AllowsGap.not_mem (h : sig.AllowsGap gap) : '\n' ∉ gap := by
  rcases h with rfl | ⟨hline, -⟩
  · simp
  · exact hline

/-! A printed annotation goes on with a word after the command and after each optional part. -/

theorem head?_printOwned (hsig : sig.IsPrintable) {c : Char}
    (hc : (l.printOwned sig gap).head? = some c) : isWord c = true := by
  unfold Layout.printOwned at hc
  split at hc
  · next name howner => exact (hsig.owner name howner).of_head? hc
  · exact hsig.method.of_head? hc

theorem head?_printTyped (hsig : sig.IsPrintable) {c : Char}
    (hc : (l.printTyped sig gap).head? = some c) : isWord c = true := by
  unfold Layout.printTyped at hc
  split at hc
  · next type hreturns => exact (hsig.returns type hreturns).of_head? hc
  · exact head?_printOwned hsig hc

theorem head?_printParts (hsig : sig.IsPrintable) {c : Char}
    (hc : (l.printParts sig gap).head? = some c) : isWord c = true := by
  unfold Layout.printParts at hc
  split at hc
  · obtain rfl : 's' = c := by simpa using hc
    decide
  · exact head?_printTyped hsig hc

/-- The parts make up the signature, once the gap has been trimmed off the method. -/
theorem ofParts_eq (hsig : sig.IsPrintable) (hgap : ∀ c ∈ gap, isBlank c = true) :
    ofParts sig.isStatic (sig.returns.map String.toList, sig.owner.map String.toList,
      sig.method.toList ++ gap, sig.arguments.toList) = sig := by
  have hmethod : trim (sig.method.toList ++ gap) = sig.method.toList :=
    trim_append_blanks (fun c hc => isBlank_of_isWord (hsig.method.2 c hc)) hgap
  have hreturns : (sig.returns.map String.toList).map (fun t => String.ofList (trim t)) =
      sig.returns := by
    cases hr : sig.returns with
    | none => rfl
    | some type =>
      have htype := trim_append_blanks (b := [])
        (fun c hc => isBlank_of_isWord ((hsig.returns type hr).2 c hc)) (List.forall_mem_nil _)
      rw [List.append_nil] at htype
      simp [htype]
  have howner : (sig.owner.map String.toList).map String.ofList = sig.owner := by
    cases sig.owner <;> simp
  simp only [ofParts, hmethod, hreturns, howner, String.ofList_toList]

section Parts

variable (hsig : sig.IsPrintable) (hl : l.Fits d)
include hsig hl

section Gap

variable (hgap : ∀ c ∈ gap, isBlank c = true)
include hgap

/-- The call is read as it is printed, with the gap as a part of the method. -/
theorem call_printCall (hline : '\n' ∉ gap) :
    call (l.printCall sig gap) = some (sig.method.toList ++ gap, sig.arguments.toList) := by
  have hmethod : ∀ {c : Char}, isWord c = false → c ∉ sig.method.toList :=
    not_mem_of_class hsig.method.2
  have hparen : '(' ∉ gap := not_mem_of_class hgap (by decide)
  rw [Layout.printCall, ← List.append_assoc]
  refine call_enclosed ?_ ?_ ?_ hsig.arguments hl.tail
  · simp [hsig.method.1]
  · simp [hmethod (c := '\n') (by decide), hline]
  · simp [hmethod (c := '(') (by decide), hparen]

/-- The class is read as it is printed. -/
theorem ownerAndCall_printOwned (hline : '\n' ∉ gap) :
    ownerAndCall d (l.printOwned sig gap) =
      some (sig.owner.map String.toList, sig.method.toList ++ gap, sig.arguments.toList) := by
  have hcall := call_printCall hsig hl hgap hline
  cases howner : sig.owner with
  | some name =>
    simp only [Layout.printOwned, howner]
    exact ownerAndCall_owner (hsig.owner name howner) hl.separator hcall
  | none =>
    simp only [Layout.printOwned, howner]
    rw [Layout.printCall] at hcall ⊢
    rw [ownerAndCall_bare hsig.method.2 fun c hc => head?_gap hgap hc, hcall]
    rfl

/-- The type is read as it is printed, over a gap that is allowed. -/
theorem typeAndCall_printTyped (hallows : sig.AllowsGap gap) :
    typeAndCall d (l.printTyped sig gap) =
      some (sig.returns.map String.toList, sig.owner.map String.toList,
        sig.method.toList ++ gap, sig.arguments.toList) := by
  have howned := ownerAndCall_printOwned hsig hl hgap hallows.not_mem
  cases hreturns : sig.returns with
  | some type =>
    simp only [Layout.printTyped, hreturns]
    exact typeAndCall_type (hsig.returns type hreturns) hl.afterReturns
      (fun c hc => isBlank_of_isWord (head?_printOwned hsig hc)) howned
  | none =>
    simp only [Layout.printTyped, hreturns]
    cases howner : sig.owner with
    | some name =>
      simp only [Layout.printOwned, howner] at howned ⊢
      rw [typeAndCall_bare (hsig.owner name howner).2
        (fun c hc => (head?_separator hl.separator hc).1)
        (blanks1_eq_none fun c hc => (head?_separator hl.separator hc).2), howned]
      rfl
    | none =>
      simp only [Layout.printOwned, howner, Layout.printCall] at howned ⊢
      have hnone : blanks1 (ownerAndCall d) (gap ++ enclosed sig.arguments.toList l.tail) = none := by
        refine blanks1_gap hgap (hallows.of_bare hreturns howner) ?_
        intro hparen
        rw [ownerAndCall_enclosed, call_eq_none hparen hl.tail]
        rfl
      rw [typeAndCall_bare hsig.method.2 (fun c hc => (head?_gap hgap hc).1) hnone, howned]
      rfl

/-- The keyword is not read where it is not printed. -/
theorem static_printTyped (hstatic : sig.returns ≠ some "static") (hallows : sig.AllowsGap gap) :
    lit "static" (blanks1 (as (ofParts true) (typeAndCall d))) (l.printTyped sig gap) = none := by
  cases hreturns : sig.returns with
  | some type =>
    simp only [Layout.printTyped, hreturns]
    refine static_eq_none (hsig.returns type hreturns).2
      (fun c hc => isWord_of_isBlank (hl.afterReturns.of_head? hc)) ?_
    intro htype
    rw [hreturns, String.toList_inj.mp htype] at hstatic
    exact absurd rfl hstatic
  | none =>
    simp only [Layout.printTyped, hreturns]
    cases howner : sig.owner with
    | some name =>
      simp only [Layout.printOwned, howner]
      refine static_eq_none (hsig.owner name howner).2
        (fun c hc => (head?_separator hl.separator hc).1) ?_
      exact fun _ => blanks1_eq_none fun c hc => (head?_separator hl.separator hc).2
    | none =>
      simp only [Layout.printOwned, howner, Layout.printCall]
      refine static_eq_none hsig.method.2 (fun c hc => (head?_gap hgap hc).1) ?_
      intro _
      refine blanks1_gap hgap (hallows.of_bare hreturns howner) ?_
      intro hparen
      rw [as, typeAndCall_enclosed, ownerAndCall_enclosed, call_eq_none hparen hl.tail]
      rfl

/-- The parts after the command are read as they are printed. -/
theorem either_printParts (hstatic : sig.isStatic = false → sig.returns ≠ some "static")
    (hallows : sig.AllowsGap gap) :
    either (lit "static" (blanks1 (as (ofParts true) (typeAndCall d))))
      (as (ofParts false) (typeAndCall d)) (l.printParts sig gap) = some sig := by
  have htyped := typeAndCall_printTyped hsig hl hgap hallows
  have hparts := ofParts_eq hsig hgap
  cases hisStatic : sig.isStatic with
  | true =>
    rw [hisStatic] at hparts
    have hread : as (ofParts true) (typeAndCall d) (l.printTyped sig gap) = some sig := by
      rw [as, htyped, Option.map_some, hparts]
    have hkeyword := blanks1_append hl.afterStatic.1 hl.afterStatic.2
      (fun c hc => isBlank_of_isWord (head?_printTyped hsig hc)) hread
    rw [Layout.printParts, if_pos hisStatic, either, lit_append, hkeyword]
    rfl
  | false =>
    rw [hisStatic] at hparts
    have hnone := static_printTyped hsig hl hgap (hstatic hisStatic) hallows
    rw [Layout.printParts, if_neg (by simp [hisStatic]), either, hnone, as, htyped]
    simp [hparts]

end Gap

/-- Nothing is read in the margin, so the line is read from its command on. -/
theorem parse?_print_eq {sig' : Signature}
    (hparts : either (lit "static" (blanks1 (as (ofParts true) (typeAndCall d))))
      (as (ofParts false) (typeAndCall d)) (l.printParts sig gap) = some sig') :
    parse? d (l.print sig gap) = if sig'.method = "" then none else some sig' := by
  have hcommand : annotation? d ("@luafunc".toList ++ (l.afterCommand ++ l.printParts sig gap)) =
      some sig' := by
    rw [annotation?, lit_append]
    exact blanks1_append hl.afterCommand.1 hl.afterCommand.2
      (fun c hc => isBlank_of_isWord (head?_printParts hsig hc)) hparts
  have hfound : anywhere (annotation? d) (l.print sig gap) = some sig' := by
    refine anywhere_append ?_ hcommand
    rintro v (_ | ⟨b, w⟩) hw hmargin
    · exact absurd rfl hw
    · -- no command begins in the margin
      refine lit_eq_none '@' rfl ?_
      intro hhead
      obtain rfl : b = '@' := by simpa using hhead
      have hmem := hl.margin '@' (by rw [hmargin]; simp)
      exact absurd hmem (by decide)
  rw [parse?, hfound]

/-- **An annotation is read back over the gaps that are allowed.** -/
theorem parse?_print_of_allowsGap (hgap : ∀ c ∈ gap, isBlank c = true)
    (hstatic : sig.isStatic = false → sig.returns ≠ some "static")
    (hallows : sig.AllowsGap gap) : parse? d (l.print sig gap) = some sig := by
  have hmethod : sig.method ≠ "" := by
    intro hempty
    exact hsig.method.1 (by rw [hempty]; rfl)
  rw [parse?_print_eq hsig hl (either_printParts hsig hl hgap hstatic hallows), if_neg hmethod]

end Parts

end Print

/-- **Reading inverts printing.**  The annotation of a signature is written with blanks and stars
before the command, with blanks after each word, with a separator of the dialect after the class and
with a text behind it that holds no closing parenthesis; the type, the class and the method are
words, the arguments any text on one line.  It is read as this signature, unless the type is the
word `static` without the keyword before it. -/
theorem parse?_print {d : Dialect} {sig : Signature} {l : Layout} (hsig : sig.IsPrintable)
    (hl : l.Fits d) (hstatic : sig.isStatic = false → sig.returns ≠ some "static") :
    parse? d (l.print sig []) = some sig :=
  parse?_print_of_allowsGap hsig hl (List.forall_mem_nil _) hstatic (Or.inl rfl)

/-- A signature that has the keyword, and has words of the annotation for its other parts. -/
def areaSignature : Signature where
  isStatic := true
  returns := some "static"
  owner := some "Größe"
  method := "luafunc"
  arguments := "f(x), @luafunc static g(y) "

/-- Its layout on a line of a script, with an open parenthesis behind it. -/
def areaLayout : Layout where
  margin := "\t * ".toList
  afterCommand := " ".toList
  afterStatic := "  ".toList
  afterReturns := "\t".toList
  separator := ":"
  tail := " (see".toList

/-- The line. -/
def areaLine : List Char :=
  "\t * @luafunc static  static\tGröße:luafunc(f(x), @luafunc static g(y) ) (see".toList

theorem parse?_areaLine :
    areaSignature.IsPrintable ∧ areaLayout.Fits .bracketed ∧
      (areaSignature.isStatic = false → areaSignature.returns ≠ some "static") ∧
      areaLayout.print areaSignature [] = areaLine ∧
      parse? .bracketed areaLine = some areaSignature := by
  have hsig : areaSignature.IsPrintable := by
    refine ⟨?_, ?_, by decide +kernel, by decide +kernel⟩
    · rintro type ⟨⟩
      decide +kernel
    · rintro name ⟨⟩
      decide +kernel
  have hmargin : areaLayout.margin.all (fun c => isBlank c || c == '*') = true := by decide +kernel
  have hl : areaLayout.Fits .bracketed :=
    ⟨by simpa using hmargin, by decide +kernel, by decide +kernel, by decide +kernel,
      by decide +kernel, by decide +kernel⟩
  have hline : areaLayout.print areaSignature [] = areaLine := by decide +kernel
  refine ⟨hsig, hl, nofun, hline, ?_⟩
  rw [← hline]
  exact parse?_print hsig hl nofun

end Signature

end BindingDocs
