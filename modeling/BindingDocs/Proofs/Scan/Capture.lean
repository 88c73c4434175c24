import BindingDocs.Proofs.Text.CommentEnd
import BindingDocs.Proofs.Text.Reader
import BindingDocs.Scan.Tag

/-!
# What a command captures

The texts that a command hands on are parts of its line, and names among them consist of word
characters.

## Main results

* `Scan.Tag.infix_of_paragraph` — the text of a paragraph.
* `Scan.Tag.listing?_isName`, `Scan.Tag.lastWord?_isName` — the name of a class.
* `Signature.partsOf_of_parse?` — the parts of a function annotation.
-/

namespace BindingDocs

open Text

/-- A text of word characters. -/
def IsName (name : String) : Prop := ∀ c ∈ name.toList, isWord c = true

/-- A name does not close a comment. -/
theorem IsName.staysOpen {name : String} (h : IsName name) : StaysOpen name.toList :=
  staysOpen_of_not_mem (star_not_mem_of_word h)

namespace Signature

/-- Where the parts of a signature come from: names hold word characters only, the other parts occur
in the line. -/
structure PartsOf (line : List Char) (sig : Signature) : Prop where
  returns : ∀ type, sig.returns = some type → IsName type
  owner : ∀ name, sig.owner = some name → IsName name
  method : sig.method.toList <:+: line
  arguments : sig.arguments.toList <:+: line

variable {d : Dialect} {s : List Char}

/-- The two parts of a call stand next to each other, with the parentheses around the second. -/
theorem call_eq_some {method arguments : List Char} (h : call s = some (method, arguments)) :
    '\n' ∉ method ∧ ∃ t, s = method ++ '(' :: (arguments ++ ')' :: t) := by
  obtain ⟨⟨r, a, u⟩, hshort, hparts⟩ := as_eq_some.mp h
  cases hparts
  obtain ⟨-, t, rfl, hline, ht⟩ := short1_eq_some hshort
  obtain ⟨t', rfl, ht'⟩ := lit_eq_some.mp ht
  obtain ⟨t'', rfl, -, hclose⟩ := run_eq_some ht'
  obtain ⟨rest, rfl, -⟩ := lit_eq_some.mp hclose
  refine ⟨?_, rest, rfl⟩
  intro hmem
  exact absurd (hline _ hmem) (by decide)

/-- A separator is followed by what the reader finds after it. -/
theorem separator_eq_some {α : Type} {k : Reader α} {a : α} (h : separator d k s = some a) :
    ∃ u t, s = u ++ t ∧ k t = some a := by
  obtain ⟨w, -, hw⟩ := List.exists_of_findSome?_eq_some h
  obtain ⟨t, hs, ht⟩ := lit_eq_some.mp hw
  exact ⟨w.toList, t, hs, ht⟩

/-- The owner is a name, and the call stands at the end of the text. -/
theorem ownerAndCall_parts {owner : Option (List Char)} {parts : List Char × List Char}
    (h : ownerAndCall d s = some (owner, parts)) :
    (∀ name, owner = some name → ∀ c ∈ name, isWord c = true) ∧
      ∃ t, t <:+ s ∧ call t = some parts := by
  rcases either_eq_some h with h | h
  · obtain ⟨⟨name, _⟩, hrun, hparts⟩ := as_eq_some.mp h
    cases hparts
    obtain ⟨-, t, rfl, hname, ht⟩ := run1_eq_some hrun
    obtain ⟨u, t', rfl, hcall⟩ := separator_eq_some ht
    exact ⟨fun _ hn => by cases hn; exact hname, t', ⟨name ++ u, by simp⟩, hcall⟩
  · obtain ⟨_, hcall, hparts⟩ := as_eq_some.mp h
    cases hparts
    exact ⟨by simp, s, List.suffix_rfl, hcall⟩

/-- The return type is a name too. -/
theorem typeAndCall_parts {type owner : Option (List Char)} {parts : List Char × List Char}
    (h : typeAndCall d s = some (type, owner, parts)) :
    (∀ name, type = some name → ∀ c ∈ name, isWord c = true) ∧
      (∀ name, owner = some name → ∀ c ∈ name, isWord c = true) ∧
        ∃ t, t <:+ s ∧ call t = some parts := by
  rcases either_eq_some h with h | h
  · obtain ⟨⟨name, _⟩, hrun, hparts⟩ := as_eq_some.mp h
    cases hparts
    obtain ⟨-, t, rfl, hname, ht⟩ := run1_eq_some hrun
    obtain ⟨u, t', rfl, howned⟩ := blanks1_eq_some ht
    obtain ⟨howner, t'', hsuffix, hcall⟩ := ownerAndCall_parts howned
    have hrest : t' <:+ name ++ (u ++ t') := ⟨name ++ u, by simp⟩
    exact ⟨fun _ hn => by cases hn; exact hname, howner, t'', hsuffix.trans hrest, hcall⟩
  · obtain ⟨_, howned, hparts⟩ := as_eq_some.mp h
    cases hparts
    exact ⟨by simp, ownerAndCall_parts howned⟩

/-- The name, before its blanks are removed, and the arguments are the parts of a call. -/
theorem exists_call_of_ofParts {isStatic : Bool} {sig : Signature}
    (h : as (ofParts isStatic) (typeAndCall d) s = some sig) :
    ∃ t method, t <:+ s ∧ call t = some (method, sig.arguments.toList) ∧
      trim method = sig.method.toList := by
  obtain ⟨⟨_, _, method, _⟩, htyped, rfl⟩ := as_eq_some.mp h
  obtain ⟨-, -, t, hsuffix, hcall⟩ := typeAndCall_parts htyped
  exact ⟨t, method, hsuffix, by simpa [ofParts] using hcall, by simp [ofParts]⟩

/-- Putting the parts together keeps them where they come from. -/
theorem partsOf_ofParts {isStatic : Bool} {sig : Signature}
    (h : as (ofParts isStatic) (typeAndCall d) s = some sig) : PartsOf s sig := by
  obtain ⟨t, method, hsuffix, hcall, hmethod⟩ := exists_call_of_ofParts h
  obtain ⟨⟨type, owner, _⟩, htyped, hsig⟩ := as_eq_some.mp h
  obtain ⟨htype, howner, -⟩ := typeAndCall_parts htyped
  obtain ⟨-, rest, rfl⟩ := call_eq_some hcall
  refine ⟨?_, ?_, ?_, ?_⟩
  · intro name hname
    rw [← hsig] at hname
    obtain ⟨t, ht, rfl⟩ := Option.map_eq_some_iff.mp hname
    intro c hc
    exact htype t ht c ((isInfix_trim t).subset (by simpa using hc))
  · intro name hname
    rw [← hsig] at hname
    obtain ⟨o, ho, rfl⟩ := Option.map_eq_some_iff.mp hname
    intro c hc
    exact howner o ho c (by simpa using hc)
  · rw [← hmethod]
    exact ((isInfix_trim method).trans List.infix_append_left).trans hsuffix.isInfix
  · exact List.IsInfix.trans ⟨method ++ ['('], ')' :: rest, by simp⟩ hsuffix.isInfix

/-- Parts of a part of a line are parts of the line. -/
theorem PartsOf.mono {line : List Char} {sig : Signature} (h : PartsOf s sig) (hs : s <:+: line) :
    PartsOf line sig :=
  ⟨h.returns, h.owner, h.method.trans hs, h.arguments.trans hs⟩

/-- What is read of an annotation is read at the end of its line. -/
theorem exists_ofParts_of_parse? {line : List Char} {sig : Signature}
    (h : parse? d line = some sig) :
    ∃ isStatic t, t <:+ line ∧ as (ofParts isStatic) (typeAndCall d) t = some sig := by
  unfold parse? at h
  split at h
  · next sig' hsig =>
    split at h
    · simp at h
    · cases h
      obtain ⟨u, t, rfl, ht⟩ := anywhere_eq_some hsig
      obtain ⟨t₁, rfl, ht₁⟩ := lit_eq_some.mp ht
      obtain ⟨v, t₂, rfl, ht₂⟩ := blanks1_eq_some ht₁
      rcases either_eq_some ht₂ with hstatic | hparts
      · obtain ⟨t₃, rfl, ht₃⟩ := lit_eq_some.mp hstatic
        obtain ⟨x, t₄, rfl, ht₄⟩ := blanks1_eq_some ht₃
        exact ⟨true, t₄, ⟨u ++ ("@luafunc".toList ++ (v ++ ("static".toList ++ x))), by simp⟩, ht₄⟩
      · exact ⟨false, t₂, ⟨u ++ ("@luafunc".toList ++ v), by simp⟩, hparts⟩
  · simp at h

/-- **The parts of an annotation are names and parts of its line.** -/
theorem partsOf_of_parse? {line : List Char} {sig : Signature} (h : parse? d line = some sig) :
    PartsOf line sig := by
  obtain ⟨_, t, hsuffix, hparts⟩ := exists_ofParts_of_parse? h
  exact (partsOf_ofParts hparts).mono hsuffix.isInfix

end Signature

namespace Scan.Tag

variable {line : List Char}

/-! ### The command that counts -/

/-- The first command that is recognised is the one its reader finds. -/
theorem ofLine?_eq_some {tag : Tag} (h : ofLine? line = some tag) :
    match tag with
    | .page => isPage line = true
    | .par => isPar line = true
    | .enum spec => EnumSpec.parse? line = some spec
    | .geom body => geom? line = some body
    | .listing name => listing? line = some name
    | .func => isFunc line = true
    | .ofClass name => lastWord? "@luaclass" line = some name
    | .ofVirtualClass name => lastWord? "@luavclass" line = some name
    | .descr text => descr? line = some text := by
  unfold ofLine? at h
  split at h
  · next hpage => cases h; exact hpage
  split at h
  · next hpar => cases h; exact hpar
  simp only [orElse_eq_some_iff, Option.map_eq_some_iff] at h
  rcases h with ⟨spec, hspec, rfl⟩ | ⟨-, ⟨body, hbody, rfl⟩ | ⟨-, ⟨name, hname, rfl⟩ | ⟨-, hfunc |
    ⟨-, ⟨name, hname, rfl⟩ | ⟨-, ⟨name, hname, rfl⟩ | ⟨-, text, htext, rfl⟩⟩⟩⟩⟩⟩
  · exact hspec
  · exact hbody
  · exact hname
  · split at hfunc
    · next hisFunc => cases hfunc; exact hisFunc
    · simp at hfunc
  · exact hname
  · exact hname
  · exact htext

/-! ### What it captures -/

/-- The rest of a line is the whole of it. -/
theorem restOfLine_eq {s : List Char} {text : String} (h : restOfLine s = some text) :
    text.toList = s := by
  obtain ⟨⟨r, u⟩, hrun, rfl⟩ := as_eq_some.mp h
  obtain ⟨t, rfl, -, hend⟩ := run_eq_some hrun
  cases t with
  | nil => simp
  | cons c t => simp [atEnd] at hend

/-- The text of a paragraph occurs in its line. -/
theorem infix_of_paragraph {w text : String}
    (h : anywhere (lit w (blanks1 restOfLine)) line = some text) : text.toList <:+: line := by
  obtain ⟨u, t, rfl, ht⟩ := anywhere_eq_some h
  obtain ⟨t₁, rfl, ht₁⟩ := lit_eq_some.mp ht
  obtain ⟨v, t₂, rfl, ht₂⟩ := blanks1_eq_some ht₁
  rw [restOfLine_eq ht₂]
  exact ⟨u ++ w.toList ++ v, [], by simp⟩

/-- A listing names a class by word characters. -/
theorem listing?_isName {name : String} (h : listing? line = some name) : IsName name := by
  -- whichever margin the line has, the name is what `run1` took
  have hname : ∀ {s r u}, lit "@luafuncsheader" (blanks1 (run1 isWord done)) s = some (r, u) →
      ∀ c ∈ r, isWord c = true := by
    intro s r u hs
    obtain ⟨t, -, ht⟩ := lit_eq_some.mp hs
    obtain ⟨v, t', -, ht'⟩ := blanks1_eq_some ht
    obtain ⟨-, t'', -, hr, -⟩ := run1_eq_some ht'
    exact hr
  obtain ⟨⟨r, u⟩, hr, rfl⟩ := as_eq_some.mp h
  obtain ⟨v, t, -, ht⟩ := blanks_eq_some hr
  intro c hc
  rw [String.toList_ofList] at hc
  rcases either_eq_some ht with hstar | hplain
  · obtain ⟨t₁, -, ht₁⟩ := lit_eq_some.mp hstar
    obtain ⟨x, t₂, -, ht₂⟩ := blanks_eq_some ht₁
    exact hname ht₂ c hc
  · obtain ⟨x, t₂, -, ht₂⟩ := blanks_eq_some hplain
    exact hname ht₂ c hc

/-- So does the documentation of a class. -/
theorem lastWord?_isName {w name : String} (h : lastWord? w line = some name) : IsName name := by
  obtain ⟨⟨r, u⟩, hr, rfl⟩ := as_eq_some.mp h
  obtain ⟨v, t, -, ht⟩ := anywhere_eq_some hr
  obtain ⟨t₁, -, ht₁⟩ := lit_eq_some.mp ht
  obtain ⟨x, t₂, -, ht₂⟩ := blanks1_eq_some ht₁
  obtain ⟨-, t₃, -, hword, -⟩ := run1_eq_some ht₂
  intro c hc
  rw [String.toList_ofList] at hc
  exact hword c hc

end Scan.Tag

end BindingDocs
