import BindingDocs.Markup.Reference
import Mathlib.Data.List.Basic

/-!
# Texts with references

In a text that strict markup accepts, every ampersand begins a reference: a name or a number up to
the next semicolon.  Any other text can be cut at its first ampersand that does not.  The texts that
are accepted are given by a grammar here, and the faults by such a cut, with positions in bytes.
The reader of a text agrees with both.

## Main definitions

* `IsNumeral`, `NamesCharacter` — numerals in a base, and references to characters by number.
* `IsReference` — the references that strict markup knows.
* `Referenced` — texts in which every ampersand begins such a reference.
* `FirstFault` — what is wrong at the first ampersand that does not.

## Main results

* `checkNumber_eq_none_iff`, `checkReference_eq_none_iff` — **the references that are accepted.**
* `checkFrom_append` — a text with references is passed over.
* `checkText_eq_none_iff`, `checkText_eq_some_iff` — **the texts that are accepted, and the faults
  of the others.**
-/

namespace BindingDocs.Markup

open Text

/-! ### Numbers -/

/-- The digits of a number in some base, at least one. -/
def IsNumeral (base : Nat) (s : List Char) (n : Nat) : Prop :=
  s ≠ [] ∧ ∃ ds : List Nat,
    s.map (digit? base) = ds.map some ∧ ds.foldl (fun m d => m * base + d) 0 = n

/-- The decimal number of a character, or its hexadecimal number after an `x`.  The character that
has the number zero cannot be referred to. -/
def NamesCharacter (s : List Char) : Prop :=
  ∃ n, 0 < n ∧ n.isValidChar ∧
    (IsNumeral 10 s n ∨ ∃ hex, s = 'x' :: hex ∧ IsNumeral 16 hex n)

theorem le_foldl_digits {base : Nat} (hbase : 0 < base) (ds : List Nat) (acc : Nat) :
    acc ≤ ds.foldl (fun m d => m * base + d) acc := by
  induction ds generalizing acc with
  | nil => exact Nat.le_refl _
  | cons d ds ih =>
    calc acc ≤ acc * base := Nat.le_mul_of_pos_right acc hbase
      _ ≤ acc * base + d := Nat.le_add_right _ _
      _ ≤ _ := ih _

/-- A number is read if it has digits only and is below 2 ^ 32. -/
theorem digits_eq_ok_iff {base : Nat} (hbase : 0 < base) {acc n : Nat} (hacc : acc < UInt32.size)
    {s : List Char} : digits base acc s = .ok n ↔
      n < UInt32.size ∧ ∃ ds : List Nat, s.map (digit? base) = ds.map some ∧
        ds.foldl (fun m d => m * base + d) acc = n := by
  induction s generalizing acc with
  | nil =>
    rw [digits, Except.ok.injEq]
    constructor
    · rintro rfl
      exact ⟨hacc, [], rfl, rfl⟩
    · rintro ⟨-, ds, hds, rfl⟩
      rw [List.map_nil, eq_comm, List.map_eq_nil_iff] at hds
      rw [hds, List.foldl_nil]
  | cons c s ih =>
    have hsplit : (∃ ds : List Nat, (c :: s).map (digit? base) = ds.map some ∧
        ds.foldl (fun m d => m * base + d) acc = n) ↔
          ∃ (d : Nat) (ds : List Nat), digit? base c = some d ∧ s.map (digit? base) = ds.map some ∧
            ds.foldl (fun m d => m * base + d) (acc * base + d) = n := by
      constructor
      · rintro ⟨ds, hds, hn⟩
        obtain ⟨d, ds, rfl⟩ : ∃ d ds', ds = d :: ds' := by
          cases ds with
          | nil => cases hds
          | cons d ds => exact ⟨d, ds, rfl⟩
        rw [List.map_cons, List.map_cons, List.cons.injEq] at hds
        exact ⟨d, ds, hds.1, hds.2, hn⟩
      · rintro ⟨d, ds, hd, hds, hn⟩
        exact ⟨d :: ds, by rw [List.map_cons, List.map_cons, hd, hds], hn⟩
    rw [digits, hsplit]
    cases hd : digit? base c with
    | none => simp
    | some d =>
      simp only [Option.some.injEq, exists_and_left, exists_eq_left']
      split
      · next hlt => exact ih hlt
      · next hge =>
        -- further digits make a number no smaller
        constructor
        · intro h
          cases h
        · rintro ⟨hn, ds, -, rfl⟩
          have hle := le_foldl_digits hbase ds (acc * base + d)
          omega

theorem digit?_sign (base : Nat) {c : Char} (h : c = '+' ∨ c = '-') : digit? base c = none := by
  rcases h with rfl | rfl <;> rfl

theorem number_eq_ok_iff {base : Nat} (hbase : 0 < base) {s : List Char} {n : Nat} :
    number base s = .ok n ↔ n < UInt32.size ∧ IsNumeral base s n := by
  cases s with
  | nil => simp [number, IsNumeral]
  | cons c s =>
    rw [number, IsNumeral]
    split
    · next hsign =>
      -- a sign is no digit
      constructor
      · intro h
        cases h
      · rintro ⟨-, -, ds, hds, -⟩
        rw [List.map_cons, digit?_sign base hsign] at hds
        cases ds <;> cases hds
    · rw [digits_eq_ok_iff hbase (by decide)]
      simp

theorem lt_of_isValidChar {n : Nat} (h : n.isValidChar) : n < UInt32.size := by
  have hsize : UInt32.size = 4294967296 := rfl
  rcases h with h | h <;> omega

/-- A number is accepted if a character has it. -/
theorem checkCode_eq_none_iff {code : Except NumberFault Nat} :
    (match code with
      | .error fault => some fault
      | .ok 0 => some .zero
      | .ok n => if Nat.isValidChar n then none else some (.notACharacter n)) = none ↔
    ∃ n, 0 < n ∧ n.isValidChar ∧ code = .ok n := by
  rcases code with fault | _ | n
  · simp
  · simp
  · by_cases hvalid : (n + 1).isValidChar
    · simp only [if_pos hvalid, true_iff]
      exact ⟨n + 1, n.succ_pos, hvalid, rfl⟩
    · simp only [if_neg hvalid, reduceCtorEq, false_iff]
      rintro ⟨m, -, hm, h⟩
      cases h
      exact hvalid hm

theorem checkNumber_hex (hex : List Char) : checkNumber ('x' :: hex) = none ↔
    ∃ n, 0 < n ∧ n.isValidChar ∧ number 16 hex = .ok n :=
  checkCode_eq_none_iff

theorem checkNumber_decimal {s : List Char} (hs : ∀ hex, s ≠ 'x' :: hex) : checkNumber s = none ↔
    ∃ n, 0 < n ∧ n.isValidChar ∧ number 10 s = .ok n := by
  rw [checkNumber]
  · exact checkCode_eq_none_iff
  · exact hs

/-- **The numbers that are accepted** are those of characters. -/
theorem checkNumber_eq_none_iff {s : List Char} : checkNumber s = none ↔ NamesCharacter s := by
  rw [NamesCharacter]
  by_cases hx : ∃ hex, s = 'x' :: hex
  · obtain ⟨hex, rfl⟩ := hx
    rw [checkNumber_hex]
    refine exists_congr fun n => and_congr_right fun _ => and_congr_right fun hvalid => ?_
    -- an `x` is no decimal digit
    have hdecimal : ¬ IsNumeral 10 ('x' :: hex) n := by
      rintro ⟨-, ds, hds, -⟩
      cases ds <;> cases hds
    rw [number_eq_ok_iff (by decide), and_iff_right (lt_of_isValidChar hvalid),
      or_iff_right hdecimal]
    constructor
    · exact fun h => ⟨hex, rfl, h⟩
    · rintro ⟨hex', hhex, h⟩
      cases hhex
      exact h
  · rw [checkNumber_decimal (not_exists.mp hx)]
    refine exists_congr fun n => and_congr_right fun _ => and_congr_right fun hvalid => ?_
    have hhex : ¬ ∃ hex, s = 'x' :: hex ∧ IsNumeral 16 hex n :=
      fun ⟨hex, hs, _⟩ => hx ⟨hex, hs⟩
    rw [number_eq_ok_iff (by decide), or_iff_left hhex]
    exact and_iff_right (lt_of_isValidChar hvalid)

/-! ### References -/

/-- A reference that strict markup knows: a named entity, or the number of a character after a
number sign. -/
def IsReference (name : List Char) : Prop :=
  String.ofList name ∈ entities ∨ ∃ s, name = '#' :: s ∧ NamesCharacter s

/-- **The references that are accepted.** -/
theorem checkReference_eq_none_iff {first last : Nat} {name : List Char} :
    checkReference first last name = none ↔ IsReference name := by
  rw [IsReference]
  unfold checkReference
  split
  · next s =>
    have hentity : String.ofList ('#' :: s) ∉ entities := by
      intro hmem
      have hletter : ∀ e ∈ entities, e.toList.head? ≠ some '#' := by decide
      exact hletter _ hmem (by rw [String.toList_ofList]; rfl)
    rw [Option.map_eq_none_iff, checkNumber_eq_none_iff, or_iff_right hentity]
    constructor
    · exact fun h => ⟨s, rfl, h⟩
    · rintro ⟨s', hs', h⟩
      cases hs'
      exact h
  · next hname =>
    have hnumber : ¬ ∃ s, name = '#' :: s ∧ NamesCharacter s := fun ⟨s, hs, _⟩ => hname s hs
    rw [or_iff_left hnumber, ← List.contains_iff_mem]
    split <;> simp_all

/-! ### Texts -/

/-- The characters between an ampersand and the next semicolon or ampersand. -/
def IsRaw (name : List Char) : Prop := ∀ c ∈ name, c ≠ '&' ∧ c ≠ ';'

/-- A text in which every ampersand begins a reference. -/
inductive Referenced : List Char → Prop
  | nil : Referenced []
  | char {c : Char} {s : List Char} (hc : c ≠ '&') (hs : Referenced s) : Referenced (c :: s)
  | reference {name s : List Char} (hraw : IsRaw name) (hname : IsReference name)
      (hs : Referenced s) : Referenced ('&' :: (name ++ ';' :: s))

/-- What is wrong at the first ampersand that begins no reference.  There is a name that is not
known, or the name does not end with a semicolon of its own. -/
inductive FirstFault (s : List Char) : TextFault → Prop
  | reference {a name b : List Char} {fault : TextFault} (hs : s = a ++ '&' :: (name ++ ';' :: b))
      (ha : Referenced a) (hraw : IsRaw name)
      (hfault : checkReference (size a + 1) (size a + 1 + size name) name = some fault) :
      FirstFault s fault
  | unterminated {a name b : List Char} (hs : s = a ++ '&' :: (name ++ b)) (ha : Referenced a)
      (hraw : IsRaw name) (hb : b = [] ∨ b.head? = some '&') :
      FirstFault s (.unterminated (size a) (size s))

theorem Referenced.append {a b : List Char} (ha : Referenced a) (hb : Referenced b) :
    Referenced (a ++ b) := by
  induction ha with
  | nil => exact hb
  | char hc _ ih => exact .char hc ih
  | @reference name s hraw hname _ ih =>
    rw [List.cons_append, List.append_assoc, List.cons_append]
    exact .reference hraw hname ih

section Check

variable {total pos first : Nat} {a b name s : List Char} {c : Char}

theorem checkFrom_char (hc : c ≠ '&') (total pos : Nat) (s : List Char) :
    checkFrom total pos none (c :: s) = checkFrom total (pos + charSize c) none s := by
  rw [checkFrom, if_neg hc]

theorem checkFrom_ampersand (total pos : Nat) (s : List Char) :
    checkFrom total pos none ('&' :: s) = checkFrom total (pos + 1) (some (pos, [])) s := by
  rw [checkFrom, if_pos rfl]

/-- The characters of a name are collected up to its end. -/
theorem checkFrom_name (hname : IsRaw name) (total pos first : Nat) (acc s : List Char) :
    checkFrom total pos (some (first, acc)) (name ++ s) =
      checkFrom total (pos + size name) (some (first, name.reverse ++ acc)) s := by
  induction name generalizing pos acc with
  | nil => rfl
  | cons c name ih =>
    obtain ⟨⟨hamp, hend⟩, hrest⟩ := List.forall_mem_cons.mp hname
    rw [List.cons_append, checkFrom, if_neg hend, if_neg hamp, ih hrest, size, Nat.add_assoc,
      List.reverse_cons, List.append_assoc, List.singleton_append]

/-- What is read at an ampersand with a semicolon of its own. -/
theorem checkFrom_reference_of_fault (hname : IsRaw name) {total pos : Nat} {fault : TextFault}
    (hfault : checkReference (pos + 1) (pos + 1 + size name) name = some fault) (s : List Char) :
    checkFrom total pos none ('&' :: (name ++ ';' :: s)) = some fault := by
  rw [checkFrom_ampersand, checkFrom_name hname, checkFrom, if_pos rfl, List.append_nil,
    List.reverse_reverse, hfault]

theorem checkFrom_reference_of_none (hname : IsRaw name) {total pos : Nat}
    (hnone : checkReference (pos + 1) (pos + 1 + size name) name = none) (s : List Char) :
    checkFrom total pos none ('&' :: (name ++ ';' :: s)) =
      checkFrom total (pos + 1 + size name + 1) none s := by
  rw [checkFrom_ampersand, checkFrom_name hname, checkFrom, if_pos rfl, List.append_nil,
    List.reverse_reverse, hnone]

/-- What is read at an ampersand without one. -/
theorem checkFrom_unterminated (hname : IsRaw name) (hs : s = [] ∨ s.head? = some '&')
    (total pos : Nat) :
    checkFrom total pos none ('&' :: (name ++ s)) = some (.unterminated pos total) := by
  rw [checkFrom_ampersand, checkFrom_name hname]
  rcases hs with rfl | hs
  · rw [checkFrom]
  · obtain ⟨r, rfl⟩ := List.head?_eq_some_iff.mp hs
    rw [checkFrom, if_neg (by decide), if_pos rfl]

theorem size_append (a b : List Char) : size (a ++ b) = size a + size b := by
  induction a with
  | nil => rw [List.nil_append, size, Nat.zero_add]
  | cons c a ih => rw [List.cons_append, size, size, ih, Nat.add_assoc]

/-- **A text with references is passed over.** -/
theorem checkFrom_append (ha : Referenced a) (total pos : Nat) (s : List Char) :
    checkFrom total pos none (a ++ s) = checkFrom total (pos + size a) none s := by
  induction ha generalizing pos with
  | nil => rfl
  | char hc _ ih => rw [List.cons_append, checkFrom_char hc, ih, size, Nat.add_assoc]
  | @reference name r hraw hname _ ih =>
    have hnone : checkReference (pos + 1) (pos + 1 + size name) name = none :=
      checkReference_eq_none_iff.mpr hname
    have hsize : pos + size ('&' :: (name ++ ';' :: r)) = pos + 1 + size name + 1 + size r := by
      have hamp : charSize '&' = 1 := rfl
      have hend : charSize ';' = 1 := rfl
      rw [size, size_append, size, hamp, hend]
      omega
    rw [List.cons_append, List.append_assoc, List.cons_append,
      checkFrom_reference_of_none hraw hnone, hsize]
    exact ih _

/-- What follows an ampersand is cut where the name ends. -/
theorem exists_isRaw_append (s : List Char) : ∃ name rest, s = name ++ rest ∧ IsRaw name ∧
    ((rest = [] ∨ rest.head? = some '&') ∨ ∃ r, rest = ';' :: r) := by
  induction s with
  | nil => exact ⟨[], [], rfl, nofun, Or.inl (Or.inl rfl)⟩
  | cons c s ih =>
    by_cases hamp : c = '&'
    · exact ⟨[], c :: s, rfl, nofun, Or.inl (Or.inr (by rw [hamp]; rfl))⟩
    · by_cases hend : c = ';'
      · exact ⟨[], c :: s, rfl, nofun, Or.inr ⟨s, by rw [hend]⟩⟩
      · obtain ⟨name, rest, rfl, hraw, hrest⟩ := ih
        exact ⟨c :: name, rest, rfl, List.forall_mem_cons.mpr ⟨⟨hamp, hend⟩, hraw⟩, hrest⟩

/-- A fault stands behind all that was read before it. -/
theorem Referenced.exists_firstFault (ha : Referenced a) {fault : TextFault}
    (hb : FirstFault b fault) : ∃ fault', FirstFault (a ++ b) fault' := by
  cases hb with
  | @reference a' name b' _ hb ha' hraw hfault =>
    -- the same reference, read at another position
    have hnot : ¬ IsReference name := by
      rw [← checkReference_eq_none_iff, hfault]
      exact nofun
    obtain ⟨fault', hfault'⟩ := Option.ne_none_iff_exists'.mp
      (checkReference_eq_none_iff.not.mpr hnot)
    exact ⟨fault', .reference (by rw [hb, List.append_assoc]) (ha.append ha') hraw hfault'⟩
  | unterminated hb ha' hraw hend =>
    exact ⟨_, .unterminated (by rw [hb, List.append_assoc]) (ha.append ha') hraw hend⟩

/-- Every text is one with references, or it can be cut at an ampersand that begins none. -/
theorem referenced_or_fault (s : List Char) : Referenced s ∨ ∃ fault, FirstFault s fault := by
  induction hlength : s.length using Nat.strongRecOn generalizing s with
  | _ n ih =>
    have hrest {a b : List Char} (hs : s = a ++ b) (ha : Referenced a) (hne : a ≠ []) :
        Referenced s ∨ ∃ fault, FirstFault s fault := by
      have hshorter : b.length < n := by
        have hpos := List.length_pos_iff.mpr hne
        rw [← hlength, hs, List.length_append]
        omega
      rw [hs]
      exact (ih _ hshorter b rfl).imp ha.append fun ⟨_, hb⟩ => ha.exists_firstFault hb
    rcases s with _ | ⟨c, s⟩
    · exact Or.inl .nil
    · by_cases hc : c = '&'
      · subst hc
        obtain ⟨name, rest, rfl, hraw, hend | ⟨rest, rfl⟩⟩ := exists_isRaw_append s
        · exact Or.inr ⟨_, .unterminated (a := []) rfl .nil hraw hend⟩
        · cases hfault : checkReference (size [] + 1) (size [] + 1 + size name) name with
          | some fault => exact Or.inr ⟨fault, .reference (a := []) rfl .nil hraw hfault⟩
          | none =>
            have hfront : Referenced ('&' :: (name ++ [';'])) :=
              .reference hraw (checkReference_eq_none_iff.mp hfault) .nil
            have hsplit : '&' :: (name ++ ';' :: rest) = '&' :: (name ++ [';']) ++ rest := by simp
            exact hrest hsplit hfront (List.cons_ne_nil _ _)
      · exact hrest (a := [c]) rfl (.char hc .nil) (List.cons_ne_nil _ _)

theorem FirstFault.checkText {fault : TextFault} (h : FirstFault s fault) :
    checkText s = some fault := by
  cases h with
  | reference hs ha hraw hfault =>
    rw [Markup.checkText, hs, checkFrom_append ha, Nat.zero_add]
    exact checkFrom_reference_of_fault hraw hfault _
  | unterminated hs ha hraw hb =>
    rw [Markup.checkText]
    conv_lhs => rw [hs]
    rw [checkFrom_append ha, checkFrom_unterminated hraw hb, Nat.zero_add, ← hs]

/-- **The texts that are accepted** are those in which every ampersand begins a reference. -/
theorem checkText_eq_none_iff : checkText s = none ↔ Referenced s := by
  constructor
  · intro hnone
    rcases referenced_or_fault s with h | ⟨fault, h⟩
    · exact h
    · rw [h.checkText] at hnone
      cases hnone
  · intro h
    have hpass := checkFrom_append h (size s) 0 []
    rw [List.append_nil] at hpass
    rw [Markup.checkText, hpass, checkFrom]

/-- **The fault of any other text** is that of its first ampersand that begins none. -/
theorem checkText_eq_some_iff {fault : TextFault} :
    checkText s = some fault ↔ FirstFault s fault := by
  constructor
  · intro hsome
    rcases referenced_or_fault s with h | ⟨fault', h⟩
    · rw [checkText_eq_none_iff.mpr h] at hsome
      cases hsome
    · rw [h.checkText] at hsome
      cases hsome
      exact h
  · exact FirstFault.checkText

end Check

end BindingDocs.Markup
