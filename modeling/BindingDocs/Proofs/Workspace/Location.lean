import BindingDocs.Proofs.Text.Search
import BindingDocs.Workspace
import Mathlib.Data.List.Lex
import Mathlib.Data.Char

/-!
# From paths to locations

A path below another adds one component to it and leads one step further.  What a path leads to
depends only on which locations hold directories, so it stays where it is when files get other
bytes.

## Main definitions

* `Path.IsName` — a text that can name an entry of a directory.
* `Workspace.Proper` — every location has proper names and is listed once.
* `Workspace.enter` — one step of a path.

## Main results

* `Path.components_join`, `Workspace.resolve_join` — a path below another.
* `Workspace.mem_namesAt`, `Workspace.pairwise_namesAt` — the names in a directory.
* `Workspace.locate_put` — paths stay where they are when a file is changed.
-/

namespace BindingDocs

open Text

namespace Path

/-! ### Components -/

/-- A text that can name an entry of a directory. -/
def IsName (n : List Char) : Prop := n ≠ [] ∧ n ≠ ['.'] ∧ n ≠ ['.', '.'] ∧ '/' ∉ n

instance (n : List Char) : Decidable (IsName n) := inferInstanceAs (Decidable (_ ∧ _))

theorem component?_of_isName {n : List Char} (h : IsName n) : component? n = some (.name n) := by
  simp [component?, h.1, h.2.1, h.2.2.1]

variable {path name : List Char}

/-- What follows a separator inside of a path is one more component. -/
theorem components_append (hpath : path ≠ []) (hname : '/' ∉ name) :
    components (path ++ '/' :: name) = components path ++ (component? name).toList := by
  obtain ⟨first, rest, hparts⟩ := List.exists_cons_of_ne_nil (splitOn_ne_nil (c := '/') path)
  have hhead : (path ++ '/' :: name).head? = path.head? := List.head?_append_of_ne_nil _ hpath
  have hlast : [name].filterMap component? = (component? name).toList := by
    cases h : component? name <;> simp [h]
  unfold components
  rw [splitOn_append, splitOn_eq_singleton hname, hparts, hhead, List.cons_append]
  simp only [List.filterMap_append, hlast]
  split
  · rfl
  · split
    · rfl
    · rw [List.append_assoc]

/-- A path below another has one component more. -/
theorem components_join (hpath : path ≠ []) (hname : '/' ∉ name) :
    components (join path name) = components path ++ (component? name).toList := by
  have hhead : name.head? ≠ some '/' := fun h => hname (List.mem_of_mem_head? h)
  rw [join, if_neg hhead]
  split
  · next hend =>
    -- the path ends in a separator, after which the name is written
    obtain ⟨q, rfl⟩ := List.getLast?_eq_some_iff.mp (hend.resolve_left hpath)
    rw [List.append_assoc, List.singleton_append]
    by_cases hq : q = []
    · subst hq
      have hroot : components ['/'] = [.root] := by decide
      rw [List.nil_append, List.nil_append, hroot]
      cases hc : component? name <;>
        simp [components, splitOn, splitOn_eq_singleton hname, hc]
    · rw [components_append hq hname, components_append hq List.not_mem_nil]
      simp [component?]
  · exact components_append hpath hname

/-! ### The order of texts -/

theorem textBefore_iff_lt {s t : List Char} : textBefore s t = true ↔ s < t := by
  induction s generalizing t with
  | nil => cases t <;> simp [textBefore]
  | cons a s ih =>
    cases t with
    | nil => simp [textBefore]
    | cons b t =>
      rw [List.cons_lt_cons_iff, ← ih]
      simp [textBefore, Char.lt_def, UInt32.lt_iff_toNat_lt]

theorem before_self (c : Component) : c.before c = false := by
  cases c with
  | name n =>
    simpa [Component.before] using (textBefore_iff_lt (s := n) (t := n)).not.mpr (lt_irrefl n)
  | _ => rfl

/-- Paths that differ in their last name only stand in the order of these names. -/
theorem componentsBefore_append (dir : List Component) (a b : List Char) :
    componentsBefore (dir ++ [.name a]) (dir ++ [.name b]) = textBefore a b := by
  induction dir with
  | nil => simp [componentsBefore, Component.before]
  | cons c dir ih => simp [componentsBefore, before_self, ih]

end Path

namespace Workspace

variable {w : Workspace} {l l' : Location}

/-! ### Steps -/

/-- The location that a part of a path leads to from a directory. -/
def enter (l : Location) (part : List Char) : Location :=
  if part = [] ∨ part = ['.'] then l else if part = ['.', '.'] then l.dropLast else l ++ [part]

theorem enter_of_isName {n : List Char} (h : Path.IsName n) (l : Location) :
    enter l n = l ++ [n] := by
  simp [enter, h.1, h.2.1, h.2.2.1]

theorem locate_cons (h : w.get? l = some .dir) (part : List Char) (rest : List (List Char)) :
    w.locate l (part :: rest) = w.locate (enter l part) rest := by
  rw [locate, h, enter]
  simp only
  split
  · rfl
  · split <;> rfl

/-- Only from a directory is there a way on. -/
theorem locate_cons_eq_ok_iff {part : List Char} {rest : List (List Char)} :
    w.locate l (part :: rest) = .ok l' ↔
      w.get? l = some .dir ∧ w.locate (enter l part) rest = .ok l' := by
  constructor
  · intro h
    have hl : w.get? l = some .dir := by
      rw [locate] at h
      split at h
      · simp at h
      · simp at h
      · next hl => exact hl
    exact ⟨hl, by rwa [locate_cons hl] at h⟩
  · rintro ⟨hl, h⟩
    rwa [locate_cons hl]

theorem locate_append_eq_ok_iff {a b : List (List Char)} :
    w.locate l (a ++ b) = .ok l' ↔ ∃ m, w.locate l a = .ok m ∧ w.locate m b = .ok l' := by
  induction a generalizing l with
  | nil => simp [locate]
  | cons part a ih =>
    rw [List.cons_append, locate_cons_eq_ok_iff, ih]
    simp only [locate_cons_eq_ok_iff]
    exact ⟨fun ⟨hl, m, ha, hb⟩ => ⟨m, ⟨hl, ha⟩, hb⟩, fun ⟨m, ⟨hl, ha⟩, hb⟩ => ⟨hl, m, ha, hb⟩⟩

/-- A way that ends in a directory begins in one. -/
theorem get?_of_locate {parts : List (List Char)} (h : w.locate l parts = .ok l')
    (hl' : w.get? l' = some .dir) : w.get? l = some .dir := by
  cases parts with
  | nil =>
    cases h
    exact hl'
  | cons part rest => exact (locate_cons_eq_ok_iff.mp h).1

/-- **A path below a directory leads one step further.** -/
theorem resolve_join {path name : List Char} (hpath : path ≠ []) (h : w.resolve path = .ok l)
    (hl : w.get? l = some .dir) (hname : '/' ∉ name) :
    w.resolve (Path.join path name) = .ok (enter l name) := by
  have hstart (t : List Char) : start w.current (path ++ t) = start w.current path := by
    rw [start, start, List.head?_append_of_ne_nil _ hpath]
  have hhead : name.head? ≠ some '/' := fun h => hname (List.mem_of_mem_head? h)
  have hlast : w.locate l [name] = .ok (enter l name) := locate_cons hl name []
  rw [resolve, resolveFrom, if_neg hpath] at h
  rw [Path.join, if_neg hhead]
  split
  · next hend =>
    -- the separator at the end of the path leads nowhere, and the name takes its place
    obtain ⟨q, rfl⟩ := List.getLast?_eq_some_iff.mp (hend.resolve_left hpath)
    rw [splitOn_append q [], locate_append_eq_ok_iff] at h
    obtain ⟨m, hq, hm⟩ := h
    rw [resolve, resolveFrom, if_neg (by simp), hstart, List.append_assoc, List.singleton_append,
      splitOn_append, splitOn_eq_singleton hname, locate_append_eq_ok_iff]
    obtain rfl : m = l := by simpa [enter, locate] using (locate_cons_eq_ok_iff.mp hm).2
    exact ⟨m, hq, hlast⟩
  · rw [resolve, resolveFrom, if_neg (by simp), hstart, splitOn_append,
      splitOn_eq_singleton hname, locate_append_eq_ok_iff]
    exact ⟨l, h, hlast⟩

theorem find_eq_ok {path : List Char} {e : Entry} (h : w.resolve path = .ok l)
    (he : w.get? l = some e) : w.find path = .ok e := by
  rw [resolve] at h
  rw [find, findFrom, h]
  simp only [he]

/-! ### Names -/

/-- Every location has proper names and is listed once. -/
def Proper (w : Workspace) : Prop :=
  (∀ p ∈ w.entries, ∀ n ∈ p.1, Path.IsName n) ∧ (w.entries.map Prod.fst).Nodup

instance (w : Workspace) : Decidable w.Proper := inferInstanceAs (Decidable (_ ∧ _))

section Names

variable {n : List Char}

theorem get?_append (w : Workspace) (l : Location) (n : List Char) :
    w.get? (l ++ [n]) = w.entries.lookup (l ++ [n]) := by
  cases l <;> rfl

theorem mem_namesAt : n ∈ w.namesAt l ↔ ∃ e, (l ++ [n], e) ∈ w.entries := by
  have hkey (m : Location) : m.dropLast = l ∧ m.getLast? = some n ↔ m = l ++ [n] := by
    constructor
    · rintro ⟨rfl, hlast⟩
      exact (List.dropLast_append_getLast? n hlast).symm
    · rintro rfl
      simp
  rw [namesAt, List.mem_mergeSort, List.mem_filterMap]
  simp only [Option.ite_none_right_eq_some, hkey]
  constructor
  · rintro ⟨⟨m, e⟩, hmem, rfl⟩
    exact ⟨e, hmem⟩
  · rintro ⟨e, hmem⟩
    exact ⟨_, hmem, rfl⟩

/-- The names in a directory are those below which something stands. -/
theorem mem_namesAt_iff_isSome : n ∈ w.namesAt l ↔ (w.get? (l ++ [n])).isSome := by
  rw [mem_namesAt, get?_append, List.lookup_isSome_iff]
  simp

theorem isName_of_mem_namesAt (hw : w.Proper) (h : n ∈ w.namesAt l) : Path.IsName n := by
  obtain ⟨e, he⟩ := mem_namesAt.mp h
  exact hw.1 _ he n (by simp)

theorem nodup_namesAt (hw : w.Proper) (l : Location) : (w.namesAt l).Nodup := by
  refine (List.mergeSort_perm _ _).nodup_iff.mpr ?_
  refine (List.pairwise_map.mp hw.2).filterMap _ ?_
  intro p q hpq a ha b hb hab
  simp only [Option.ite_none_right_eq_some] at ha hb
  refine hpq ?_
  rw [← List.dropLast_append_getLast? a ha.2, ← List.dropLast_append_getLast? b hb.2, ha.1, hb.1,
    hab]

/-- The names in a directory stand in increasing order. -/
theorem pairwise_namesAt (hw : w.Proper) (l : Location) :
    (w.namesAt l).Pairwise fun a b => Path.textBefore a b = true := by
  have hle (a b : List Char) : (!Path.textBefore b a) = true ↔ a ≤ b := by
    rw [Bool.not_eq_true', ← Bool.not_eq_true, Path.textBefore_iff_lt, not_lt]
  have hsorted := @List.pairwise_mergeSort _ (fun a b => !Path.textBefore b a)
    (fun a b c hab hbc => (hle a c).mpr (((hle a b).mp hab).trans ((hle b c).mp hbc)))
    (fun a b => by simpa [hle] using le_total a b)
  refine ((hsorted _).and (nodup_namesAt hw l)).imp ?_
  rintro a b ⟨hab, hne⟩
  exact Path.textBefore_iff_lt.mpr (lt_of_le_of_ne ((hle a b).mp hab) hne)

end Names

/-! ### Changing a file -/

/-- **Paths stay where they are when a file gets other bytes.** -/
theorem locate_put {bytes : List UInt8} (h : w.get? l = some (.file bytes)) (new : List UInt8)
    (m : Location) (parts : List (List Char)) :
    (w.put l (.file new)).locate m parts = w.locate m parts := by
  have hl : l ≠ [] := by
    rintro rfl
    cases h
  induction parts generalizing m with
  | nil => rfl
  | cons part rest ih =>
    rw [locate, locate, get?_put w l m _ hl]
    by_cases hm : m = l
    · rw [if_pos hm, hm, h]
    · simp only [if_neg hm, ih]

theorem resolve_put {bytes : List UInt8} (h : w.get? l = some (.file bytes)) (new : List UInt8)
    (path : List Char) : (w.put l (.file new)).resolve path = w.resolve path := by
  rw [resolve, resolveFrom, resolve, resolveFrom, locate_put h]
  rfl

end Workspace

end BindingDocs
