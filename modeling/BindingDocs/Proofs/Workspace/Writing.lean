import BindingDocs.Proofs.Workspace.Location
import BindingDocs.Text.Utf8

/-!
# Writing files into a directory

Writing makes a file or changes its bytes.  Neither makes a directory, so a path leads where it led
before, and what is written under one name of a directory does not touch what stands under another.
Of several texts that are written under one name the last one stays.

## Main definitions

* `Workspace.writeAll` — texts written into files of a directory, one after the other.

## Main results

* `Workspace.exists_resolve_join` — the names of a directory lead to different locations.
* `Workspace.get?_writeAll` — **what is not written keeps its bytes.**
* `Workspace.read_writeAll` — **of several texts under one name the last one stays.**
* `Text.bytesOf_injective` — different texts have different bytes.
-/

namespace BindingDocs

namespace Text

theorem toList_loop (bytes : ByteArray) (i : Nat) (taken : List UInt8) :
    ByteArray.toList.loop bytes i taken = taken.reverse ++ bytes.data.toList.drop i := by
  fun_induction ByteArray.toList.loop bytes i taken with
  | case1 i taken hi ih =>
    have hlt : i < bytes.data.toList.length := by
      rw [Array.length_toList]
      exact hi
    have hbyte : bytes.get! i = bytes.data.toList[i] := by
      rw [Array.getElem_toList]
      exact getElem!_pos bytes.data i hi
    rw [ih, hbyte, List.reverse_cons, List.append_assoc, List.singleton_append,
      List.getElem_cons_drop]
  | case2 i taken hi =>
    have hle : bytes.data.toList.length ≤ i := by
      rw [Array.length_toList]
      exact Nat.le_of_not_lt hi
    rw [List.drop_eq_nil_of_le hle, List.append_nil]

/-- Different texts have different bytes. -/
theorem bytesOf_injective {s t : String} (h : bytesOf s = bytesOf t) : s = t := by
  rw [bytesOf, bytesOf, ByteArray.toList, ByteArray.toList, toList_loop, toList_loop] at h
  have hbytes : s.toUTF8 = t.toUTF8 := by
    rw [ByteArray.ext_iff]
    simpa using h
  exact String.toByteArray_inj.mp hbytes

end Text

namespace Workspace

variable {w w' : Workspace} {l m : Location} {path dir name : List Char} {bytes : List UInt8}

/-! ### One file -/

theorem write_eq_ok_iff : w.write path bytes = .ok w' ↔
    ∃ l, w.resolve path = .ok l ∧ w.get? l ≠ some .dir ∧ w' = w.put l (.file bytes) := by
  rw [write, writeFrom, ← resolve]
  cases hpath : w.resolve path with
  | error f => simp
  | ok l =>
    cases hl : w.get? l with
    | none => simp [hl, eq_comm]
    | some e => cases e <;> simp [hl, eq_comm]

theorem read_eq_ok_iff : w.read path = .ok bytes ↔
    ∃ l, w.resolve path = .ok l ∧ w.get? l = some (.file bytes) := by
  rw [read, find, findFrom, ← resolve]
  cases hpath : w.resolve path with
  | error f => simp
  | ok l =>
    cases hl : w.get? l with
    | none => simp [hl]
    | some e => cases e <;> simp [hl]

theorem ne_nil_of_get? (hl : w.get? l ≠ some .dir) : l ≠ [] := by
  rintro rfl
  exact hl rfl

/-- A way leads where it led before a file was made or changed. -/
theorem locate_put_eq_ok_iff (hl : w.get? l ≠ some .dir) {k : Location} {parts : List (List Char)} :
    (w.put l (.file bytes)).locate k parts = .ok m ↔ w.locate k parts = .ok m := by
  have hdir (k : Location) :
      (w.put l (.file bytes)).get? k = some .dir ↔ w.get? k = some .dir := by
    rw [get?_put _ _ _ _ (ne_nil_of_get? hl)]
    by_cases hk : k = l
    · subst hk
      simpa using hl
    · rw [if_neg hk]
  induction parts generalizing k with
  | nil => rfl
  | cons part rest ih =>
    rw [locate_cons_eq_ok_iff, locate_cons_eq_ok_iff, hdir]
    exact and_congr_right fun _ => ih

theorem resolve_put_eq_ok_iff (hl : w.get? l ≠ some .dir) :
    (w.put l (.file bytes)).resolve path = .ok m ↔ w.resolve path = .ok m := by
  rw [resolve, resolveFrom, resolve, resolveFrom]
  split
  · rfl
  · exact locate_put_eq_ok_iff hl

/-! ### Names in a directory -/

/-- A path below a directory leads to its name there, and so do all others. -/
theorem exists_resolve_join (hname : Path.IsName name)
    (h : w.resolve (Path.join dir name) = .ok m) :
    ∃ l, m = l ++ [name] ∧
      ∀ n, Path.IsName n → w.resolve (Path.join dir n) = .ok (l ++ [n]) := by
  have hhead {n : List Char} (hn : Path.IsName n) : n.head? ≠ some '/' :=
    fun h => hn.2.2.2 (List.mem_of_mem_head? h)
  by_cases hdir : dir = []
  · -- names in the current directory
    subst hdir
    have hresolve {n : List Char} (hn : Path.IsName n) :
        w.resolve (Path.join [] n) = w.locate w.current [n] := by
      rw [Path.join, if_neg (hhead hn), if_pos (.inl rfl), List.nil_append, resolve, resolveFrom,
        if_neg hn.1, start, if_neg (hhead hn), Text.splitOn_eq_singleton hn.2.2.2]
    rw [hresolve hname, locate_cons_eq_ok_iff] at h
    obtain ⟨hcurrent, h⟩ := h
    rw [enter_of_isName hname] at h
    refine ⟨w.current, (Except.ok.inj h).symm, fun n hn => ?_⟩
    rw [hresolve hn, locate_cons hcurrent, enter_of_isName hn]
    rfl
  · obtain ⟨l, hl, hlast, hm⟩ :
        ∃ l, w.resolve dir = .ok l ∧ w.get? l = some .dir ∧ m = l ++ [name] := by
      have hstart (t : List Char) : start w.current (dir ++ t) = start w.current dir := by
        rw [start, start, List.head?_append_of_ne_nil _ hdir]
      rw [Path.join, if_neg (hhead hname)] at h
      split at h
      · next hend =>
        obtain ⟨q, rfl⟩ := List.getLast?_eq_some_iff.mp (hend.resolve_left hdir)
        rw [resolve, resolveFrom, if_neg (by simp), hstart, List.append_assoc,
          List.singleton_append, Text.splitOn_append, Text.splitOn_eq_singleton hname.2.2.2,
          locate_append_eq_ok_iff] at h
        obtain ⟨l, hq, hstep⟩ := h
        rw [locate_cons_eq_ok_iff, enter_of_isName hname] at hstep
        refine ⟨l, ?_, hstep.1, (Except.ok.inj hstep.2).symm⟩
        rw [resolve, resolveFrom, if_neg (by simp), Text.splitOn_append, locate_append_eq_ok_iff]
        exact ⟨l, hq, locate_cons hstep.1 _ _⟩
      · rw [resolve, resolveFrom, if_neg (by simp), hstart, Text.splitOn_append,
          Text.splitOn_eq_singleton hname.2.2.2, locate_append_eq_ok_iff] at h
        obtain ⟨l, hq, hstep⟩ := h
        rw [locate_cons_eq_ok_iff, enter_of_isName hname] at hstep
        refine ⟨l, ?_, hstep.1, (Except.ok.inj hstep.2).symm⟩
        rw [resolve, resolveFrom, if_neg hdir]
        exact hq
    refine ⟨l, hm, fun n hn => ?_⟩
    rw [resolve_join hdir hl hlast hn.2.2.2, enter_of_isName hn]

/-- Different names of a directory lead to different locations. -/
theorem eq_of_resolve_join {n : List Char} (hname : Path.IsName name) (hn : Path.IsName n)
    (h : w.resolve (Path.join dir name) = .ok m) (h' : w.resolve (Path.join dir n) = .ok m) :
    name = n := by
  obtain ⟨l, rfl, hall⟩ := exists_resolve_join hname h
  rw [hall n hn] at h'
  simpa using (Except.ok.inj h').symm

/-! ### One file after the other -/

/-- Puts texts under their names into a directory, one after the other. -/
def writeAll (dir : List Char) : List (String × String) → Workspace → Except Fault Workspace
  | [], w => .ok w
  | (name, text) :: rest, w =>
    match w.write (Path.join dir name.toList) (Text.bytesOf text) with
    | .ok w => writeAll dir rest w
    | .error f => .error f

section WriteAll

variable {files rest : List (String × String)} {after : Workspace} {file text : String}

theorem writeAll_cons_eq_ok_iff : writeAll dir ((file, text) :: files) w = .ok after ↔
    ∃ l, w.resolve (Path.join dir file.toList) = .ok l ∧ w.get? l ≠ some .dir ∧
      writeAll dir files (w.put l (.file (Text.bytesOf text))) = .ok after := by
  rw [writeAll]
  constructor
  · intro h
    split at h
    · next w' hwrite =>
      obtain ⟨l, hl, hdir, rfl⟩ := write_eq_ok_iff.mp hwrite
      exact ⟨l, hl, hdir, h⟩
    · cases h
  · rintro ⟨l, hl, hdir, h⟩
    rw [write_eq_ok_iff.mpr ⟨l, hl, hdir, rfl⟩]
    exact h

theorem writeAll_append_eq_ok_iff : writeAll dir (files ++ rest) w = .ok after ↔
    ∃ between, writeAll dir files w = .ok between ∧ writeAll dir rest between = .ok after := by
  induction files generalizing w with
  | nil => simp [writeAll]
  | cons f files ih =>
    obtain ⟨file, text⟩ := f
    rw [List.cons_append, writeAll_cons_eq_ok_iff]
    simp only [ih, writeAll_cons_eq_ok_iff]
    constructor
    · rintro ⟨l, hl, hdir, between, hbetween, hafter⟩
      exact ⟨between, ⟨l, hl, hdir, hbetween⟩, hafter⟩
    · rintro ⟨between, ⟨l, hl, hdir, hbetween⟩, hafter⟩
      exact ⟨l, hl, hdir, between, hbetween, hafter⟩

/-- A path leads where it led before files were written. -/
theorem resolve_writeAll (h : writeAll dir files w = .ok after) :
    after.resolve path = .ok m ↔ w.resolve path = .ok m := by
  induction files generalizing w with
  | nil =>
    cases h
    rfl
  | cons f files ih =>
    obtain ⟨l, -, hdir, h⟩ := writeAll_cons_eq_ok_iff.mp h
    rw [ih h, resolve_put_eq_ok_iff hdir]

/-- **What is not written keeps its bytes.** -/
theorem get?_writeAll (h : writeAll dir files w = .ok after)
    (hm : ∀ f ∈ files, w.resolve (Path.join dir f.1.toList) ≠ .ok m) :
    after.get? m = w.get? m := by
  induction files generalizing w with
  | nil =>
    cases h
    rfl
  | cons f files ih =>
    obtain ⟨l, hl, hdir, h⟩ := writeAll_cons_eq_ok_iff.mp h
    rw [List.forall_mem_cons] at hm
    have hne : m ≠ l := by
      rintro rfl
      exact hm.1 hl
    rw [ih h fun f hf => (resolve_put_eq_ok_iff hdir).not.mpr (hm.2 f hf),
      get?_put _ _ _ _ (ne_nil_of_get? hdir), if_neg hne]

theorem get?_writeAll_of_name (h : writeAll dir files w = .ok after)
    (hnames : ∀ f ∈ files, Path.IsName f.1.toList) (hfile : Path.IsName file.toList)
    (hnew : file ∉ files.map Prod.fst) (hm : w.resolve (Path.join dir file.toList) = .ok m) :
    after.get? m = w.get? m := by
  refine get?_writeAll h fun f hf hfm => hnew ?_
  have heq := eq_of_resolve_join (hnames f hf) hfile hfm hm
  rw [← String.toList_inj.mp heq]
  exact List.mem_map_of_mem hf

/-- **Of several texts under one name the last one stays.** -/
theorem read_writeAll (h : writeAll dir (files ++ (file, text) :: rest) w = .ok after)
    (hnames : ∀ f ∈ rest, Path.IsName f.1.toList) (hfile : Path.IsName file.toList)
    (hlast : file ∉ rest.map Prod.fst) :
    after.read (Path.join dir file.toList) = .ok (Text.bytesOf text) := by
  obtain ⟨between, -, h⟩ := writeAll_append_eq_ok_iff.mp h
  obtain ⟨l, hl, hdir, h⟩ := writeAll_cons_eq_ok_iff.mp h
  have hput : (between.put l (.file (Text.bytesOf text))).resolve (Path.join dir file.toList) =
      .ok l := (resolve_put_eq_ok_iff hdir).mpr hl
  rw [read_eq_ok_iff]
  refine ⟨l, (resolve_writeAll h).mpr hput, ?_⟩
  rw [get?_writeAll_of_name h hnames hfile hlast hput, get?_put _ _ _ _ (ne_nil_of_get? hdir),
    if_pos rfl]

/-- A file that can be read stays one. -/
theorem exists_read_writeAll (h : writeAll dir files w = .ok after)
    (hread : ∃ bytes, w.read path = .ok bytes) : ∃ bytes, after.read path = .ok bytes := by
  induction files generalizing w with
  | nil =>
    cases h
    exact hread
  | cons f files ih =>
    obtain ⟨l, -, hdir, h⟩ := writeAll_cons_eq_ok_iff.mp h
    refine ih h ?_
    obtain ⟨bytes, hread⟩ := hread
    obtain ⟨m, hm, hbytes⟩ := read_eq_ok_iff.mp hread
    simp only [read_eq_ok_iff, resolve_put_eq_ok_iff hdir,
      get?_put _ _ _ _ (ne_nil_of_get? hdir)]
    by_cases hml : m = l
    · exact ⟨_, m, hm, if_pos hml⟩
    · exact ⟨bytes, m, hm, (if_neg hml).trans hbytes⟩

end WriteAll

end Workspace

end BindingDocs
