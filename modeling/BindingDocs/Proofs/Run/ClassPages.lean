import BindingDocs.Proofs.Glob.Escape
import BindingDocs.Run.ClassPages

/-!
# Revising the pages of a directory

The class pages of a directory are found by a pattern, put in order and revised one after the other,
each in its place.  A page that cannot be processed stops the work before anything of it is written:
the pages before it hold their new text, and everything else is as it was.

The pattern finds the pages of every directory that a path can lead to, except where the path begins
with an empty part after the dot for the current directory.  Then no page is found, and the work
ends as if there were none.

## Main definitions

* `IsClassPage` — the files that are meant.
* `newText?` — the new text of a page, or why it has none.
* `RevisedUpTo` — what the workspace holds when some pages have been revised.
* `RevisesPages` — all class pages of a directory are revised as far as possible.

## Main results

* `classPages_eq` — the pages found in a directory.
* `exists_revisedUpTo` — what revising pages in order leads to.
* `revisesPages_iff` — **the directories whose pages are revised.**
-/

namespace BindingDocs

open Glob

/-! ### Finding the pages -/

/-- A file directly in a directory with the name of a class page. -/
def IsClassPage (w : Workspace) (l : Location) (name : List Char) : Prop :=
  (∃ mid, name = "class_".toList ++ mid ++ ".html".toList) ∧
    ∃ bytes, w.get? (l ++ [name]) = some (.file bytes)

/-- The parts of the pattern of class pages. -/
def classPagePieces : List Piece :=
  "class_".toList.map exactly ++ .run :: ".html".toList.map exactly

theorem piecesFrom_classPagePattern (pos : Nat) (before : Option Char) :
    piecesFrom pos before 0 classPagePattern = .ok classPagePieces := rfl

/-- Whether a file stands at a location. -/
def holdsFile (w : Workspace) (l : Location) : Bool :=
  match w.get? l with
  | some (.file _) => true
  | _ => false

theorem holdsFile_iff {w : Workspace} {l : Location} :
    holdsFile w l = true ↔ ∃ bytes, w.get? l = some (.file bytes) := by
  unfold holdsFile
  split
  · next bytes h => simp [h]
  · next h => simpa using h

/-- The names of the class pages in a directory, in order. -/
def pageNames (w : Workspace) (l : Location) : List (List Char) :=
  (w.namesAt l).filter fun n => matchesName classPagePieces n && holdsFile w (l ++ [n])

section Find

variable {w : Workspace} {l : Location} {path dir : List Char}

theorem mem_pageNames {n : List Char} : n ∈ pageNames w l ↔ IsClassPage w l n := by
  have hmatches : matchesName classPagePieces n = true ↔
      ∃ mid, n = "class_".toList ++ mid ++ ".html".toList := matchesName_run
  rw [pageNames, List.mem_filter, Bool.and_eq_true, hmatches, holdsFile_iff,
    Workspace.mem_namesAt_iff_isSome, IsClassPage]
  constructor
  · rintro ⟨-, h⟩
    exact h
  · rintro ⟨hname, bytes, hbytes⟩
    exact ⟨by rw [hbytes]; rfl, hname, bytes, hbytes⟩

theorem pairwise_pageNames (hw : w.Proper) (l : Location) :
    (pageNames w l).Pairwise fun a b => Path.textBefore a b = true :=
  (Workspace.pairwise_namesAt hw l).filter _

/-- The path `p` stands neither before the path `q` nor in its place. -/
def ComesAfter (q p : List Char) : Prop :=
  Path.components p ≠ Path.components q ∧ Path.precedes p q = false

/-- A path that comes after all others is added at the end. -/
theorem insertSorted_eq_concat {p : List Char} {qs : List (List Char)}
    (h : ∀ q ∈ qs, ComesAfter q p) : Path.insertSorted p qs = qs ++ [p] := by
  induction qs with
  | nil => rfl
  | cons q qs ih =>
    obtain ⟨hne, hbefore⟩ := h q List.mem_cons_self
    rw [Path.insertSorted, if_neg hne, hbefore, if_neg Bool.false_ne_true,
      ih fun r hr => h r (List.mem_cons_of_mem q hr), List.cons_append]

/-- Paths that stand in order already are kept in it. -/
theorem foldl_insertSorted {acc ps : List (List Char)} (h : (acc ++ ps).Pairwise ComesAfter) :
    ps.foldl (fun ps p => Path.insertSorted p ps) acc = acc ++ ps := by
  induction ps generalizing acc with
  | nil => simp
  | cons p ps ih =>
    have hlast : ∀ q ∈ acc, ComesAfter q p :=
      fun q hq => (List.pairwise_append.mp h).2.2 q hq p List.mem_cons_self
    rw [List.foldl_cons, insertSorted_eq_concat hlast, ih (by simpa using h)]
    simp

/-- The paths of names in a directory stand in the order of the names. -/
theorem comesAfter_child (h : Reached w path l) {a b : List Char} (ha : Path.IsName a)
    (hb : Path.IsName b) (hab : Path.textBefore a b = true) :
    ComesAfter (child path a) (child path b) := by
  have hlt := Path.textBefore_iff_lt.mp hab
  rw [ComesAfter, Path.precedes, h.components_child ha, h.components_child hb,
    Path.componentsBefore_append]
  constructor
  · intro heq
    have hname : b = a := by simpa using heq
    exact absurd hname hlt.ne'
  · rw [← Bool.not_eq_true, Path.textBefore_iff_lt]
    exact hlt.asymm

theorem isFile_child (h : Reached w path l) {n : List Char} (hn : Path.IsName n) {e : Entry}
    (he : w.get? (l ++ [n]) = some e) : w.isFile (child path n) = holdsFile w (l ++ [n]) := by
  have hpath : w.resolve (child path n) = .ok (l ++ [n]) := by
    rw [h.resolve_child hn.2.2.2 fun _ => hn.1, Workspace.enter_of_isName hn]
  rw [Workspace.isFile, Workspace.find_eq_ok hpath he, holdsFile, he]
  cases e <;> rfl

/-- **The class pages that are found in a directory** are all of them, in order, unless the path of
the directory has an empty part at its beginning. -/
theorem classPages_eq (hw : w.Proper) (hdir : w.resolve dir = .ok l) (hl : w.get? l = some .dir) :
    (breaksOff dir = true → classPages dir w = []) ∧
      (breaksOff dir = false → ∃ path, Reached w path l ∧
        classPages dir w = (pageNames w l).map (child path)) := by
  obtain ⟨q, hparse, hnone, hall⟩ := find_escape hw piecesFrom_classPagePattern (by decide)
    (by decide) (by decide) (by decide) hdir hl
  rw [classPages, hparse]
  constructor
  · intro hbreak
    simp only [hnone hbreak, List.filter_nil, List.foldl_nil]
  · intro hbreak
    obtain ⟨path, hpath, hfind⟩ := hall hbreak
    refine ⟨path, hpath, ?_⟩
    have hfiles : (q.find w).filter w.isFile = (pageNames w l).map (child path) := by
      rw [hfind, List.filter_map, List.filter_filter, pageNames]
      congr 1
      refine List.filter_congr fun n hn => ?_
      obtain ⟨e, he⟩ := Option.isSome_iff_exists.mp (Workspace.mem_namesAt_iff_isSome.mp hn)
      rw [Function.comp_apply, isFile_child hpath (Workspace.isName_of_mem_namesAt hw hn) he,
        Bool.and_comm]
    simp only [hfiles]
    rw [foldl_insertSorted, List.nil_append]
    rw [List.nil_append, List.pairwise_map]
    refine (pairwise_pageNames hw l).imp_of_mem ?_
    intro a b ha hb hab
    have hname {n : List Char} (hn : n ∈ pageNames w l) : Path.IsName n :=
      Workspace.isName_of_mem_namesAt hw (List.mem_of_mem_filter hn)
    exact comesAfter_child hpath (hname ha) (hname hb) hab

end Find

/-! ### Revising the pages -/

/-- The new text of the page `name`, or why it has none.  Nothing if there is no text to be
revised. -/
def newText? (w : Workspace) (l : Location) (path name : List Char) :
    Option (Except PageError String) :=
  match w.get? (l ++ [name]) with
  | some (.file bytes) =>
    (Text.decode? bytes).map fun text => (processPage (String.ofList path) text).1
  | _ => none

/-- What the workspace holds when the pages `done` of a directory have been revised: their new
texts, and everything else as it was. -/
structure RevisedUpTo (w after : Workspace) (l : Location) (page : List Char → List Char)
    (done : List (List Char)) : Prop where
  revised : ∀ n ∈ done, ∃ html, newText? w l (page n) n = some (.ok html) ∧
    after.get? (l ++ [n]) = some (.file (Text.bytesOf html))
  kept : ∀ m, (∀ n ∈ done, m ≠ l ++ [n]) → after.get? m = w.get? m

section Revise

variable {w : Workspace} {l : Location} {path : List Char}

theorem newText?_eq_some {name : List Char} {r : Except PageError String}
    (h : newText? w l path name = some r) : ∃ bytes text,
      w.get? (l ++ [name]) = some (.file bytes) ∧ Text.decode? bytes = some text ∧
        (processPage (String.ofList path) text).1 = r := by
  unfold newText? at h
  split at h
  · next bytes hbytes =>
    obtain ⟨text, htext, hr⟩ := Option.map_eq_some_iff.mp h
    exact ⟨bytes, text, hbytes, htext, hr⟩
  · simp at h

theorem readText_eq_ok {k : Location} {bytes : List UInt8} {text : List Char}
    (hpath : w.resolve path = .ok k) (hk : w.get? k = some (.file bytes))
    (htext : Text.decode? bytes = some text) : readText path w = .ok text := by
  rw [readText, Workspace.read, Workspace.find_eq_ok hpath hk]
  simp only [htext]

/-- A page that cannot be processed is left alone, and the work fails with its error. -/
theorem reviseFile_error {name : List Char} {e : PageError}
    (hpath : w.resolve path = .ok (l ++ [name])) (h : newText? w l path name = some (.error e)) :
    (reviseFile path w).result = .error (.page path e) ∧ (reviseFile path w).workspace = w := by
  obtain ⟨bytes, text, hbytes, htext, hresult⟩ := newText?_eq_some h
  have hread := readText_eq_ok hpath hbytes htext
  simp [reviseFile, Job.bind_apply, Job.andThen, Job.tell, Job.require, hread, Except.mapError,
    hresult, Job.fail]

/-- Any other page gets its new text, and nothing else changes. -/
theorem reviseFile_ok {name : List Char} {html : String}
    (hpath : w.resolve path = .ok (l ++ [name])) (h : newText? w l path name = some (.ok html)) :
    (reviseFile path w).result = .ok () ∧
      (reviseFile path w).workspace = w.put (l ++ [name]) (.file (Text.bytesOf html)) := by
  obtain ⟨bytes, text, hbytes, htext, hresult⟩ := newText?_eq_some h
  have hread := readText_eq_ok hpath hbytes htext
  have hwrite : w.write path (Text.bytesOf html) =
      .ok (w.put (l ++ [name]) (.file (Text.bytesOf html))) := by
    rw [Workspace.resolve] at hpath
    rw [Workspace.write, Workspace.writeFrom, hpath]
    simp only [hbytes]
  simp [reviseFile, Job.bind_apply, Job.andThen, Job.tell, Job.require, hread, Except.mapError,
    hresult, Job.attempt, hwrite]

theorem newText?_put {name other : List Char} (hne : other ≠ name) (e : Entry) :
    newText? (w.put (l ++ [name]) e) l path other = newText? w l path other := by
  have hother : l ++ [other] ≠ l ++ [name] := by simpa using hne
  rw [newText?, newText?, Workspace.get?_put _ _ _ _ (by simp), if_neg hother]

/-- A page that has been revised comes before those that are revised after it. -/
theorem RevisedUpTo.cons {after : Workspace} {page : List Char → List Char} {n : List Char}
    {done : List (List Char)} {html : String} (hn : n ∉ done)
    (hr : newText? w l (page n) n = some (.ok html))
    (h : RevisedUpTo (w.put (l ++ [n]) (.file (Text.bytesOf html))) after l page done) :
    RevisedUpTo w after l page (n :: done) := by
  have hother {m : List Char} (hm : m ∈ done) : m ≠ n := by
    rintro rfl
    exact hn hm
  constructor
  · intro m hm
    rcases List.mem_cons.mp hm with rfl | hm
    · refine ⟨html, hr, ?_⟩
      have hlast : ∀ k ∈ done, l ++ [m] ≠ l ++ [k] := by
        intro k hk
        simpa using (hother hk).symm
      rw [h.kept _ hlast, Workspace.get?_put _ _ _ _ (by simp), if_pos rfl]
    · obtain ⟨html', hhtml', hget⟩ := h.revised m hm
      rw [newText?_put (hother hm)] at hhtml'
      exact ⟨html', hhtml', hget⟩
  · intro m hm
    rw [h.kept m fun k hk => hm k (List.mem_cons_of_mem n hk),
      Workspace.get?_put _ _ _ _ (by simp), if_neg (hm n List.mem_cons_self)]

/-- How the work ends when the pages `rest` are left: with its result if there are none, else with
the error of the first. -/
def Stops {α : Type} (w : Workspace) (l : Location) (page : List Char → List Char)
    (rest : List (List Char)) (all : α) (result : Except Failure α) : Prop :=
  match rest with
  | [] => result = .ok all
  | n :: _ => ∃ e, newText? w l (page n) n = some (.error e) ∧ result = .error (.page (page n) e)

theorem Stops.of_put {α : Type} {page : List Char → List Char} {n : List Char}
    {rest : List (List Char)} {e : Entry} {all : α} {result : Except Failure α} (hn : n ∉ rest)
    (h : Stops (w.put (l ++ [n]) e) l page rest all result) : Stops w l page rest all result := by
  cases rest with
  | nil => exact h
  | cons k rest =>
    obtain ⟨error, herror, hresult⟩ := h
    rw [newText?_put (List.ne_of_not_mem_cons hn).symm] at herror
    exact ⟨error, herror, hresult⟩

theorem Stops.map {α β : Type} {page : List Char → List Char} {rest : List (List Char)} {all : α}
    {result : Except Failure α} (h : Stops w l page rest all result) (f : α → β) :
    Stops w l page rest (f all) (result.map f) := by
  cases rest with
  | nil =>
    rw [Stops] at h
    rw [Stops, h]
    rfl
  | cons n rest =>
    obtain ⟨e, he, rfl⟩ := h
    exact ⟨e, he, rfl⟩

/-- **Pages are revised in order up to the first that cannot be processed.** -/
theorem exists_revisedUpTo {page : List Char → List Char} {names : List (List Char)}
    (hnodup : names.Nodup) (hpath : ∀ n ∈ names, w.resolve (page n) = .ok (l ++ [n]))
    (htext : ∀ n ∈ names, newText? w l (page n) n ≠ none) :
    ∃ done rest, names = done ++ rest ∧
      RevisedUpTo w (reviseFiles (names.map page) w).workspace l page done ∧
      Stops w l page rest () (reviseFiles (names.map page) w).result := by
  induction names generalizing w with
  | nil => exact ⟨[], [], rfl, ⟨by simp, fun _ _ => rfl⟩, rfl⟩
  | cons n names ih =>
    obtain ⟨r, hr⟩ := Option.ne_none_iff_exists'.mp (htext n List.mem_cons_self)
    have hn := hpath n List.mem_cons_self
    rw [List.map_cons, reviseFiles, Job.bind_apply, Job.andThen]
    cases r with
    | error e =>
      obtain ⟨hresult, hworkspace⟩ := reviseFile_error hn hr
      simp only [hresult, hworkspace]
      exact ⟨[], n :: names, rfl, ⟨by simp, fun _ _ => rfl⟩, e, hr, rfl⟩
    | ok html =>
      obtain ⟨hresult, hworkspace⟩ := reviseFile_ok hn hr
      obtain ⟨hnew, hnodup⟩ := List.nodup_cons.mp hnodup
      obtain ⟨bytes, -, hbytes, -⟩ := newText?_eq_some hr
      simp only [hresult, hworkspace]
      -- the other pages are where they were and have the texts they had
      obtain ⟨done, rest, rfl, hdone, hrest⟩ :=
        ih (w := w.put (l ++ [n]) (.file (Text.bytesOf html))) hnodup
          (fun m hm => by rw [Workspace.resolve_put hbytes, hpath m (List.mem_cons_of_mem n hm)])
          (fun m hm => by
            have hne : m ≠ n := by
              rintro rfl
              exact hnew hm
            rw [newText?_put hne]
            exact htext m (List.mem_cons_of_mem n hm))
      rw [List.mem_append, not_or] at hnew
      exact ⟨n :: done, rest, rfl, hdone.cons hnew.1 hr, hrest.of_put hnew.2⟩

end Revise

/-! ### Whole directories -/

/-- All class pages of the directory at `l` are revised as far as possible: in order, up to the
first that cannot be processed, with whose error the work ends, or all of them, and then their
number is the result. -/
def RevisesPages (w : Workspace) (l : Location) (o : Outcome Nat) : Prop :=
  ∃ names : List (List Char), names.Pairwise (fun a b => Path.textBefore a b = true) ∧
    (∀ n, n ∈ names ↔ IsClassPage w l n) ∧
    ∃ page : List Char → List Char, (∀ n ∈ names, w.resolve (page n) = .ok (l ++ [n])) ∧
      ∃ done rest, names = done ++ rest ∧ RevisedUpTo w o.workspace l page done ∧
        Stops w l page rest names.length o.result

section Directory

variable {w : Workspace} {l : Location} {dir : List Char}

/-- What is told on the way apart, a directory is revised by revising the pages found in it. -/
theorem reviseDir_apply (hdir : w.isDir dir = true) :
    (reviseDir dir w).workspace = (reviseFiles (classPages dir w) w).workspace ∧
      (reviseDir dir w).result =
        (reviseFiles (classPages dir w) w).result.map fun _ => (classPages dir w).length := by
  cases hpages : classPages dir w with
  | nil =>
    simp [reviseDir, Job.bind_apply, Job.andThen, Job.look, Job.tell, hdir, hpages, reviseFiles,
      Except.map]
  | cons p ps =>
    cases hresult : (reviseFiles (p :: ps) w).result <;>
      simp [reviseDir, Job.bind_apply, Job.andThen, Job.look, Job.tell, hdir, hpages, hresult,
        Except.map]

theorem newText?_ne_none {n : List Char} (hn : IsClassPage w l n)
    (hread : ∀ bytes, w.get? (l ++ [n]) = some (.file bytes) → (Text.decode? bytes).isSome)
    (path : List Char) : newText? w l path n ≠ none := by
  obtain ⟨bytes, hbytes⟩ := hn.2
  obtain ⟨text, htext⟩ := Option.isSome_iff_exists.mp (hread bytes hbytes)
  simp [newText?, hbytes, htext]

/-- Where the pages of a directory are found, they are revised as far as possible. -/
theorem revisesPages_of_classPages (hw : w.Proper) (hdir : w.isDir dir = true)
    (hread : ∀ n, IsClassPage w l n → ∀ bytes, w.get? (l ++ [n]) = some (.file bytes) →
      (Text.decode? bytes).isSome)
    {page : List Char → List Char} (hpages : classPages dir w = (pageNames w l).map page)
    (hpath : ∀ n ∈ pageNames w l, w.resolve (page n) = .ok (l ++ [n])) :
    RevisesPages w l (reviseDir dir w) := by
  obtain ⟨hworkspace, hresult⟩ := reviseDir_apply hdir
  have htext : ∀ n ∈ pageNames w l, newText? w l (page n) n ≠ none := by
    intro n hn
    exact newText?_ne_none (mem_pageNames.mp hn) (hread n (mem_pageNames.mp hn)) _
  obtain ⟨done, rest, hsplit, hdone, hrest⟩ :=
    exists_revisedUpTo ((Workspace.nodup_namesAt hw l).filter _) hpath htext
  refine ⟨pageNames w l, pairwise_pageNames hw l, fun n => mem_pageNames, page, hpath, done, rest,
    hsplit, ?_, ?_⟩
  · rw [hworkspace, hpages]
    exact hdone
  · rw [hresult, hpages, List.length_map]
    exact hrest.map _

/-- **The directories whose pages are revised.**  Let a path lead to a directory in which every
class page can be read.  Its pages are revised as far as possible exactly when the path has no empty
part at its beginning, or there are no pages. -/
theorem revisesPages_iff (hw : w.Proper) (hdir : w.resolve dir = .ok l)
    (hl : w.get? l = some .dir)
    (hread : ∀ n, IsClassPage w l n → ∀ bytes, w.get? (l ++ [n]) = some (.file bytes) →
      (Text.decode? bytes).isSome) :
    RevisesPages w l (reviseDir dir w) ↔
      breaksOff dir = false ∨ ∀ n, ¬ IsClassPage w l n := by
  obtain ⟨hnone, hall⟩ := classPages_eq hw hdir hl
  have hisDir : w.isDir dir = true := by rw [Workspace.isDir, Workspace.find_eq_ok hdir hl]
  constructor
  · rintro ⟨names, -, hnames, page, -, done, rest, -, -, hstop⟩
    rw [or_iff_not_imp_left, Bool.not_eq_false]
    intro hbreak n hn
    -- no page is found, so the result is that of a directory without pages
    have hzero : (reviseDir dir w).result = .ok 0 := by
      rw [(reviseDir_apply hisDir).2, hnone hbreak]
      rfl
    rw [hzero] at hstop
    cases rest with
    | nil =>
      have hlength : names.length = 0 := (Except.ok.inj hstop).symm
      have hmem := (hnames n).mpr hn
      rw [List.length_eq_zero_iff.mp hlength] at hmem
      cases hmem
    | cons k rest =>
      obtain ⟨e, -, herror⟩ := hstop
      cases herror
  · intro h
    cases hbreak : breaksOff dir with
    | false =>
      obtain ⟨path, hpath, hpages⟩ := hall hbreak
      refine revisesPages_of_classPages hw hisDir hread hpages ?_
      intro n hn
      have hname := Workspace.isName_of_mem_namesAt hw (List.mem_of_mem_filter hn)
      rw [hpath.resolve_child hname.2.2.2 fun _ => hname.1, Workspace.enter_of_isName hname]
    | true =>
      have hempty : pageNames w l = [] := by
        rw [List.eq_nil_iff_forall_not_mem]
        intro n hn
        exact h.resolve_left (by simp [hbreak]) n (mem_pageNames.mp hn)
      have hpages : classPages dir w = (pageNames w l).map id := by
        rw [hnone hbreak, hempty]
        rfl
      exact revisesPages_of_classPages hw hisDir hread hpages (by simp [hempty])

end Directory

/-- Two pages in the current directory, the second of which does not end its paragraph. -/
def unevenPages : Workspace :=
  { entries := [(["class_a.html".toList], .file (Text.bytesOf "<p>a</p>")),
      (["class_b.html".toList], .file (Text.bytesOf "<p>b"))] }

theorem not_revisesPages_unevenPages :
    unevenPages.isDir "./".toList = true ∧ IsClassPage unevenPages [] "class_a.html".toList ∧
      ¬ RevisesPages unevenPages [] (reviseDir "./".toList unevenPages) ∧
      RevisesPages unevenPages [] (reviseDir ".".toList unevenPages) := by
  have hproper : unevenPages.Proper := by decide +kernel
  have hpage : IsClassPage unevenPages [] "class_a.html".toList :=
    ⟨⟨"a".toList, rfl⟩, _, rfl⟩
  have hread : ∀ n, IsClassPage unevenPages [] n → ∀ bytes,
      unevenPages.get? ([] ++ [n]) = some (.file bytes) → (Text.decode? bytes).isSome := by
    intro n _ bytes hbytes
    rw [Workspace.get?_append, List.lookup_eq_some_iff] at hbytes
    obtain ⟨before, after, hentries, -⟩ := hbytes
    have hmem : ([] ++ [n], Entry.file bytes) ∈ unevenPages.entries := by simp [hentries]
    rcases List.mem_cons.mp hmem with h | h
    · cases h
      decide +kernel
    · cases List.mem_singleton.mp h
      decide +kernel
  refine ⟨by decide +kernel, hpage, ?_, ?_⟩
  · rw [revisesPages_iff hproper rfl rfl hread]
    rintro (hbreak | hnone)
    · exact absurd hbreak (by decide)
    · exact hnone _ hpage
  · exact (revisesPages_iff hproper rfl rfl hread).mpr (Or.inl (by decide))

end BindingDocs
