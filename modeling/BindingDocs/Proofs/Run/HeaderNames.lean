import BindingDocs.Header
import BindingDocs.Proofs.Text.Search
import BindingDocs.Proofs.Workspace.Location
import Mathlib.Data.List.Infix

/-!
# Names of headers

The name of a header joins the stem and the extension of its input by two underscores.  A stem may
hold underscores itself, also at its end, but no extension of a supported input does.  So the last
two underscores of the name are those that join it, and the name of the input can be read back.

## Main definitions

* `Header.inputName?` — the name of an input, read back from that of its header.

## Main results

* `Path.splitName_cases`, `Path.exists_stem_of_extension?` — a name with an extension.
* `isName_outputName` — a header can be written into any directory.
* `outputName_ne_mainPageFile` — no header takes the place of the main page.
* `inputName?_outputName` — **the name of an input can be read back.**
* `outputName_eq_iff` — **the inputs that share a header name.**
-/

namespace BindingDocs

open Text

namespace Path

variable {path name ext : List Char}

/-! ### Names and their parts -/

/-- A name has no extension, or consists of a stem, a dot and an extension. -/
theorem splitName_cases (name : List Char) : splitName name = (name, none) ∨
    ∃ stem ext, name = stem ++ '.' :: ext ∧ splitName name = (stem, some ext) := by
  rw [splitName]
  split
  · exact Or.inl rfl
  · exact Or.inl rfl
  · next stem ext _ hsplit =>
    obtain ⟨c, hc, hname⟩ := splitLastBy?_eq_some hsplit
    exact Or.inr ⟨stem, ext, by rw [hname, eq_of_beq hc], rfl⟩

theorem subset_splitName : (splitName name).1 ⊆ name ∧
    ∀ ext, (splitName name).2 = some ext → ext ⊆ name := by
  rcases splitName_cases name with h | ⟨stem, ext, hname, h⟩
  · rw [h]
    exact ⟨List.Subset.refl _, by simp⟩
  · rw [h, hname]
    refine ⟨List.subset_append_left _ _, fun e he => ?_⟩
    cases he
    exact List.Subset.trans (List.subset_cons_self '.' ext) (List.subset_append_right _ _)

/-- The name of a path is its last component. -/
theorem fileName?_eq_some_iff :
    fileName? path = some name ↔ (components path).getLast? = some (.name name) := by
  rw [fileName?]
  split
  · next n hlast => simp [hlast]
  · next hnot => simpa using hnot name

/-- The name of a path that has an extension. -/
theorem exists_stem_of_extension? (h : extension? path = some ext) :
    ∃ stem, stem? path = some stem ∧ fileName? path = some (stem ++ '.' :: ext) := by
  obtain ⟨name, hname, hext⟩ := Option.bind_eq_some_iff.mp h
  rcases splitName_cases name with hnone | ⟨stem, ext', hparts, hsplit⟩
  · rw [hnone] at hext
    cases hext
  · rw [hsplit] at hext
    cases hext
    exact ⟨stem, by rw [stem?, hname, Option.map_some, hsplit], by rw [hname, hparts]⟩

theorem not_mem_of_fileName? (h : fileName? path = some name) : '/' ∉ name := by
  have hcomponent {part : List Char} (hpart : '/' ∉ part)
      (hname : component? part = some (.name name)) : '/' ∉ name := by
    rw [component?] at hname
    split at hname
    · cases hname
    · split at hname
      · cases hname
      · cases hname
        exact hpart
  have hmem : Component.name name ∈ components path :=
    List.mem_of_getLast? (fileName?_eq_some_iff.mp h)
  have hparts (part : List Char) (hpart : part ∈ splitOn '/' path) : '/' ∉ part :=
    not_mem_of_mem_splitOn hpart
  rw [components] at hmem
  split at hmem
  · cases hmem
  · next first rest hsplit =>
    rw [hsplit] at hparts
    have hlater (hmem : Component.name name ∈ rest.filterMap component?) : '/' ∉ name := by
      obtain ⟨part, hpart, hname⟩ := List.mem_filterMap.mp hmem
      exact hcomponent (hparts part (List.mem_cons_of_mem _ hpart)) hname
    simp only at hmem
    split at hmem
    · exact hlater ((List.mem_cons.mp hmem).resolve_left (by simp))
    · split at hmem
      · exact hlater ((List.mem_cons.mp hmem).resolve_left (by simp))
      · rcases List.mem_append.mp hmem with hmem | hmem
        · exact hcomponent (hparts first List.mem_cons_self) (Option.mem_toList.mp hmem)
        · exact hlater hmem

end Path

/-- The extension of a supported input holds no underscore. -/
theorem Dialect.exists_extension_of_ofPath? {path : List Char}
    (h : (Dialect.ofPath? path).isSome = true) :
    ∃ ext, Path.extension? path = some ext ∧ '_' ∉ ext := by
  have hext {w : String} (hw : (Path.extension? path).map String.ofList = some w)
      (hmem : '_' ∉ w.toList) : ∃ ext, Path.extension? path = some ext ∧ '_' ∉ ext := by
    obtain ⟨ext, hpath, rfl⟩ := Option.map_eq_some_iff.mp hw
    exact ⟨ext, hpath, by rwa [String.toList_ofList] at hmem⟩
  unfold Dialect.ofPath? at h
  split at h
  case h_8 => cases h
  -- the extensions that are supported
  all_goals next hw => exact hext hw (by decide)

/-! ### Names of headers as names of files -/

theorem toList_outputName (path : List Char) : ∃ stem ext, '/' ∉ stem ∧ '/' ∉ ext ∧
    (Header.outputName path).toList = stem ++ '_' :: '_' :: (ext ++ ['.', 'h']) := by
  refine ⟨(Path.stem? path).getD [], (Path.extension? path).getD [], ?_, ?_, ?_⟩
  · rw [Path.stem?]
    cases hname : Path.fileName? path with
    | none => exact List.not_mem_nil
    | some name =>
      exact fun hmem => Path.not_mem_of_fileName? hname (Path.subset_splitName.1 hmem)
  · rw [Path.extension?]
    cases hname : Path.fileName? path with
    | none => exact List.not_mem_nil
    | some name =>
      cases hext : (Path.splitName name).2 with
      | none => simp [hext]
      | some ext =>
        simp only [Option.bind_some, hext, Option.getD_some]
        exact fun hmem => Path.not_mem_of_fileName? hname (Path.subset_splitName.2 ext hext hmem)
  · simp [Header.outputName]

/-- A header can be written into any directory. -/
theorem isName_outputName (path : List Char) : Path.IsName (Header.outputName path).toList := by
  obtain ⟨stem, ext, hstem, hext, hname⟩ := toList_outputName path
  -- too long for a name that stands for a directory
  have hlong {n : List Char} (hn : n.length < 4) :
      stem ++ '_' :: '_' :: (ext ++ ['.', 'h']) ≠ n := by
    rintro rfl
    simp only [List.length_append, List.length_cons, List.length_nil] at hn
    omega
  rw [hname]
  exact ⟨hlong (by decide), hlong (by decide), hlong (by decide), by simp [hstem, hext]⟩

theorem isName_mainPageFile : Path.IsName Header.mainPageFile.toList := by decide

/-- No header is written in the place of the main page. -/
theorem outputName_ne_mainPageFile (path : List Char) :
    Header.outputName path ≠ Header.mainPageFile := by
  intro h
  obtain ⟨stem, ext, -, -, hname⟩ := toList_outputName path
  have hinfix : ['_', '_'] <:+: Header.mainPageFile.toList := by
    rw [← h, hname]
    exact ⟨stem, ext ++ ['.', 'h'], by simp⟩
  revert hinfix
  decide

/-! ### From headers back to inputs -/

/-- The name of an input, read back from the name of its header: the last two underscores stand for
a dot, and the ending of headers is left out. -/
def Header.inputName? (header : List Char) : Option (List Char) :=
  (splitLast? ['_', '_'] header).map fun (stem, rest) => stem ++ '.' :: rest.dropLast.dropLast

/-- **The name of an input can be read back** if no underscore stands in its extension. -/
theorem inputName?_outputName {path ext : List Char} (h : Path.extension? path = some ext)
    (hext : '_' ∉ ext) :
    Header.inputName? (Header.outputName path).toList = Path.fileName? path := by
  obtain ⟨stem, hstem, hname⟩ := Path.exists_stem_of_extension? h
  have hheader : (Header.outputName path).toList =
      stem ++ (['_', '_'] ++ (ext ++ ['.', 'h'])) := by
    simp [Header.outputName, hstem, h]
  -- an occurrence further right would need an underscore behind the two
  have hlast : ¬ ['_', '_'] <:+: ['_'] ++ (ext ++ ['.', 'h']) := by
    have hnot : '_' ∉ ext ++ ['.', 'h'] := by simp [hext]
    intro hinfix
    rcases List.infix_cons_iff.mp hinfix with hbegins | hlater
    · exact hnot ((List.cons_prefix_cons.mp hbegins).2.subset List.mem_cons_self)
    · exact hnot (hlater.subset List.mem_cons_self)
  have hending : (ext ++ ['.', 'h']).dropLast.dropLast = ext := by
    rw [List.append_cons, List.dropLast_concat, List.dropLast_concat]
  rw [Header.inputName?, hheader, splitLast?_append (List.cons_ne_nil _ _) hlast, hname,
    Option.map_some]
  simp only [hending]

/-- **The inputs that share a header name.**  Two supported inputs have headers of one name exactly
if their paths end in the same component, and none of these is the name of the main page. -/
theorem outputName_eq_iff {p q : List Char} (hp : (Dialect.ofPath? p).isSome = true)
    (hq : (Dialect.ofPath? q).isSome = true) :
    (Header.outputName p = Header.outputName q ↔
      (Path.components p).getLast? = (Path.components q).getLast?) ∧
    Header.outputName p ≠ Header.mainPageFile := by
  refine ⟨⟨?_, ?_⟩, outputName_ne_mainPageFile p⟩
  · intro h
    obtain ⟨ext, hext, hunderscore⟩ := Dialect.exists_extension_of_ofPath? hp
    obtain ⟨ext', hext', hunderscore'⟩ := Dialect.exists_extension_of_ofPath? hq
    have hname : Path.fileName? p = Path.fileName? q := by
      rw [← inputName?_outputName hext hunderscore, h, inputName?_outputName hext' hunderscore']
    obtain ⟨stem, -, hfile⟩ := Path.exists_stem_of_extension? hext
    rw [Path.fileName?_eq_some_iff.mp hfile,
      Path.fileName?_eq_some_iff.mp (hname.symm.trans hfile)]
  · intro h
    have hname : Path.fileName? p = Path.fileName? q := by
      rw [Path.fileName?, h, ← Path.fileName?]
    rw [Header.outputName, Path.stem?, Path.extension?, hname]
    rfl

/-- An input with underscores before its extension. -/
def shipPath : List Char := "zap/ship_.cpp".toList

/-- Another path that ends in the same name. -/
def dottedShipPath : List Char := "./old//ship_.cpp/.".toList

theorem outputName_eq_iff_shipPaths :
    (Dialect.ofPath? shipPath).isSome = true ∧ (Dialect.ofPath? dottedShipPath).isSome = true ∧
      Header.outputName shipPath = Header.outputName dottedShipPath ∧
      Header.outputName shipPath ≠ Header.outputName "zap/ship.cpp".toList ∧
      Header.outputName shipPath ≠ Header.mainPageFile := by
  have hship : (Dialect.ofPath? shipPath).isSome = true := by decide
  have hdotted : (Dialect.ofPath? dottedShipPath).isSome = true := by decide
  obtain ⟨hsame, hmain⟩ := outputName_eq_iff hship hdotted
  obtain ⟨hother, -⟩ := outputName_eq_iff (q := "zap/ship.cpp".toList) hship (by decide)
  exact ⟨hship, hdotted, hsame.mpr (by decide), mt hother.mp (by decide), hmain⟩

end BindingDocs
