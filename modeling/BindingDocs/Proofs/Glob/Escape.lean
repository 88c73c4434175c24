import BindingDocs.Glob.Find
import BindingDocs.Proofs.Workspace.Location
import Mathlib.Data.List.Nodup

/-!
# Patterns for one directory

An escaped path is a pattern in which every part stands for one name only.  Such a pattern is
followed along the names of the path: each part leads from the directory reached so far to one
entry, whether the name is looked for directly or compared with the names in the directory.

A part between two separators is empty and leads nowhere.  That is right except at the very
beginning: nothing is written for the current directory, so an empty part there makes an empty path,
which is no path at all.

## Main definitions

* `exactly` — the part of a pattern that an escaped character is.
* `Reached` — a directory with the path along which a pattern has reached it.
* `breaksOff` — the paths with an empty part at the beginning.

## Main results

* `parse_escape` — the pattern of an escaped path with a pattern for names below it.
* `expand_parts`, `expand_breaksOff` — following a pattern along the names of a path.
* `find_escape` — **what such a pattern stands for.**
-/

namespace BindingDocs.Glob

open Text

/-! ### Escaped characters -/

/-- The part of a pattern that an escaped character is. -/
def exactly (c : Char) : Piece := if c ∈ ['?', '*', '[', ']'] then .oneOf [(c, c)] else .char c

theorem exactly_eq (c : Char) : exactly c = .oneOf [(c, c)] ∨ exactly c = .char c := by
  unfold exactly
  split
  · exact Or.inl rfl
  · exact Or.inr rfl

/-- An escaped character stands for itself only. -/
theorem matchesName_exactly_cons (c : Char) (ps : List Piece) (n : List Char) :
    matchesName (exactly c :: ps) n = true ↔ ∃ r, n = c :: r ∧ matchesName ps r = true := by
  have hself (d : Char) : c ≤ d ∧ d ≤ c ↔ d = c :=
    ⟨fun h => le_antisymm h.2 h.1, fun h => ⟨h.ge, h.le⟩⟩
  rcases exactly_eq c with h | h <;> cases n with
  | nil => simp [h, matchesName]
  | cons d n => simp [h, matchesName, Piece.accepts, hself]

theorem matchesName_exactly_append (s : List Char) (ps : List Piece) (n : List Char) :
    matchesName (s.map exactly ++ ps) n = true ↔ ∃ r, n = s ++ r ∧ matchesName ps r = true := by
  induction s generalizing n with
  | nil => simp
  | cons c s ih =>
    rw [List.map_cons, List.cons_append, matchesName_exactly_cons]
    simp only [ih]
    constructor
    · rintro ⟨_, rfl, r, rfl, hr⟩
      exact ⟨r, rfl, hr⟩
    · rintro ⟨r, rfl, hr⟩
      exact ⟨s ++ r, rfl, r, rfl, hr⟩

/-- **An escaped text stands for itself only.** -/
theorem matchesName_exactly {s n : List Char} : matchesName (s.map exactly) n = true ↔ n = s := by
  have h := matchesName_exactly_append s [] n
  rw [List.append_nil] at h
  rw [h]
  simp [matchesName]

theorem anyEnd_iff {p : List Char → Bool} {s : List Char} :
    anyEnd p s = true ↔ ∃ mid r, s = mid ++ r ∧ p r = true := by
  induction s with
  | nil => simp [anyEnd]
  | cons c s ih =>
    rw [anyEnd, Bool.or_eq_true, ih]
    constructor
    · rintro (h | ⟨mid, r, rfl, h⟩)
      · exact ⟨[], _, rfl, h⟩
      · exact ⟨c :: mid, r, rfl, h⟩
    · rintro ⟨mid, r, hs, h⟩
      cases mid with
      | nil =>
        subst hs
        exact Or.inl h
      | cons d mid =>
        obtain ⟨rfl, rfl⟩ := List.cons.inj hs
        exact Or.inr ⟨mid, r, rfl, h⟩

/-- A star between two texts stands for what is between them. -/
theorem matchesName_run {a b n : List Char} :
    matchesName (a.map exactly ++ .run :: b.map exactly) n = true ↔ ∃ mid, n = a ++ mid ++ b := by
  rw [matchesName_exactly_append]
  simp only [matchesName, anyEnd_iff, matchesName_exactly]
  constructor
  · rintro ⟨_, rfl, mid, _, rfl, rfl⟩
    exact ⟨mid, (List.append_assoc a mid _).symm⟩
  · rintro ⟨mid, rfl⟩
    exact ⟨mid ++ b, List.append_assoc a mid b, mid, b, rfl, rfl⟩

theorem literal?_char_cons (c : Char) (ps : List Piece) :
    literal? (.char c :: ps) = (literal? ps).map (c :: ·) := by
  rw [literal?, List.mapM_cons, ← literal?]
  cases literal? ps <;> rfl

/-- If an escaped text has a text, it is this one. -/
theorem eq_of_literal? {s n : List Char} (h : literal? (s.map exactly) = some n) : n = s := by
  induction s generalizing n with
  | nil => simpa [literal?] using h.symm
  | cons c s ih =>
    rw [List.map_cons] at h
    rcases exactly_eq c with hc | hc
    · simp [literal?, hc] at h
    · rw [hc, literal?_char_cons, Option.map_eq_some_iff] at h
      obtain ⟨r, hr, rfl⟩ := h
      rw [ih hr]

theorem exactly_ne_directories (s : List Char) : s.map exactly ≠ [.directories] := by
  intro h
  cases s with
  | nil => simp at h
  | cons c s =>
    rw [List.map_cons, List.cons.injEq] at h
    rcases exactly_eq c with hc | hc <;> simp [hc] at h

/-! ### The pattern of a path -/

theorem escape_cons (c : Char) (s : List Char) :
    escape (c :: s) = (if c ∈ ['?', '*', '[', ']'] then ['[', c, ']'] else [c]) ++ escape s := by
  simp [escape]

/-- Escaped characters are read one by one, whatever comes after them. -/
theorem piecesFrom_escape (s t : List Char) (pos : Nat) (before : Option Char) :
    ∃ pos' before', piecesFrom pos before 0 (escape s ++ t) =
      (piecesFrom pos' before' 0 t).map (s.map exactly ++ ·) := by
  induction s generalizing pos before with
  | nil =>
    refine ⟨pos, before, ?_⟩
    change piecesFrom pos before 0 t = _
    cases piecesFrom pos before 0 t <;> rfl
  | cons c s ih =>
    have hmap (c : Char) (x : Except PatternError (List Piece)) :
        (x.map (s.map exactly ++ ·)).map (exactly c :: ·) =
          x.map ((c :: s).map exactly ++ ·) := by
      cases x <;> rfl
    rw [escape_cons, List.append_assoc]
    by_cases hc : c ∈ ['?', '*', '[', ']']
    · -- the character stands alone between brackets
      obtain ⟨pos', before', h⟩ := ih (pos + 3) (some ']')
      refine ⟨pos', before', ?_⟩
      have hread : piecesFrom pos before 0 ('[' :: c :: ']' :: (escape s ++ t)) =
          (piecesFrom (pos + 3) (some ']') 0 (escape s ++ t)).map (exactly c :: ·) := by
        simp only [List.mem_cons, List.not_mem_nil, or_false] at hc
        rcases hc with rfl | rfl | rfl | rfl <;> rfl
      rw [if_pos hc, ← hmap, ← h]
      exact hread
    · obtain ⟨pos', before', h⟩ := ih (pos + 1) (some c)
      refine ⟨pos', before', ?_⟩
      rw [if_neg hc, ← hmap, ← h, List.singleton_append, piecesFrom, exactly, if_neg hc]
      simp only [List.mem_cons, List.not_mem_nil, or_false, not_or] at hc
      simp [hc]

/-- Escaping keeps the parts of a path apart. -/
theorem splitOn_escape (s : List Char) : splitOn '/' (escape s) = (splitOn '/' s).map escape := by
  induction s with
  | nil => rfl
  | cons c s ih =>
    by_cases hc : c = '/'
    · subst hc
      rw [escape_cons, if_neg (by decide), List.singleton_append, splitOn, if_pos rfl, ih, splitOn,
        if_pos rfl]
      rfl
    · have hnot : '/' ∉ (if c ∈ ['?', '*', '[', ']'] then ['[', c, ']'] else [c]) := by
        split <;> simp [Ne.symm hc]
      obtain ⟨p, ps, hps, hsplit⟩ := splitOn_cons hc s
      rw [hps, List.map_cons] at ih
      rw [escape_cons, splitOn_append_of_not_mem hnot ih, hsplit, List.map_cons, escape_cons]

section Parse

variable {last : List Char} {ps : List Piece}

theorem collapse_eq_self {names : List (List Piece)} (h : [.directories] ∉ names) :
    collapse names = names := by
  induction names with
  | nil => rfl
  | cons p names ih =>
    rw [List.mem_cons, not_or] at h
    rw [collapse, if_neg fun hp => h.1 hp.1.symm, ih h.2]

/-- The parts of an escaped text are read one by one. -/
theorem pieces_escape (s : List Char) : pieces (escape s) = .ok (s.map exactly) := by
  obtain ⟨pos, before, h⟩ := piecesFrom_escape s [] 0 none
  rw [List.append_nil] at h
  rw [pieces, h, piecesFrom]
  simp [Except.map]

theorem mapM_pieces_escape (parts : List (List Char)) (hlast : pieces last = .ok ps) :
    (parts.map escape ++ [last]).mapM pieces = .ok (parts.map (·.map exactly) ++ [ps]) := by
  induction parts with
  | nil => simp [hlast]
  | cons p parts ih =>
    rw [List.map_cons, List.cons_append, List.mapM_cons, pieces_escape, ih]
    rfl

/-- The part of a path after the separator at its beginning. -/
def relative (path : List Char) : List Char := if path.head? = some '/' then path.tail else path

/-- Only a separator begins with one when it is escaped. -/
theorem head?_escape {dir : List Char} (hdir : dir ≠ []) (t : List Char) :
    (escape dir ++ t).head? = some '/' ↔ dir.head? = some '/' := by
  obtain ⟨c, s, rfl⟩ := List.exists_cons_of_ne_nil hdir
  rw [escape_cons]
  split
  · next hc =>
    simp only [List.mem_cons, List.not_mem_nil, or_false] at hc
    rcases hc with rfl | rfl | rfl | rfl <;> simp
  · simp

theorem relative_escape {dir : List Char} (hdir : dir ≠ []) (t : List Char) :
    relative (escape dir ++ t) = escape (relative dir) ++ t := by
  rw [relative, relative]
  by_cases h : dir.head? = some '/'
  · rw [if_pos ((head?_escape hdir t).mpr h), if_pos h]
    obtain ⟨s, rfl⟩ := List.head?_eq_some_iff.mp h
    rfl
  · rw [if_neg fun hc => h ((head?_escape hdir t).mp hc), if_neg h]

theorem parts_escape (s : List Char) (hslash : '/' ∉ last) (hne : last ≠ []) :
    parts (escape s ++ '/' :: last) = (splitOn '/' s).map escape ++ [last] := by
  rw [parts, splitOn_append, splitOn_escape, splitOn_eq_singleton hslash]
  simp [hne]

/-- **The pattern of an escaped path with a pattern for names below it.** -/
theorem parse_escape {dir : List Char} (hdir : dir ≠ [])
    (hlast : ∀ pos before, piecesFrom pos before 0 last = .ok ps) (hslash : '/' ∉ last)
    (hne : last ≠ []) (hps : ps ≠ [.directories]) :
    PathPattern.parse (escape dir ++ '/' :: last) =
      .ok ⟨dir.head? = some '/', (splitOn '/' (relative dir)).map (·.map exactly) ++ [ps],
        false⟩ := by
  have hwhole : ∃ qs, pieces (escape dir ++ '/' :: last) = .ok qs := by
    obtain ⟨pos, before, h⟩ := piecesFrom_escape dir ('/' :: last) 0 none
    rw [pieces, h, piecesFrom]
    simp [hlast, Except.map]
  obtain ⟨qs, hqs⟩ := hwhole
  have hrelative := relative_escape hdir ('/' :: last)
  have hnames := mapM_pieces_escape (splitOn '/' (relative dir)) (hlast 0 none)
  have hcollapse : collapse ((splitOn '/' (relative dir)).map (·.map exactly) ++ [ps]) =
      (splitOn '/' (relative dir)).map (·.map exactly) ++ [ps] := by
    refine collapse_eq_self fun hmem => ?_
    rcases List.mem_append.mp hmem with h | h
    · obtain ⟨p, -, hp⟩ := List.mem_map.mp h
      exact exactly_ne_directories p hp
    · exact hps (List.mem_singleton.mp h).symm
  have hend : (escape dir ++ '/' :: last).getLast? ≠ some '/' := by
    intro h
    rw [List.getLast?_append_of_ne_nil _ (List.cons_ne_nil _ _),
      List.getLast?_cons_of_ne_nil hne] at h
    exact hslash (List.mem_of_getLast? h)
  have hnil : escape (relative dir) ++ '/' :: last ≠ [] := by simp
  unfold PathPattern.parse
  rw [hqs]
  rw [relative] at hrelative
  simp only [hrelative, parts_escape _ hslash hne, hnames, if_neg hnil]
  simp only [head?_escape hdir, hend, decide_false]
  change Except.ok (PathPattern.mk _ (collapse _) false) = _
  rw [hcollapse]

end Parse

/-! ### Following a pattern -/

/-- A directory with the path along which a pattern has reached it.  The current directory has one
path only. -/
structure Reached (w : Workspace) (path : List Char) (l : Location) : Prop where
  ne_nil : path ≠ []
  resolve : w.resolve path = .ok l
  isDir : w.get? l = some .dir
  eq_here : isHere path = true → path = ['.']

section Reached

variable {w : Workspace} {path name : List Char} {l : Location}

theorem head?_ne_of_not_mem {c : Char} (h : c ∉ name) : name.head? ≠ some c :=
  fun hhead => h (List.mem_of_mem_head? hhead)

theorem component?_ne_here (part : List Char) : Path.component? part ≠ some .here := by
  unfold Path.component?
  split
  · simp
  · split <;> simp

theorem isHere_iff_of_not_mem (h : '/' ∉ name) : isHere name = true ↔ name = ['.'] := by
  rw [isHere, decide_eq_true_iff, Path.components, splitOn_eq_singleton h]
  simp only [head?_ne_of_not_mem h, if_false, List.filterMap_nil, List.append_nil]
  split
  · next hdot => simp [hdot]
  · next hdot =>
    refine ⟨fun hc => ?_, fun hc => absurd hc hdot⟩
    exact absurd (Option.toList_eq_singleton_iff.mp hc) (component?_ne_here name)

/-- A name below a directory leads one step further, and so does an empty part unless it would make
an empty path. -/
theorem Reached.resolve_child (h : Reached w path l) (hname : '/' ∉ name)
    (hne : isHere path = true → name ≠ []) :
    w.resolve (child path name) = .ok (Workspace.enter l name) := by
  unfold child
  split
  · next hhere =>
    -- the current directory: the name itself is the path
    have hdot : w.resolve ['.'] = .ok l := h.eq_here hhere ▸ h.resolve
    have hcurrent : w.locate w.current [['.']] = .ok l := hdot
    obtain ⟨hdir, hl⟩ := Workspace.locate_cons_eq_ok_iff.mp hcurrent
    obtain rfl : w.current = l := by simpa [Workspace.enter, Workspace.locate] using hl
    rw [Workspace.resolve, Workspace.resolveFrom, if_neg (hne hhere), Workspace.start,
      if_neg (head?_ne_of_not_mem hname), splitOn_eq_singleton hname, Workspace.locate_cons hdir]
    rfl
  · exact Workspace.resolve_join h.ne_nil h.resolve h.isDir hname

theorem Reached.child_ne_nil (h : Reached w path l) (hne : isHere path = true → name ≠ []) :
    child path name ≠ [] := by
  unfold child
  split
  · next hhere => exact hne hhere
  · have hpath := h.ne_nil
    unfold Path.join
    split
    · next hslash => exact fun hnil => by simp [hnil] at hslash
    · split <;> simp [hpath]

/-- The components of a path below a directory that was reached. -/
theorem Reached.components_child (h : Reached w path l) (hname : Path.IsName name) :
    Path.components (child path name) =
      (if isHere path then [] else Path.components path) ++ [.name name] := by
  have hslash := hname.2.2.2
  unfold child
  split
  · rw [Path.components, splitOn_eq_singleton hslash]
    simp [head?_ne_of_not_mem hslash, hname.2.1, Path.component?_of_isName hname]
  · rw [Path.components_join h.ne_nil hslash, Path.component?_of_isName hname]
    rfl

/-- The current directory is reached from itself only. -/
theorem Reached.isHere_child (h : Reached w path l) (hname : '/' ∉ name)
    (hhere : isHere (child path name) = true) : isHere path = true ∧ name = ['.'] := by
  unfold child at hhere
  split at hhere
  · next hpath => exact ⟨hpath, (isHere_iff_of_not_mem hname).mp hhere⟩
  · next hpath =>
    refine absurd ?_ hpath
    rw [isHere, decide_eq_true_iff, Path.components_join h.ne_nil hname,
      List.append_eq_singleton_iff] at hhere
    rcases hhere with ⟨-, hc⟩ | ⟨hc, -⟩
    · exact absurd (Option.toList_eq_singleton_iff.mp hc) (component?_ne_here name)
    · rw [isHere, decide_eq_true_iff, hc]

theorem Reached.child_eq_here (h : Reached w path l) (hname : '/' ∉ name)
    (hhere : isHere (child path name) = true) : child path name = ['.'] := by
  obtain ⟨hpath, rfl⟩ := h.isHere_child hname hhere
  rw [child, if_pos hpath]

/-- A name without special characters is looked for directly. -/
theorem expand_of_literal {p : List Piece} (hlit : literal? p = some name)
    (hdir : w.isDir path = true) (hfound : w.contains (child path name) = true)
    (ps : List (List Piece)) : expand w (p :: ps) path = expand w ps (child path name) := by
  rw [expand.eq_def]
  simp [hlit, hdir, hfound]

/-- Any other is compared with the names in the directory. -/
theorem expand_of_names {p : List Piece} (hlit : literal? p = none) (hp : p ≠ [.directories])
    (hspecial : p.head? = some (.char '.') → ∀ name ∈ [['.', '.'], ['.']],
      matchesName p name = false)
    (h : Reached w path l) (ps : List (List Piece)) :
    expand w (p :: ps) path =
      ((w.namesAt l).filter (matchesName p)).flatMap fun name => expand w ps (child path name) := by
  have hdir : w.isDir path = true := by
    rw [Workspace.isDir, Workspace.find_eq_ok h.resolve h.isDir]
  have hnames : w.names path = w.namesAt l := by rw [Workspace.names, h.resolve]
  have hnone : (if p.head? = some (.char '.') then [['.', '.'], ['.']] else []).filter
      (matchesName p) = [] := by
    split
    · next hdot => simpa using hspecial hdot
    · rfl
  rw [expand.eq_def]
  simp only [hlit, hdir, hp, hnames, hnone, Bool.not_true, Bool.false_eq_true, if_false,
    List.flatMap_nil, List.nil_append]

/-- **An escaped name is followed to its entry**, if that is a directory. -/
theorem expand_exactly (hw : w.Proper) (h : Reached w path l) (hname : '/' ∉ name)
    (hne : isHere path = true → name ≠ [])
    (hdir : w.get? (Workspace.enter l name) = some .dir) (ps : List (List Piece)) :
    Reached w (child path name) (Workspace.enter l name) ∧
      expand w (name.map exactly :: ps) path = expand w ps (child path name) := by
  have hchild := h.resolve_child hname hne
  refine ⟨⟨h.child_ne_nil hne, hchild, hdir, h.child_eq_here hname⟩, ?_⟩
  cases hlit : literal? (name.map exactly) with
  | some n =>
    obtain rfl := eq_of_literal? hlit
    refine expand_of_literal hlit ?_ ?_ ps
    · rw [Workspace.isDir, Workspace.find_eq_ok h.resolve h.isDir]
    · rw [Workspace.contains, Workspace.find_eq_ok hchild hdir]
  | none =>
    -- the directory has this name, and has it once
    have hproper : Path.IsName name := by
      refine ⟨?_, ?_, ?_, hname⟩ <;> rintro rfl <;> simp [literal?, exactly] at hlit
    have hmem : name ∈ w.namesAt l := by
      rw [Workspace.mem_namesAt_iff_isSome, ← Workspace.enter_of_isName hproper, hdir]
      rfl
    have hfilter : (w.namesAt l).filter (matchesName (name.map exactly)) = [name] := by
      have heq : matchesName (name.map exactly) = (· == name) := by
        funext n
        rw [Bool.eq_iff_iff, matchesName_exactly, beq_iff_eq]
      rw [heq, List.filter_beq, List.count_eq_one_of_mem (Workspace.nodup_namesAt hw l) hmem,
        List.replicate_one]
    rw [expand_of_names hlit (exactly_ne_directories name) ?_ h ps, hfilter]
    · simp
    · intro _ n hn
      rw [← Bool.not_eq_true, matchesName_exactly]
      rintro rfl
      simp [hproper.2.1, hproper.2.2.1] at hn

/-- The paths with an empty part at the beginning, after which a pattern does not go on. -/
def breaksOff (path : List Char) : Bool :=
  path.head? ≠ some '/' && ((splitOn '/' path).dropWhile (· = ['.'])).head? = some []

/-- **A pattern is followed along the names of a path**, unless a part at the beginning is empty. -/
theorem expand_parts (hw : w.Proper) (h : Reached w path l) {parts : List (List Char)}
    (hslash : ∀ part ∈ parts, '/' ∉ part)
    (hbegin : isHere path = true → (parts.dropWhile (· = ['.'])).head? ≠ some [])
    {l' : Location} (hl : w.locate l parts = .ok l') (hl' : w.get? l' = some .dir)
    (ps : List (List Piece)) :
    ∃ path', Reached w path' l' ∧
      expand w (parts.map (·.map exactly) ++ ps) path = expand w ps path' := by
  induction parts generalizing path l with
  | nil =>
    cases hl
    exact ⟨path, h, rfl⟩
  | cons part parts ih =>
    obtain ⟨-, hrest⟩ := Workspace.locate_cons_eq_ok_iff.mp hl
    have hpart := hslash part List.mem_cons_self
    have hne : isHere path = true → part ≠ [] := by
      rintro hhere rfl
      exact hbegin hhere rfl
    obtain ⟨hchild, hstep⟩ := expand_exactly hw h hpart hne (Workspace.get?_of_locate hrest hl')
      (parts.map (·.map exactly) ++ ps)
    have hnext : isHere (child path part) = true →
        (parts.dropWhile (· = ['.'])).head? ≠ some [] := by
      intro hhere
      obtain ⟨hpath, rfl⟩ := h.isHere_child hpart hhere
      exact hbegin hpath
    obtain ⟨path', hpath', heq⟩ :=
      ih hchild (fun q hq => hslash q (List.mem_cons_of_mem part hq)) hnext hrest
    exact ⟨path', hpath', by rw [← heq, ← hstep, List.map_cons, List.cons_append]⟩

/-- An empty part at the beginning makes an empty path, and the pattern stands for nothing. -/
theorem expand_eq_nil {parts : List (List Char)}
    (hbegin : (parts.dropWhile (· = ['.'])).head? = some []) (ps : List (List Piece)) :
    expand w (parts.map (·.map exactly) ++ ps) ['.'] = [] := by
  induction parts with
  | nil => simp at hbegin
  | cons part parts ih =>
    rw [List.map_cons, List.cons_append, expand.eq_def]
    by_cases hdot : part = ['.']
    · subst hdot
      have hchild : child ['.'] ['.'] = ['.'] := by decide
      have hlit : literal? (['.'].map exactly) = some ['.'] := by decide
      simp only [hlit, hchild, true_or, if_true, ih hbegin, ite_self]
    · obtain rfl : part = [] := by simpa [List.dropWhile_cons, hdot] using hbegin
      have hchild : child ['.'] [] = [] := by decide
      have hlit : literal? [] = some [] := rfl
      have hempty : w.contains [] = false := rfl
      simp [hlit, hchild, hempty]

/-- Where the pattern of a path begins, and the way from there. -/
theorem reached_start {dir : List Char} (hdir : w.resolve dir = .ok l)
    (hl : w.get? l = some .dir) : ∃ m,
      Reached w (if dir.head? = some '/' then ['/'] else ['.']) m ∧
        w.locate m (splitOn '/' (relative dir)) = .ok l := by
  have hne : dir ≠ [] := by
    rintro rfl
    cases hdir
  rw [Workspace.resolve, Workspace.resolveFrom, if_neg hne, Workspace.start] at hdir
  by_cases hroot : dir.head? = some '/'
  · obtain ⟨t, rfl⟩ := List.head?_eq_some_iff.mp hroot
    rw [if_pos hroot, splitOn, if_pos rfl] at hdir
    rw [if_pos hroot, relative, if_pos hroot]
    exact ⟨[], ⟨by simp, rfl, rfl, by decide⟩, (Workspace.locate_cons_eq_ok_iff.mp hdir).2⟩
  · rw [if_neg hroot] at hdir
    rw [if_neg hroot, relative, if_neg hroot]
    have hcurrent := Workspace.get?_of_locate hdir hl
    refine ⟨w.current, ⟨by simp, ?_, hcurrent, fun _ => rfl⟩, hdir⟩
    exact Workspace.locate_cons hcurrent ['.'] []

/-- **What an escaped path with a pattern for names below it stands for**: the names in the
directory that the pattern matches, or nothing if the path has an empty part at its beginning. -/
theorem find_escape (hw : w.Proper) {dir last : List Char} {p : List Piece}
    (hlast : ∀ pos before, piecesFrom pos before 0 last = .ok p) (hslash : '/' ∉ last)
    (hlit : literal? p = none) (hp : p ≠ [.directories]) (hdot : p.head? ≠ some (.char '.'))
    (hdir : w.resolve dir = .ok l) (hl : w.get? l = some .dir) :
    ∃ q, PathPattern.parse (escape dir ++ '/' :: last) = .ok q ∧
      (breaksOff dir = true → q.find w = []) ∧
      (breaksOff dir = false → ∃ path, Reached w path l ∧
        q.find w = ((w.namesAt l).filter (matchesName p)).map (child path)) := by
  have hne : dir ≠ [] := by
    rintro rfl
    cases hdir
  have hlastNe : last ≠ [] := by
    rintro rfl
    obtain rfl : p = [] := by simpa [piecesFrom] using (hlast 0 none).symm
    cases hlit
  refine ⟨_, parse_escape hne hlast hslash hlastNe hp, ?_, ?_⟩
  · intro hbreak
    rw [breaksOff, Bool.and_eq_true, decide_eq_true_iff, decide_eq_true_iff] at hbreak
    obtain ⟨hroot, hbegin⟩ := hbreak
    simp only [PathPattern.find, hroot, relative, if_false, decide_false, Bool.false_eq_true]
    exact expand_eq_nil hbegin [p]
  · intro hbreak
    obtain ⟨m, hstart, hway⟩ := reached_start hdir hl
    have hbegin : isHere (if dir.head? = some '/' then ['/'] else ['.']) = true →
        ((splitOn '/' (relative dir)).dropWhile (· = ['.'])).head? ≠ some [] := by
      intro hhere hempty
      by_cases hroot : dir.head? = some '/'
      · rw [if_pos hroot] at hhere
        exact absurd hhere (by decide)
      · rw [relative, if_neg hroot] at hempty
        simp [breaksOff, hroot, hempty] at hbreak
    obtain ⟨path, hpath, heq⟩ :=
      expand_parts hw hstart (fun q hq => not_mem_of_mem_splitOn hq) hbegin hway hl [p]
    refine ⟨path, hpath, ?_⟩
    simp only [PathPattern.find, Bool.false_eq_true, if_false, decide_eq_true_eq]
    rw [heq, expand_of_names hlit hp (fun h => absurd h hdot) hpath, List.map_eq_flatMap]
    simp only [expand]

end Reached

end BindingDocs.Glob
