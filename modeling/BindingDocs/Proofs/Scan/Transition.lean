import BindingDocs.Scan.Run

/-!
# What one line can do

`Mode.step` is a cascade of tests.  Here it is turned inside out: `Transition` lists the ways in
which a line can take the scanner from one mode to another, each with the tests that led there and
with the effects it has, and `TagTransition` does the same for the lines of a comment that do not
close it.  Every invariant of the scanner is proved by going through this list, and carried over a
whole file by `effects_induction`.

## Main definitions

* `Transition`, `TagTransition` — the moves of the scanner.

## Main results

* `transition_of_step` — every accepted line makes one of the moves.
* `runLines_append` — reading on after lines that were all accepted.
* `effects_induction` — what every move preserves, read backwards from the end of the file, holds of
  the effects of the file.
* `scan_result_eq_ok` — a scan succeeds exactly when its effects come with no error.
* `streams_scan` — what a file adds to the streams does not depend on what they hold.
-/

namespace BindingDocs.Scan

open Text

/-! ### Moves -/

/-- The moves of the scanner on a line inside a comment that does not close the comment. -/
inductive TagTransition (d : Dialect) (line : List Char) (r : Region) :
    Region → List Effect → Prop
  | page (h : Tag.ofLine? line = some .page) :
    TagTransition d line r { r with hasCommand := true, mainPage := true }
      [.mainPage (asFragment line)]
  | par (h : Tag.ofLine? line = some .par) :
    TagTransition d line r { r with hasCommand := true } []
  | enum {spec : EnumSpec} (h : Tag.ofLine? line = some (.enum spec)) :
    TagTransition d line r { r with hasCommand := true, pending := some spec }
      (Mode.enumEffects r spec)
  | geom {body : String} (h : Tag.ofLine? line = some (.geom body)) :
    TagTransition d line r r [.comment (Declaration.geometry body)]
  | listing {name : String} (h : Tag.ofLine? line = some (.listing name)) :
    TagTransition d line r { r with hasCommand := true }
      [.marker name, .comment (Declaration.markerTarget name)]
  | func {sig : Signature} (h : Tag.ofLine? line = some .func)
    (hsig : Signature.parse? d line = some sig) :
    TagTransition d line r { r with hasCommand := true } (Mode.funcEffects sig line)
  | ofClass {name : String} (h : Tag.ofLine? line = some (.ofClass name)) :
    TagTransition d line r { r with hasCommand := true } [.comment (Declaration.classTarget name)]
  | ofVirtualClass {name : String} (h : Tag.ofLine? line = some (.ofVirtualClass name)) :
    TagTransition d line r { r with hasCommand := true }
      [.comment (Declaration.classTarget name), .openClass name]
  | descr {text : String} (h : Tag.ofLine? line = some (.descr text)) :
    TagTransition d line r { r with hasCommand := true } [.comment (Declaration.description text)]
  | freeText (h : Tag.ofLine? line = none) : TagTransition d line r r (Mode.freeText r line)

/-- The effect of the line that ends a method table. -/
def MethodKind.table : MethodKind → (owner : String) → (names : List String) → Effect
  | .ofObjects => .methods
  | .ofClass => .statics

/-- The moves of the scanner.  Every one but the first and those inside an enum table is made on a
line without a registration. -/
inductive Transition (d : Dialect) (line : List Char) : Mode → Mode → List Effect → Prop
  | register {m : Mode} {r : Registration} (hm : m.seesRegistration = true)
    (h : Registration.ofLine? line = some r) : Transition d line m m [.register r]
  | startTable {kind : MethodKind} (hreg : Registration.ofLine? line = none)
    (h : MethodKind.start? line = some kind) :
    Transition d line .code (.methods kind [] none) []
  | openBlock (hreg : Registration.ofLine? line = none) (hstart : MethodKind.start? line = none)
    (h : opensComment d line = true) :
    Transition d line .code (.comment {}) [.comment blockOpen]
  | passCode (hreg : Registration.ofLine? line = none) (hstart : MethodKind.start? line = none)
    (h : opensComment d line = false) : Transition d line .code .code []
  | endTable {kind : MethodKind} {names : List String} {pending : Option EnumSpec} {owner : String}
    (hreg : Registration.ofLine? line = none) (h : kind.owner? line = some owner) :
    Transition d line (.methods kind names pending) (.resume pending) [kind.table owner names]
  | listMethod {kind : MethodKind} {names : List String} {pending : Option EnumSpec}
    (hreg : Registration.ofLine? line = none) (h : kind.owner? line = none) :
    Transition d line (.methods kind names pending)
      (.methods kind (names ++ (kind.row? line).toList) pending) []
  | closeBlock {r : Region} (hreg : Registration.ofLine? line = none)
    (h : contains d.closer.toList line = true) :
    Transition d line (.comment r) (.resume r.pending) [.comment blockClose]
  | tag {r r' : Region} {es : List Effect} (hreg : Registration.ofLine? line = none)
    (hclose : contains d.closer.toList line = false) (h : TagTransition d line r r' es) :
    Transition d line (.comment r) (.comment r') es
  | interruptByTable {spec : EnumSpec} {kind : MethodKind}
    (hreg : Registration.ofLine? line = none) (h : MethodKind.start? line = some kind) :
    Transition d line (.awaiting spec) (.methods kind [] (some spec)) []
  | interruptByBlock {spec : EnumSpec} (hreg : Registration.ofLine? line = none)
    (hstart : MethodKind.start? line = none) (h : opensComment d line = true) :
    Transition d line (.awaiting spec) (.comment { pending := some spec }) [.comment blockOpen]
  | startRows {spec : EnumSpec} (hreg : Registration.ofLine? line = none)
    (hstart : MethodKind.start? line = none) (hopen : opensComment d line = false)
    (h : isDefine line = true) :
    Transition d line (.awaiting spec) (.rows spec) (spec.tableStart.map .enums)
  | passAwaiting {spec : EnumSpec} (hreg : Registration.ofLine? line = none)
    (hstart : MethodKind.start? line = none) (hopen : opensComment d line = false)
    (h : isDefine line = false) : Transition d line (.awaiting spec) (.awaiting spec) []
  | row {spec : EnumSpec} (h : (spec.readRow line).2 = true) :
    Transition d line (.rows spec) (.rows spec) ((spec.readRow line).1.map .enums)
  | lastRow {spec : EnumSpec} (h : (spec.readRow line).2 = false) :
    Transition d line (.rows spec) .code
      (((spec.readRow line).1 ++ EnumSpec.tableEnd).map .enums)

namespace Mode

variable {d : Dialect} {line : List Char} {m m' : Mode} {es : List Effect}

/-- A line of a comment that is accepted makes one of the moves inside a comment. -/
theorem tagTransition_of_tagLine {r r' : Region} (h : tagLine d r line = some (r', es)) :
    TagTransition d line r r' es := by
  unfold tagLine at h
  split at h
  · next htag => cases h; exact .page htag
  · next htag => cases h; exact .par htag
  · next htag => cases h; exact .enum htag
  · next htag => cases h; exact .geom htag
  · next htag => cases h; exact .listing htag
  · next htag =>
    -- the only command whose line can be refused
    simp only [Option.map_eq_some_iff, Prod.mk.injEq] at h
    obtain ⟨sig, hsig, rfl, rfl⟩ := h
    exact .func htag hsig
  · next htag => cases h; exact .ofClass htag
  · next htag => cases h; exact .ofVirtualClass htag
  · next htag => cases h; exact .descr htag
  · next htag => cases h; exact .freeText htag

/-- A line without a registration makes one of the moves of its mode. -/
theorem transition_of_dispatch
    (hreg : m.seesRegistration = true → Registration.ofLine? line = none)
    (h : dispatch d line m = some (m', es)) : Transition d line m m' es := by
  cases m with
  | code =>
    replace hreg := hreg rfl
    simp only [dispatch, codeLine, Option.some.injEq] at h
    split at h
    · next hstart => cases h; exact .startTable hreg hstart
    · next hstart =>
      split at h
      · next hopen => cases h; exact .openBlock hreg hstart hopen
      · next hopen => cases h; exact .passCode hreg hstart (by simpa using hopen)
  | methods kind names pending =>
    replace hreg := hreg rfl
    simp only [dispatch, methodsLine, Option.some.injEq] at h
    split at h
    · next howner =>
      cases h
      cases kind <;> exact .endTable hreg howner
    · next howner => cases h; exact .listMethod hreg howner
  | comment r =>
    replace hreg := hreg rfl
    simp only [dispatch, commentLine] at h
    split at h
    · next hclose => cases h; exact .closeBlock hreg hclose
    · next hclose =>
      simp only [Option.map_eq_some_iff, Prod.mk.injEq, Prod.exists] at h
      obtain ⟨r', es', htag, rfl, rfl⟩ := h
      exact .tag hreg (by simpa using hclose) (tagTransition_of_tagLine htag)
  | awaiting spec =>
    replace hreg := hreg rfl
    simp only [dispatch, awaitingLine, Option.some.injEq] at h
    split at h
    · next hstart => cases h; exact .interruptByTable hreg hstart
    · next hstart =>
      split at h
      · next hopen => cases h; exact .interruptByBlock hreg hstart hopen
      · next hopen =>
        replace hopen : opensComment d line = false := by simpa using hopen
        split at h
        · next hdef => cases h; exact .startRows hreg hstart hopen hdef
        · next hdef => cases h; exact .passAwaiting hreg hstart hopen (by simpa using hdef)
  | rows spec =>
    simp only [dispatch, rowsLine, Option.some.injEq] at h
    split at h
    · next hmore => cases h; exact .row hmore
    · next hmore => cases h; exact .lastRow (by simpa using hmore)

/-- **Every accepted line makes one of the moves.** -/
theorem transition_of_step {raw : List Char} (h : m.step d raw = some (m', es)) :
    Transition d (normalise d raw) m m' es := by
  simp only [step] at h
  split at h
  · next r hreg =>
    simp only [Option.ite_none_right_eq_some] at hreg
    cases h
    exact .register hreg.1 hreg.2
  · next hreg =>
    refine transition_of_dispatch ?_ h
    intro hsees
    simpa [hsees] using hreg

end Mode

/-! ### Whole files -/

section Files

variable {d : Dialect} {text : List Char} {es : List Effect}

/-- Reading lines to the end is a step on the first line and reading the others. -/
theorem runLines_cons_ok {n : Nat} {m m' : Mode} {raw : List Char} {rest : List (List Char)}
    (h : runLines d n m (raw :: rest) = (es, .ok m')) :
    ∃ m₁ es₁ es₂, m.step d raw = some (m₁, es₁) ∧ runLines d (n + 1) m₁ rest = (es₂, .ok m') ∧
      es = es₁ ++ es₂ := by
  rw [runLines] at h
  split at h
  · simp at h
  · next m₁ es₁ hstep =>
    simp only [Prod.mk.injEq] at h
    exact ⟨m₁, es₁, _, hstep, Prod.ext rfl h.2, h.1.symm⟩

/-- Reading on after lines that were all accepted. -/
theorem runLines_append {n : Nat} {m m' : Mode} {before : List (List Char)}
    (h : runLines d n m before = (es, .ok m')) (after : List (List Char)) :
    runLines d n m (before ++ after) =
      (es ++ (runLines d (n + before.length) m' after).1,
        (runLines d (n + before.length) m' after).2) := by
  induction before generalizing n m es with
  | nil =>
    cases h
    rfl
  | cons raw before ih =>
    obtain ⟨m₁, es₁, es₂, hstep, hrest, rfl⟩ := runLines_cons_ok h
    have hnumber : n + (raw :: before).length = n + 1 + before.length := by
      rw [List.length_cons]
      omega
    rw [List.cons_append, runLines, hstep]
    simp only [ih hrest, hnumber, List.append_assoc]

/-- A file without an error is a run over its lines and what is closed after the last one. -/
theorem effects_eq_none (h : effects d text = (es, none)) :
    ∃ m es', runLines d 1 .code (lines text) = (es', .ok m) ∧ es = es' ++ m.finish := by
  rw [effects] at h
  split at h
  · next es' m hrun =>
    cases h
    exact ⟨m, es', hrun, rfl⟩
  · simp at h

/-- **Induction along a file**, backwards from its end.  `P m es` speaks of the effects `es` that
are still to come in the mode `m`. -/
theorem effects_induction {P : Mode → List Effect → Prop} (hfinish : ∀ m, P m m.finish)
    (hstep : ∀ raw ∈ lines text, ∀ m m' es rest,
      m.step d raw = some (m', es) → P m' rest → P m (es ++ rest))
    (h : effects d text = (es, none)) : P .code es := by
  obtain ⟨m', es', hrun, rfl⟩ := effects_eq_none h
  clear h
  generalize lines text = ls at hstep hrun
  generalize Mode.code = m at hrun ⊢
  generalize 1 = n at hrun
  induction ls generalizing m n es' with
  | nil =>
    cases hrun
    exact hfinish m'
  | cons raw rest ih =>
    obtain ⟨m₁, es₁, es₂, hfirst, hlater, rfl⟩ := runLines_cons_ok hrun
    rw [List.append_assoc]
    refine hstep raw List.mem_cons_self m m₁ es₁ _ hfirst ?_
    exact ih es₂ (fun raw' hraw' => hstep raw' (List.mem_cons_of_mem _ hraw')) m₁ (n + 1) hlater

/-- A scan succeeds exactly when its effects come with no error, and then returns what they make of
the empty fragments. -/
theorem scan_result_eq_ok {s : Streams} {f : FileFragments} :
    (scan d s text).result = .ok f ↔
      ∃ es, effects d text = (es, none) ∧ es.foldl Effect.onFile {} = f := by
  simp only [scan]
  rcases effects d text with ⟨es, _ | e⟩ <;> simp

/-- The streams after a scan, given the effects. -/
theorem scan_streams {e : Option ScanError} (h : effects d text = (es, e)) (s : Streams) :
    (scan d s text).streams = es.foldl Effect.onStreams s := by
  simp [scan, h]

end Files

/-! ### Effects on the streams -/

namespace Effect

/-- The fragment an effect adds to the comments. -/
def commentText? : Effect → Option String
  | .comment fragment => some fragment
  | _ => none

/-- The fragment an effect adds to the main page. -/
def mainPageText? : Effect → Option String
  | .mainPage fragment => some fragment
  | _ => none

/-- The fragment an effect adds to the enum stream. -/
def enumText? : Effect → Option String
  | .enums fragment => some fragment
  | _ => none

/-- The streams are written at the end only. -/
theorem foldl_onStreams (es : List Effect) (s : Streams) :
    es.foldl onStreams s =
      { mainPage := s.mainPage ++ es.filterMap mainPageText?
        enums := s.enums ++ es.filterMap enumText? } := by
  induction es generalizing s with
  | nil => simp
  | cons e es ih =>
    rw [List.foldl_cons, ih]
    cases e <;> simp [onStreams, List.filterMap_cons, mainPageText?, enumText?]

/-- So are the comments of a file. -/
theorem comments_foldl_onFile (es : List Effect) (f : FileFragments) :
    (es.foldl onFile f).comments = f.comments ++ es.filterMap commentText? := by
  induction es generalizing f with
  | nil => simp
  | cons e es ih =>
    rw [List.foldl_cons, ih]
    cases e with
    | declare sig source =>
      have hkeep : (declareIn sig source f).comments = f.comments := by
        unfold declareIn
        split <;> rfl
      simp [onFile, hkeep, List.filterMap_cons, commentText?]
    | _ => simp [onFile, List.filterMap_cons, commentText?, FileFragments.updateClass]

end Effect

/-- A file adds the same to the streams, whatever they hold already. -/
theorem streams_scan (s : Streams) (d : Dialect) (text : List Char) :
    (scan d s text).streams =
      { mainPage := s.mainPage ++ (scan d {} text).streams.mainPage
        enums := s.enums ++ (scan d {} text).streams.enums } := by
  rcases hes : effects d text with ⟨es, e⟩
  simp [scan_streams hes, Effect.foldl_onStreams]

end BindingDocs.Scan
