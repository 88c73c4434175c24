import BindingDocs.Proofs.Run.HeaderNames
import BindingDocs.Proofs.Scan.Transition
import BindingDocs.Proofs.Workspace.Writing
import BindingDocs.Run.Generate

/-!
# Headers of a run

A run scans the supported inputs in order.  Each is read when the headers of those before it have
been written, its header is written at once, and what it says about the main page goes into streams
that are passed on.  The first input that cannot be scanned stops the run: then the headers of the
inputs before it stand in the directory, and nothing else was touched.

The name of a header is made of the last name of its input only.  Of two inputs in different
directories that have the same name, the header of the second replaces that of the first.

## Main definitions

* `Source` — an input as it was read.
* `headers`, `streamsAfter` — the headers of inputs, and what inputs say about the main page.
* `ReadInTurn` — each input was read when the headers before it had been written.
* `ScannedAll`, `StoppedAt` — how scanning inputs ends.

## Main results

* `streamsAfter_eq` — the main page holds what each input says on its own.
* `generateFiles_cases` — how scanning inputs ends, in every case.
* `generate_cases` — **a run ends with the main page, or at the first input that is refused.**
* `headersKept_iff` — **the runs that lose no header.**
-/

namespace BindingDocs

/-! ### Sources -/

/-- An input as it was read. -/
structure Source where
  path : List Char
  dialect : Dialect
  text : List Char

namespace Source

/-- The input itself. -/
def input (s : Source) : List Char × Dialect := (s.path, s.dialect)

/-- The fragments of the input, or why it cannot be scanned. -/
def result (s : Source) : Except Scan.ScanError FileFragments :=
  (Scan.scan s.dialect {} s.text).result

/-- What the input says about the main page, read on its own. -/
def streams (s : Source) : Streams := (Scan.scan s.dialect {} s.text).streams

/-- The header of the input, if it has something to say. -/
def header? (generated : String) (s : Source) : Option String :=
  match s.result with
  | .error _ => none
  | .ok fragments => if fragments.isEmpty then none else some (Header.render fragments generated)

end Source

/-- The inputs of a supported kind, in order. -/
def supported (paths : List (List Char)) : List (List Char × Dialect) :=
  paths.filterMap fun path => (Dialect.ofPath? path).map (path, ·)

/-- The headers of inputs with their names, in order. -/
def headers (generated : String) (ss : List Source) : List (String × String) :=
  ss.filterMap fun s => (s.header? generated).map (Header.outputName s.path, ·)

/-- The streams with what inputs add to them. -/
def streamsAfter (ss : List Source) (streams : Streams) : Streams :=
  ss.foldl (fun streams s => (Scan.scan s.dialect streams s.text).streams) streams

/-- **Inputs add to the streams what each of them says on its own**, one after the other. -/
theorem streamsAfter_eq (ss : List Source) (streams : Streams) :
    streamsAfter ss streams =
      { mainPage := streams.mainPage ++ ss.flatMap (·.streams.mainPage)
        enums := streams.enums ++ ss.flatMap (·.streams.enums) } := by
  induction ss generalizing streams with
  | nil => simp [streamsAfter]
  | cons s ss ih =>
    rw [streamsAfter, List.foldl_cons, ← streamsAfter, ih, Scan.streams_scan]
    simp only [List.flatMap_cons, List.append_assoc]
    rfl

/-- Each input was read when the headers of those before it had been written. -/
def ReadInTurn (generated : String) (dir : List Char) (w : Workspace) (ss : List Source) : Prop :=
  ∀ before s after, ss = before ++ s :: after → ∃ between bytes,
    w.writeAll dir (headers generated before) = .ok between ∧
      between.read s.path = .ok bytes ∧ s.text = Text.decodeLossy bytes

/-- All supported inputs were scanned in order, and `after` holds their headers. -/
structure ScannedAll (generated : String) (dir : List Char) (paths : List (List Char))
    (w : Workspace) (ss : List Source) (after : Workspace) : Prop where
  inputs : ss.map Source.input = supported paths
  read : ReadInTurn generated dir w ss
  accepted : ∀ s ∈ ss, ∃ fragments, s.result = .ok fragments
  written : w.writeAll dir (headers generated ss) = .ok after

/-- The supported inputs were scanned in order up to `s`, which is refused, and `after` holds the
headers of those before it. -/
structure StoppedAt (generated : String) (dir : List Char) (paths : List (List Char))
    (w : Workspace) (done : List Source) (s : Source) (e : Scan.ScanError) (after : Workspace) :
    Prop where
  inputs : (done ++ [s]).map Source.input <+: supported paths
  read : ReadInTurn generated dir w (done ++ [s])
  accepted : ∀ t ∈ done, ∃ fragments, t.result = .ok fragments
  refused : s.result = .error e
  written : w.writeAll dir (headers generated done) = .ok after

section Scanning

variable {generated : String} {dir path : List Char} {paths : List (List Char)}
  {w between after : Workspace} {s : Source} {ss : List Source} {bytes : List UInt8}

theorem headers_append (generated : String) (ss ts : List Source) :
    headers generated (ss ++ ts) = headers generated ss ++ headers generated ts :=
  List.filterMap_append

theorem headers_cons (generated : String) (s : Source) (ss : List Source) :
    headers generated (s :: ss) = headers generated [s] ++ headers generated ss :=
  headers_append generated [s] ss

theorem mem_headers_iff {f : String × String} : f ∈ headers generated ss ↔
    ∃ s ∈ ss, ∃ text, s.header? generated = some text ∧ (Header.outputName s.path, text) = f := by
  simp only [headers, List.mem_filterMap, Option.map_eq_some_iff]

theorem isName_of_mem_headers : ∀ f ∈ headers generated ss, Path.IsName f.1.toList := by
  intro f hf
  obtain ⟨s, -, text, -, rfl⟩ := mem_headers_iff.mp hf
  exact isName_outputName s.path

theorem readInTurn_nil : ReadInTurn generated dir w [] := by
  intro before s after hsplit
  simp at hsplit

theorem ReadInTurn.cons (hread : w.read s.path = .ok bytes)
    (htext : s.text = Text.decodeLossy bytes)
    (hwrite : w.writeAll dir (headers generated [s]) = .ok between)
    (h : ReadInTurn generated dir between ss) : ReadInTurn generated dir w (s :: ss) := by
  intro before t after hsplit
  cases before with
  | nil =>
    obtain ⟨rfl, -⟩ := List.cons_eq_cons.mp hsplit
    exact ⟨w, bytes, rfl, hread, htext⟩
  | cons s' before =>
    obtain ⟨rfl, hrest⟩ := List.cons_eq_cons.mp hsplit
    obtain ⟨u, bytes', hu, hread', htext'⟩ := h before t after hrest
    refine ⟨u, bytes', ?_, hread', htext'⟩
    rw [headers_cons, Workspace.writeAll_append_eq_ok_iff]
    exact ⟨between, hwrite, hu⟩

/-! ### One input -/

section Step

variable (generated : String) (dir : List Char) (streams : Streams) {d : Dialect}

theorem generateFile_of_unsupported (h : Dialect.ofPath? path = none) :
    (generateFile generated dir path streams w).result = .ok streams ∧
      (generateFile generated dir path streams w).workspace = w := by
  simp [generateFile, h, Job.bind_apply, Job.andThen, Job.tell]

theorem generateFile_of_unreadable (h : Dialect.ofPath? path = some d) {f : Fault}
    (hread : w.read path = .error f) :
    (generateFile generated dir path streams w).result = .error (.inputUnreadable path f) := by
  simp [generateFile, h, Job.bind_apply, Job.andThen, Job.tell, Job.require, hread,
    Except.mapError]

/-- An input that cannot be scanned leaves everything as it was. -/
theorem generateFile_of_refused (h : Dialect.ofPath? path = some d)
    (hread : w.read path = .ok bytes) {e : Scan.ScanError}
    (hs : Source.result ⟨path, d, Text.decodeLossy bytes⟩ = .error e) :
    (generateFile generated dir path streams w).result = .error (.scan path e) ∧
      (generateFile generated dir path streams w).workspace = w := by
  have hscan : (Scan.scan d streams (Text.decodeLossy bytes)).result = .error e := hs
  simp [generateFile, h, Job.bind_apply, Job.andThen, Job.tell, Job.require, hread,
    Except.mapError, hscan, Job.fail]

/-- Any other input gets its header if it has one, and adds to the streams, unless its header cannot
be written. -/
theorem generateFile_of_accepted (h : Dialect.ofPath? path = some d)
    (hread : w.read path = .ok bytes) {fragments : FileFragments}
    (hs : Source.result ⟨path, d, Text.decodeLossy bytes⟩ = .ok fragments) :
    (w.writeAll dir (headers generated [⟨path, d, Text.decodeLossy bytes⟩]) =
        .ok (generateFile generated dir path streams w).workspace ∧
      (generateFile generated dir path streams w).result =
        .ok (streamsAfter [⟨path, d, Text.decodeLossy bytes⟩] streams)) ∨
    ∃ f, (generateFile generated dir path streams w).result =
      .error (.unwritable (headerPath dir path) f) := by
  have hscan : (Scan.scan d streams (Text.decodeLossy bytes)).result = .ok fragments := hs
  cases hempty : fragments.isEmpty with
  | true =>
    left
    simp [generateFile, h, Job.bind_apply, Job.andThen, Job.tell, Job.require, hread,
      Except.mapError, hscan, hempty, headers, Source.header?, hs, Workspace.writeAll, streamsAfter]
  | false =>
    cases hwrite : w.write (headerPath dir path)
        (Text.bytesOf (Header.render fragments generated)) with
    | error f =>
      right
      refine ⟨f, ?_⟩
      simp [generateFile, h, Job.bind_apply, Job.andThen, Job.tell, Job.require, hread,
        Except.mapError, hscan, hempty, writeText, Job.attempt, hwrite]
    | ok after =>
      left
      have hheader : headers generated [⟨path, d, Text.decodeLossy bytes⟩] =
          [(Header.outputName path, Header.render fragments generated)] := by
        simp [headers, Source.header?, hs, hempty]
      have hwrite' := hwrite
      rw [headerPath] at hwrite'
      rw [hheader, Workspace.writeAll, hwrite']
      simp [generateFile, h, Job.bind_apply, Job.andThen, Job.tell, Job.require, hread,
        Except.mapError, hscan, hempty, writeText, Job.attempt, hwrite, Workspace.writeAll,
        streamsAfter]

end Step

/-! ### All inputs -/

theorem supported_cons_none (h : Dialect.ofPath? path = none) :
    supported (path :: paths) = supported paths := by
  rw [supported, List.filterMap_cons, h]
  rfl

theorem supported_cons_some {d : Dialect} (h : Dialect.ofPath? path = some d) :
    supported (path :: paths) = (path, d) :: supported paths := by
  rw [supported, List.filterMap_cons, h]
  rfl

/-- An input that was scanned comes before those that are scanned after it. -/
theorem ScannedAll.cons (hd : Dialect.ofPath? s.path = some s.dialect)
    (hread : w.read s.path = .ok bytes) (htext : s.text = Text.decodeLossy bytes)
    (hs : ∃ fragments, s.result = .ok fragments)
    (hwrite : w.writeAll dir (headers generated [s]) = .ok between)
    (h : ScannedAll generated dir paths between ss after) :
    ScannedAll generated dir (s.path :: paths) w (s :: ss) after where
  inputs := by rw [List.map_cons, h.inputs, supported_cons_some hd, Source.input]
  read := h.read.cons hread htext hwrite
  accepted := List.forall_mem_cons.mpr ⟨hs, h.accepted⟩
  written := by
    rw [headers_cons, Workspace.writeAll_append_eq_ok_iff]
    exact ⟨between, hwrite, h.written⟩

theorem StoppedAt.cons {t : Source} {e : Scan.ScanError}
    (hd : Dialect.ofPath? s.path = some s.dialect) (hread : w.read s.path = .ok bytes)
    (htext : s.text = Text.decodeLossy bytes) (hs : ∃ fragments, s.result = .ok fragments)
    (hwrite : w.writeAll dir (headers generated [s]) = .ok between)
    (h : StoppedAt generated dir paths between ss t e after) :
    StoppedAt generated dir (s.path :: paths) w (s :: ss) t e after where
  inputs := by
    rw [List.cons_append, List.map_cons, supported_cons_some hd, Source.input]
    exact (List.prefix_cons_inj _).mpr h.inputs
  read := h.read.cons hread htext hwrite
  accepted := List.forall_mem_cons.mpr ⟨hs, h.accepted⟩
  refused := h.refused
  written := by
    rw [headers_cons, Workspace.writeAll_append_eq_ok_iff]
    exact ⟨between, hwrite, h.written⟩

/-- The run fails because a header cannot be written, or because an input cannot be read. -/
def Obstructed (dir : List Char) (paths : List (List Char)) (w : Workspace) {α : Type}
    (result : Except Failure α) : Prop :=
  (∃ path f, result = .error (.unwritable path f)) ∨
    ∃ path ∈ paths, (Dialect.ofPath? path).isSome = true ∧ ∃ files between f,
      w.writeAll dir files = .ok between ∧ between.read path = .error f ∧
        result = .error (.inputUnreadable path f)

theorem Obstructed.cons {α : Type} {result : Except Failure α} {files : List (String × String)}
    (hwrite : w.writeAll dir files = .ok between) (h : Obstructed dir paths between result) :
    Obstructed dir (path :: paths) w result := by
  rcases h with h | ⟨p, hp, hd, later, u, f, hu, hread, hresult⟩
  · exact .inl h
  · refine .inr ⟨p, List.mem_cons_of_mem _ hp, hd, files ++ later, u, f, ?_, hread, hresult⟩
    exact Workspace.writeAll_append_eq_ok_iff.mpr ⟨between, hwrite, hu⟩

theorem Obstructed.exists_error {α : Type} {result : Except Failure α}
    (h : Obstructed dir paths w result) : ∃ e, result = .error e := by
  rcases h with ⟨path, f, h⟩ | ⟨path, -, -, files, between, f, -, -, h⟩
  · exact ⟨_, h⟩
  · exact ⟨_, h⟩

/-- **How scanning inputs ends**: all of them are scanned, or the first that is refused stops it, or
something cannot be read or written. -/
theorem generateFiles_cases (generated : String) (dir : List Char) (paths : List (List Char))
    (streams : Streams) (w : Workspace) :
    (∃ ss, ScannedAll generated dir paths w ss
        (generateFiles generated dir paths streams w).workspace ∧
      (generateFiles generated dir paths streams w).result = .ok (streamsAfter ss streams)) ∨
    (∃ done s e, StoppedAt generated dir paths w done s e
        (generateFiles generated dir paths streams w).workspace ∧
      (generateFiles generated dir paths streams w).result = .error (.scan s.path e)) ∨
    Obstructed dir paths w (generateFiles generated dir paths streams w).result := by
  induction paths generalizing streams w with
  | nil =>
    exact .inl ⟨[], ⟨rfl, readInTurn_nil, by simp, rfl⟩, rfl⟩
  | cons path paths ih =>
    rw [generateFiles, Job.bind_apply, Job.andThen]
    cases hd : Dialect.ofPath? path with
    | none =>
      obtain ⟨hresult, hworkspace⟩ :=
        generateFile_of_unsupported (w := w) generated dir streams hd
      simp only [hresult, hworkspace]
      rcases ih streams w with ⟨ss, hss, h⟩ | ⟨done, s, e, hs, h⟩ | h
      · exact .inl ⟨ss, { hss with inputs := hss.inputs.trans (supported_cons_none hd).symm }, h⟩
      · refine .inr (.inl ⟨done, s, e, { hs with inputs := ?_ }, h⟩)
        rw [supported_cons_none hd]
        exact hs.inputs
      · have hnothing : w.writeAll dir [] = .ok w := rfl
        exact .inr (.inr (h.cons hnothing))
    | some d =>
      cases hread : w.read path with
      | error f =>
        simp only [generateFile_of_unreadable generated dir streams hd hread]
        exact .inr (.inr (.inr ⟨path, List.mem_cons_self, by rw [hd]; rfl, [], w, f, rfl, hread,
          rfl⟩))
      | ok bytes =>
        cases hs : Source.result ⟨path, d, Text.decodeLossy bytes⟩ with
        | error e =>
          obtain ⟨hresult, hworkspace⟩ :=
            generateFile_of_refused generated dir streams hd hread hs
          simp only [hresult, hworkspace]
          refine .inr (.inl ⟨[], ⟨path, d, Text.decodeLossy bytes⟩, e, ?_, rfl⟩)
          refine ⟨?_, ?_, by simp, hs, rfl⟩
          · rw [supported_cons_some hd]
            exact List.prefix_append [(path, d)] _
          · have hnothing : w.writeAll dir
                (headers generated [⟨path, d, Text.decodeLossy bytes⟩]) = .ok w := by
              simp [headers, Source.header?, hs, Workspace.writeAll]
            exact ReadInTurn.cons hread rfl hnothing readInTurn_nil
        | ok fragments =>
          rcases generateFile_of_accepted generated dir streams hd hread hs with
            ⟨hwrite, hresult⟩ | ⟨f, hresult⟩
          · simp only [hresult]
            rcases ih (streamsAfter [⟨path, d, Text.decodeLossy bytes⟩] streams)
              (generateFile generated dir path streams w).workspace with
              ⟨ss, hss, h⟩ | ⟨done, s, e, hstop, h⟩ | h
            · exact .inl ⟨_ :: ss, hss.cons hd hread rfl ⟨fragments, hs⟩ hwrite, h⟩
            · exact .inr (.inl ⟨_ :: done, s, e, hstop.cons hd hread rfl ⟨fragments, hs⟩ hwrite, h⟩)
            · exact .inr (.inr (h.cons hwrite))
          · simp only [hresult]
            exact .inr (.inr (.inl ⟨_, f, rfl⟩))

end Scanning

/-! ### Whole runs -/

/-- The main page that a run writes after these inputs. -/
def mainPage (generated : String) (ss : List Source) : String × String :=
  (Header.mainPageFile, Header.renderMainPage (streamsAfter ss {}) generated)

section Runs

variable {generated : String} {dir : List Char} {paths : List (List Char)} {w after : Workspace}
  {s : Source} {ss : List Source}

theorem generate_of_error {e : Failure}
    (h : (generateFiles generated dir paths {} w).result = .error e) :
    (generate generated dir paths w).result = .error e ∧
      (generate generated dir paths w).workspace =
        (generateFiles generated dir paths {} w).workspace := by
  simp [generate, Job.bind_apply, Job.andThen, h]

/-- The main page is written when all inputs have been scanned. -/
theorem generate_of_ok (hss : ScannedAll generated dir paths w ss
      (generateFiles generated dir paths {} w).workspace)
    (h : (generateFiles generated dir paths {} w).result = .ok (streamsAfter ss {})) :
    (w.writeAll dir (headers generated ss ++ [mainPage generated ss]) =
        .ok (generate generated dir paths w).workspace ∧
      (generate generated dir paths w).result = .ok ()) ∨
    ∃ f, (generate generated dir paths w).result = .error (.unwritable (mainPagePath dir) f) := by
  cases hwrite : (generateFiles generated dir paths {} w).workspace.write (mainPagePath dir)
      (Text.bytesOf (Header.renderMainPage (streamsAfter ss {}) generated)) with
  | error f =>
    right
    refine ⟨f, ?_⟩
    simp [generate, Job.bind_apply, Job.andThen, h, writeText, Job.attempt, hwrite]
  | ok after =>
    left
    have hpage : (generateFiles generated dir paths {} w).workspace.writeAll dir
        [mainPage generated ss] = .ok after := by
      rw [mainPagePath] at hwrite
      rw [mainPage, Workspace.writeAll, hwrite]
      rfl
    have hafter : (generate generated dir paths w).workspace = after ∧
        (generate generated dir paths w).result = .ok () := by
      simp [generate, Job.bind_apply, Job.andThen, h, writeText, Job.attempt, hwrite, Job.tell]
    rw [hafter.1, Workspace.writeAll_append_eq_ok_iff]
    exact ⟨⟨_, hss.written, hpage⟩, hafter.2⟩

/-- A run that succeeds has scanned all supported inputs. -/
theorem exists_scannedAll (hok : (generate generated dir paths w).result = .ok ()) :
    ∃ ss, ScannedAll generated dir paths w ss (generateFiles generated dir paths {} w).workspace ∧
      w.writeAll dir (headers generated ss ++ [mainPage generated ss]) =
        .ok (generate generated dir paths w).workspace := by
  have herror {e : Failure} (h : (generateFiles generated dir paths {} w).result = .error e) :
      False := by
    rw [(generate_of_error h).1] at hok
    cases hok
  rcases generateFiles_cases generated dir paths {} w with ⟨ss, hss, h⟩ | ⟨_, _, _, -, h⟩ | h
  · rcases generate_of_ok hss h with ⟨hwritten, -⟩ | ⟨f, hresult⟩
    · exact ⟨ss, hss, hwritten⟩
    · rw [hresult] at hok
      cases hok
  · exact (herror h).elim
  · obtain ⟨e, h⟩ := h.exists_error
    exact (herror h).elim

theorem mainPageFile_notMem_headers (generated : String) (ss : List Source) :
    Header.mainPageFile ∉ (headers generated ss).map Prod.fst := by
  intro hmem
  obtain ⟨f, hf, hname⟩ := List.mem_map.mp hmem
  obtain ⟨s, -, text, -, rfl⟩ := mem_headers_iff.mp hf
  exact outputName_ne_mainPageFile s.path hname

/-- The text of the main page: a comment with what the inputs say about it, and their enum
groups. -/
theorem renderMainPage_streamsAfter (generated : String) (ss : List Source) :
    Header.renderMainPage (streamsAfter ss {}) generated =
      Header.banner generated ++ "/**\n" ++ String.join (ss.flatMap (·.streams.mainPage)) ++
        "\n*/\n" ++ String.join (ss.flatMap (·.streams.enums)) := by
  rw [streamsAfter_eq]
  rfl

/-- **A run ends with the main page, or at the first input that is refused.**  Let every supported
input be readable and let nothing fail to be written.  Either all supported inputs are scanned in
order with one set of streams, their headers are written, and the main page of the streams after
all of them, which holds what each input says on its own; or one of them is refused, and then the
headers of those before it are all that is written. -/
theorem generate_cases
    (hread : ∀ path ∈ paths, (Dialect.ofPath? path).isSome = true →
      ∃ bytes, w.read path = .ok bytes)
    (hwrite : ∀ path f, (generate generated dir paths w).result ≠ .error (.unwritable path f)) :
    (∃ ss between, ScannedAll generated dir paths w ss between ∧
      (generate generated dir paths w).result = .ok () ∧
      between.writeAll dir [mainPage generated ss] =
        .ok (generate generated dir paths w).workspace ∧
      (generate generated dir paths w).workspace.read (mainPagePath dir) =
        .ok (Text.bytesOf (Header.renderMainPage (streamsAfter ss {}) generated)) ∧
      Header.renderMainPage (streamsAfter ss {}) generated =
        Header.banner generated ++ "/**\n" ++ String.join (ss.flatMap (·.streams.mainPage)) ++
          "\n*/\n" ++ String.join (ss.flatMap (·.streams.enums))) ∨
    ∃ done s e,
      StoppedAt generated dir paths w done s e (generate generated dir paths w).workspace ∧
      (generate generated dir paths w).result = .error (.scan s.path e) ∧
      (∀ l, (∀ f ∈ headers generated done, w.resolve (Path.join dir f.1.toList) ≠ .ok l) →
        (generate generated dir paths w).workspace.get? l = w.get? l) ∧
      (∀ path, Header.outputName path ∉ (headers generated done).map Prod.fst →
        ∀ l, w.resolve (headerPath dir path) = .ok l →
          (generate generated dir paths w).workspace.get? l = w.get? l) ∧
      ∀ l, w.resolve (mainPagePath dir) = .ok l →
        (generate generated dir paths w).workspace.get? l = w.get? l := by
  rcases generateFiles_cases generated dir paths {} w with ⟨ss, hss, h⟩ | ⟨done, s, e, hstop, h⟩ | h
  · left
    rcases generate_of_ok hss h with ⟨hwritten, hresult⟩ | ⟨f, hresult⟩
    · obtain ⟨between, hbetween, hpage⟩ := Workspace.writeAll_append_eq_ok_iff.mp hwritten
      have hread := Workspace.read_writeAll hwritten (by simp) isName_mainPageFile (by simp)
      exact ⟨ss, between, { hss with written := hbetween }, hresult, hpage, hread,
        renderMainPage_streamsAfter generated ss⟩
    · exact absurd hresult (hwrite _ f)
  · right
    obtain ⟨hresult, hworkspace⟩ := generate_of_error h
    rw [hresult, hworkspace]
    refine ⟨done, s, e, hstop, rfl, ?_, ?_, ?_⟩
    · exact fun l hl => Workspace.get?_writeAll hstop.written hl
    · intro path hpath l hl
      exact Workspace.get?_writeAll_of_name hstop.written isName_of_mem_headers
        (isName_outputName path) hpath hl
    · intro l hl
      exact Workspace.get?_writeAll_of_name hstop.written isName_of_mem_headers isName_mainPageFile
        (mainPageFile_notMem_headers generated done) hl
  · rcases h with ⟨path, f, h⟩ | ⟨path, hpath, hd, files, between, f, hfiles, hfault, h⟩
    · exact absurd (generate_of_error h).1 (hwrite path f)
    · -- an input that can be read stays readable
      obtain ⟨bytes, hbytes⟩ := Workspace.exists_read_writeAll hfiles (hread path hpath hd)
      rw [hbytes] at hfault
      cases hfault

/-- An input that says something, one that is refused, and another. -/
def refusedSecond : Workspace :=
  { entries := [(["out".toList], .dir),
      (["a.cpp".toList], .file (Text.bytesOf "REGISTER_LUA_CLASS(A);")),
      (["b.cpp".toList], .file (Text.bytesOf "/**\n@luafunc b\n*/")),
      (["c.cpp".toList], .file (Text.bytesOf "REGISTER_LUA_CLASS(C);"))] }

/-- These inputs in order. -/
def refusedPaths : List (List Char) := ["a.cpp".toList, "b.cpp".toList, "c.cpp".toList]

theorem readable_refusedSecond : ∀ path ∈ refusedPaths, (Dialect.ofPath? path).isSome = true →
    ∃ bytes, refusedSecond.read path = .ok bytes := by
  intro path hpath _
  simp only [refusedPaths, List.mem_cons, List.not_mem_nil, or_false] at hpath
  rcases hpath with rfl | rfl | rfl
  · exact ⟨_, rfl⟩
  · exact ⟨_, rfl⟩
  · exact ⟨_, rfl⟩

/-- Two inputs that say something about the main page, one of them about an enum, too, and between
them one that is not supported. -/
def commonPage : Workspace :=
  { entries := [(["out".toList], .dir),
      (["a.cpp".toList], .file (Text.bytesOf "/**\n@mainpage\nOne.\n*/\n/**\n@luaenum E(0)\n*/\n")),
      (["b.md".toList], .file (Text.bytesOf "/**\n@mainpage\n*/\n")),
      (["c.lua".toList], .file (Text.bytesOf "--[[\n@page c\nTwo.\n--]]\n"))] }

/-- These inputs in order. -/
def commonPaths : List (List Char) := ["a.cpp".toList, "b.md".toList, "c.lua".toList]

theorem readable_commonPage : ∀ path ∈ commonPaths, (Dialect.ofPath? path).isSome = true →
    ∃ bytes, commonPage.read path = .ok bytes := by
  intro path hpath _
  simp only [commonPaths, List.mem_cons, List.not_mem_nil, or_false] at hpath
  rcases hpath with rfl | rfl | rfl
  · exact ⟨_, rfl⟩
  · exact ⟨_, rfl⟩
  · exact ⟨_, rfl⟩

/-- A run that ends with the main page, and one that is stopped. -/
theorem generate_cases_twice :
    (∃ ss between, ScannedAll "T" "out".toList commonPaths commonPage ss between ∧
      (generate "T" "out".toList commonPaths commonPage).workspace.read
          (mainPagePath "out".toList) =
        .ok (Text.bytesOf (Header.banner "T" ++ "/**\n" ++
          String.join (ss.flatMap (·.streams.mainPage)) ++ "\n*/\n" ++
            String.join (ss.flatMap (·.streams.enums)))) ∧
      (generate "T" "out".toList commonPaths commonPage).workspace.read
          (mainPagePath "out".toList) =
        .ok (Text.bytesOf ("// This file was generated automatically from the C++ source to feed " ++
          "doxygen.  It will be overwritten.\n\n// Generated T\n\n" ++
          "/**\n@mainpage\nOne.\n@page c\nTwo.\n\n*/\n" ++
          "/**\n  * @defgroup EEnum E\n*/\n\n"))) ∧
    ∃ done s e,
      StoppedAt "T" "out".toList refusedPaths refusedSecond done s e
        (generate "T" "out".toList refusedPaths refusedSecond).workspace ∧
      (generate "T" "out".toList refusedPaths refusedSecond).result = .error (.scan s.path e) ∧
      (generate "T" "out".toList refusedPaths refusedSecond).workspace.get?
        ["out".toList, Header.mainPageFile.toList] = none := by
  have hok : (generate "T" "out".toList commonPaths commonPage).result = .ok () := by
    decide +kernel
  have hrefused : (generate "T" "out".toList refusedPaths refusedSecond).result =
      .error (.scan "b.cpp".toList ⟨2, "@luafunc b"⟩) := by decide +kernel
  constructor
  · rcases generate_cases readable_commonPage (by rw [hok]; exact nofun) with
      ⟨ss, between, hscanned, -, -, hpage, htext⟩ | ⟨_, _, _, -, herror, -⟩
    · exact ⟨ss, between, hscanned, hpage.trans (by rw [htext]), by decide +kernel⟩
    · rw [hok] at herror
      cases herror
  · have hwrite : ∀ path f, (generate "T" "out".toList refusedPaths refusedSecond).result ≠
        .error (.unwritable path f) := by
      rw [hrefused]
      exact nofun
    rcases generate_cases readable_refusedSecond hwrite with
      ⟨ss, between, -, h, -⟩ | ⟨done, s, e, hstop, herror, -, -, hpage⟩
    · rw [hrefused] at h
      cases h
    · refine ⟨done, s, e, hstop, herror, ?_⟩
      have hplace : refusedSecond.resolve (mainPagePath "out".toList) =
          .ok ["out".toList, Header.mainPageFile.toList] := by decide +kernel
      exact (hpage _ hplace).trans (by decide +kernel)

/-- Every input that has something to say finds its header in the directory. -/
def HeadersKept (generated : String) (dir : List Char) (ss : List Source) (after : Workspace) :
    Prop :=
  ∀ s ∈ ss, ∀ text, s.header? generated = some text →
    after.read (headerPath dir s.path) = .ok (Text.bytesOf text)

/-- Under each name stands the header of the last input that has one of this name. -/
theorem read_headerPath {before later : List Source} {text : String}
    (h : w.writeAll dir (headers generated (before ++ s :: later) ++ [mainPage generated ss]) =
      .ok after)
    (hs : s.header? generated = some text)
    (hlater : ∀ t ∈ later, (t.header? generated).isSome = true →
      Header.outputName t.path ≠ Header.outputName s.path) :
    after.read (headerPath dir s.path) = .ok (Text.bytesOf text) := by
  have hheader : headers generated [s] = [(Header.outputName s.path, text)] := by
    simp [headers, hs]
  rw [headers_append, headers_cons, hheader, List.append_assoc, List.append_assoc,
    List.singleton_append] at h
  rw [headerPath]
  refine Workspace.read_writeAll h ?_ (isName_outputName s.path) ?_
  · intro f hf
    rcases List.mem_append.mp hf with hf | hf
    · exact isName_of_mem_headers f hf
    · rw [List.mem_singleton.mp hf]
      exact isName_mainPageFile
  · rw [List.map_append, List.mem_append, not_or]
    constructor
    · intro hmem
      obtain ⟨f, hf, hname⟩ := List.mem_map.mp hmem
      obtain ⟨t, ht, text', htext', rfl⟩ := mem_headers_iff.mp hf
      exact hlater t ht (by rw [htext']; rfl) hname
    · simpa [mainPage] using outputName_ne_mainPageFile s.path

/-- The last input that has a header of the same name. -/
theorem exists_last_header (hs : s ∈ ss) (hheader : (s.header? generated).isSome = true) :
    ∃ before t later, ss = before ++ t :: later ∧ (t.header? generated).isSome = true ∧
      Header.outputName t.path = Header.outputName s.path ∧
      ∀ u ∈ later, (u.header? generated).isSome = true →
        Header.outputName u.path ≠ Header.outputName t.path := by
  induction ss generalizing s with
  | nil => cases hs
  | cons t ss ih =>
    by_cases hlater : ∃ u ∈ ss, (u.header? generated).isSome = true ∧
        Header.outputName u.path = Header.outputName s.path
    · obtain ⟨u, hu, husome, huname⟩ := hlater
      obtain ⟨before, v, later, rfl, hv, hvname, hlast⟩ := ih hu husome
      exact ⟨t :: before, v, later, rfl, hv, hvname.trans huname, hlast⟩
    · have hst : s = t :=
        (List.mem_cons.mp hs).resolve_right fun hs => hlater ⟨s, hs, hheader, rfl⟩
      subst hst
      exact ⟨[], s, ss, rfl, hheader, rfl, fun u hu husome huname =>
        hlater ⟨u, hu, husome, huname⟩⟩

/-- **The runs that lose no header.**  In a run that succeeds, all supported inputs are scanned in
order, and under the name of a header stands that of the last input that has one of this name.  So
all headers are kept exactly if inputs whose headers have one name have one header. -/
theorem headersKept_iff (hok : (generate generated dir paths w).result = .ok ()) :
    ∃ ss between, ScannedAll generated dir paths w ss between ∧
      (∀ before s later text, ss = before ++ s :: later → s.header? generated = some text →
        (∀ t ∈ later, (t.header? generated).isSome = true →
          Header.outputName t.path ≠ Header.outputName s.path) →
        (generate generated dir paths w).workspace.read (headerPath dir s.path) =
          .ok (Text.bytesOf text)) ∧
      (HeadersKept generated dir ss (generate generated dir paths w).workspace ↔
        ∀ s ∈ ss, ∀ t ∈ ss, (s.header? generated).isSome = true →
          (t.header? generated).isSome = true →
          Header.outputName s.path = Header.outputName t.path →
            s.header? generated = t.header? generated) := by
  obtain ⟨ss, hss, hwritten⟩ := exists_scannedAll hok
  have hlast : ∀ before s later text, ss = before ++ s :: later → s.header? generated = some text →
      (∀ t ∈ later, (t.header? generated).isSome = true →
        Header.outputName t.path ≠ Header.outputName s.path) →
      (generate generated dir paths w).workspace.read (headerPath dir s.path) =
        .ok (Text.bytesOf text) := by
    intro before s later text hsplit hs hlater
    rw [hsplit] at hwritten
    exact read_headerPath hwritten hs hlater
  refine ⟨ss, _, hss, hlast, ?_, ?_⟩
  · -- two headers of one name stand at one place
    intro hkept s hs t ht hsome htsome hname
    obtain ⟨text, htext⟩ := Option.isSome_iff_exists.mp hsome
    obtain ⟨text', htext'⟩ := Option.isSome_iff_exists.mp htsome
    have hplace := hkept s hs text htext
    rw [headerPath, hname, ← headerPath, hkept t ht text' htext'] at hplace
    rw [htext, htext', Text.bytesOf_injective (Except.ok.inj hplace)]
  · intro hsame s hs text htext
    have hsome : (s.header? generated).isSome = true := by rw [htext]; rfl
    obtain ⟨before, t, later, hsplit, htsome, hname, hlater⟩ := exists_last_header hs hsome
    have ht : t ∈ ss := by simp [hsplit]
    have hheader := hsame t ht s hs htsome hsome hname
    have hplace := hlast before t later text hsplit (hheader.trans htext) hlater
    rwa [headerPath, hname] at hplace

/-- Two inputs of one name in different directories. -/
def namesakes : Workspace :=
  { entries := [(["a".toList], .dir), (["b".toList], .dir), (["out".toList], .dir),
      (["a".toList, "x.cpp".toList], .file (Text.bytesOf "REGISTER_LUA_CLASS(A);")),
      (["b".toList, "x.cpp".toList], .file (Text.bytesOf "REGISTER_LUA_CLASS(B);"))] }

/-- These inputs in order. -/
def namesakePaths : List (List Char) := ["a/x.cpp".toList, "b/x.cpp".toList]

theorem not_headersKept_namesakes : ∃ ss between,
    ScannedAll "T" "out".toList namesakePaths namesakes ss between ∧
      ¬ HeadersKept "T" "out".toList ss
        (generate "T" "out".toList namesakePaths namesakes).workspace := by
  obtain ⟨ss, between, hss, -, -⟩ := headersKept_iff (w := namesakes)
    (show (generate "T" "out".toList namesakePaths namesakes).result = .ok () by decide +kernel)
  refine ⟨ss, between, hss, fun hkept => ?_⟩
  have hinputs : supported namesakePaths =
      [("a/x.cpp".toList, .block), ("b/x.cpp".toList, .block)] := by decide
  obtain ⟨⟨path, dialect, text⟩, rest, rfl, hs, -⟩ :=
    List.map_eq_cons_iff.mp (hss.inputs.trans hinputs)
  obtain ⟨u, bytes, hu, hbytes, htext⟩ := hss.read [] _ rest rfl
  cases hu
  cases hs
  have hread : namesakes.read "a/x.cpp".toList =
      .ok (Text.bytesOf "REGISTER_LUA_CLASS(A);") := by decide +kernel
  obtain rfl := Except.ok.inj (hread.symm.trans hbytes)
  cases htext
  -- the header of the second input stands in the place of the first
  have hheader : Source.header? "T" ⟨"a/x.cpp".toList, .block,
      Text.decodeLossy (Text.bytesOf "REGISTER_LUA_CLASS(A);")⟩ =
        some (Header.render
          { classes := [("A", { header := Declaration.classOpening "A" none })] } "T") := by
    decide +kernel
  have hplace := hkept _ List.mem_cons_self _ hheader
  revert hplace
  decide +kernel

end Runs

end BindingDocs
