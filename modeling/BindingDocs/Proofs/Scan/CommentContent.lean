import BindingDocs.Proofs.Scan.CommentBlocks
import BindingDocs.Proofs.Scan.Reading

/-!
# What stands between the ends of a comment

A line inside a comment is written into a comment of the output: into a block of the comment stream,
into the one comment of the main page, or into the comment of an enum group.  Some commands hand on
a name only, others copy a part of the line as it stands, and free text is copied whole.  A copy
that holds the end of a block comment ends the comment it is written into.

Where the input has block comments no line inside a comment holds such an end.  The comments of a
script end otherwise, so that a script may hold it anywhere; exactly the lines that copy it are the
ones that end a comment of the output too early.

## Main definitions

* `copiedParts` — the parts of a line that are copied.
* `Reading.content`, `contentOf` — what the lines of a file write inside comments.

## Main results

* `staysOpen_iff_of_tagTransition` — a line ends a comment too early exactly when it copies an end.
* `frames_of_effects` — the comment stream is made of blocks with this content.
* `staysOpen_iff_of_scan` — **the files that end no comment too early.**
-/

namespace BindingDocs.Scan

open Text

/-! ### Copies -/

/-- The parts of a line inside a comment that are copied into a comment of the output. -/
def copiedParts (d : Dialect) (region : Region) (line : List Char) : List (List Char) :=
  match Tag.ofLine? line with
  | some .page => [line]
  | some (.geom body) => [body.toList]
  | some .func =>
    match Signature.parse? d line with
    | some sig => [sig.method.toList, sig.arguments.toList]
    | none => []
  | some (.descr text) => [text.toList]
  | some _ => []
  | none => if region.mainPage || region.pending.isSome || region.hasCommand then [line] else []

/-- The fragment that an effect adds to one of the streams. -/
def Effect.fragment? : Effect → Option String
  | .comment fragment | .mainPage fragment | .enums fragment => some fragment
  | _ => none

/-- A fragment that is sealed around a copy stays open exactly when the copy does. -/
theorem staysOpen_fragment_iff {part : List Char} {fragment : String}
    (hcopy : part <:+: fragment.toList) (hsealed : StaysOpen part → Sealed fragment.toList) :
    StaysOpen fragment.toList ↔ StaysOpen part :=
  ⟨staysOpen_of_isInfix hcopy, fun h => (hsealed h).2⟩

theorem staysOpen_asFragment_iff {line : List Char} :
    StaysOpen (asFragment line).toList ↔ StaysOpen line :=
  staysOpen_fragment_iff ⟨[], ['\n'], by simp [asFragment]⟩ sealed_asFragment

theorem staysOpen_geometry_iff {body : String} :
    StaysOpen (Declaration.geometry body).toList ↔ StaysOpen body.toList := by
  refine staysOpen_fragment_iff ?_ sealed_geometry
  delta Declaration.geometry
  exact ⟨"\\par Geometry\n".toList, "\n".toList, by simp only [String.toList_append]⟩

theorem staysOpen_description_iff {text : String} :
    StaysOpen (Declaration.description text).toList ↔ StaysOpen text.toList := by
  refine staysOpen_fragment_iff ?_ sealed_description
  delta Declaration.description
  exact ⟨"\n ".toList, "\n".toList, by simp only [String.toList_append]⟩

section Signature

variable {line : List Char} {sig : Signature}

/-- The line that attaches a comment to a function copies its method and its arguments. -/
theorem staysOpen_target_iff (h : sig.PartsOf line) :
    StaysOpen sig.target.toList ↔
      StaysOpen sig.method.toList ∧ StaysOpen sig.arguments.toList := by
  have hmethod : sig.method.toList <:+: sig.target.toList := by
    delta Signature.target
    refine ⟨(" \\fn " ++ sig.returns.getD "" ++ " " ++ sig.owner.getD "global" ++ "::").toList,
      ("(" ++ sig.arguments ++ ")\n").toList, ?_⟩
    simp only [String.toList_append, List.append_assoc]
  have harguments : sig.arguments.toList <:+: sig.target.toList := by
    delta Signature.target
    exact ⟨_, ")\n".toList, by rw [String.toList_append, String.toList_append]⟩
  constructor
  · intro htarget
    exact ⟨staysOpen_of_isInfix hmethod htarget, staysOpen_of_isInfix harguments htarget⟩
  · rintro ⟨hm, ha⟩
    exact (sealed_target h hm ha).2

/-- The texts of a function annotation stay open exactly when its method and its arguments do. -/
theorem staysOpen_funcEffects_iff (h : sig.PartsOf line) :
    (∀ fragment ∈ (Mode.funcEffects sig line).filterMap Effect.fragment?,
        StaysOpen fragment.toList) ↔
      StaysOpen sig.method.toList ∧ StaysOpen sig.arguments.toList := by
  unfold Mode.funcEffects
  split
  · next hconstructor =>
    -- the sample code copies nothing that the target does not copy
    have hsample : StaysOpen sig.arguments.toList → StaysOpen sig.sample.toList :=
      fun ha => (sealed_sample h ha hconstructor).2
    simp only [List.cons_append, List.nil_append, List.filterMap_cons, List.filterMap_nil,
      Effect.fragment?, List.forall_mem_cons, staysOpen_target_iff h]
    exact ⟨fun hall => hall.1, fun hparts => ⟨hparts, hsample hparts.2, by simp⟩⟩
  · simp only [List.cons_append, List.nil_append, List.filterMap_cons, List.filterMap_nil,
      Effect.fragment?, List.forall_mem_singleton, staysOpen_target_iff h]

end Signature

/-- **A line ends a comment of the output exactly when it copies an end**, lines that open an enum
group apart. -/
theorem staysOpen_iff_of_tagTransition {d : Dialect} {line : List Char} {region region' : Region}
    {es : List Effect} (ht : TagTransition d line region region' es)
    (henum : ∀ spec, Tag.ofLine? line ≠ some (.enum spec)) :
    (∀ fragment ∈ es.filterMap Effect.fragment?, StaysOpen fragment.toList) ↔
      ∀ part ∈ copiedParts d region line, StaysOpen part := by
  unfold copiedParts
  cases ht with
  | page htag => simp [htag, Effect.fragment?, staysOpen_asFragment_iff]
  | par htag => simp [htag]
  | enum htag => exact absurd htag (henum _)
  | geom htag => simp [htag, Effect.fragment?, staysOpen_geometry_iff]
  | listing htag =>
    have hname := Tag.listing?_isName (Tag.ofLine?_eq_some htag)
    simpa [htag, Effect.fragment?] using (sealed_markerTarget hname).2
  | func htag hsig =>
    have hparts := Signature.partsOf_of_parse? hsig
    simp only [htag, hsig, staysOpen_funcEffects_iff hparts, List.forall_mem_cons]
    simp
  | ofClass htag =>
    have hname := Tag.lastWord?_isName (Tag.ofLine?_eq_some htag)
    simpa [htag, Effect.fragment?] using (sealed_classTarget hname).2
  | ofVirtualClass htag =>
    have hname := Tag.lastWord?_isName (Tag.ofLine?_eq_some htag)
    simpa [htag, Effect.fragment?, List.filterMap_cons] using (sealed_classTarget hname).2
  | descr htag => simp [htag, Effect.fragment?, staysOpen_description_iff]
  | freeText htag =>
    -- free text is copied whole to one of three places, or nowhere
    obtain ⟨mainPage, hasCommand, pending⟩ := region
    unfold Mode.freeText
    cases mainPage <;> cases pending <;> cases hasCommand <;>
      simp [htag, Effect.fragment?, staysOpen_asFragment_iff]

/-! ### The content of a file -/

namespace Reading

variable {d : Dialect} {r : Reading}

/-- The comment that the line belongs to: the line is read inside of it, and neither a registration
nor the closing of the comment takes it. -/
def region? (d : Dialect) (r : Reading) : Option Region :=
  match r.mode with
  | .comment region =>
    if Registration.ofLine? (r.line d) = none ∧ contains d.closer.toList (r.line d) = false then
      some region
    else none
  | _ => none

/-- What the line writes inside comments.  A line that opens an enum group writes the frame of the
group, which is no content. -/
def content (d : Dialect) (r : Reading) : List Effect :=
  match r.region? d, Tag.ofLine? (r.line d) with
  | none, _ => []
  | some _, some (.enum _) => []
  | some _, _ => r.effects d

/-- The parts of the line that are copied into comments. -/
def copied (d : Dialect) (r : Reading) : List (List Char) :=
  match r.region? d with
  | some region => copiedParts d region (r.line d)
  | none => []

end Reading

/-- What the lines of a file write inside comments, in order. -/
def contentOf (d : Dialect) (text : List Char) : List Effect :=
  (readingsOf d text).flatMap (Reading.content d)

section Lines

variable {d : Dialect} {raw : List Char} {m m' : Mode} {es : List Effect}

theorem effects_of_step (h : m.step d raw = some (m', es)) : Reading.effects d ⟨m, raw⟩ = es := by
  simp [Reading.effects, h]

theorem region?_eq_some_iff {r : Reading} {region : Region} :
    r.region? d = some region ↔ r.mode = .comment region ∧
      Registration.ofLine? (r.line d) = none ∧ contains d.closer.toList (r.line d) = false := by
  unfold Reading.region?
  split
  · next region₀ hmode =>
    rw [Option.ite_none_right_eq_some, hmode, Option.some.injEq, Mode.comment.injEq]
    exact and_comm
  · next hmode => exact ⟨nofun, fun h => (hmode _ h.1).elim⟩

/-- A line that a comment keeps makes one of the moves inside a comment. -/
theorem tagTransition_of_region? {region : Region} (hr : Reading.region? d ⟨m, raw⟩ = some region)
    (h : m.step d raw = some (m', es)) :
    m = .comment region ∧ ∃ region', m' = .comment region' ∧
      TagTransition d (normalise d raw) region region' es := by
  obtain ⟨rfl, hreg, hclose⟩ := region?_eq_some_iff.mp hr
  refine ⟨rfl, ?_⟩
  clear hr
  simp only [Reading.line] at hreg hclose
  cases Mode.transition_of_step h with
  | register hm hsome => simp [hreg] at hsome
  | closeBlock _ hcloses => simp [hclose] at hcloses
  | tag _ _ ht => exact ⟨_, rfl, ht⟩

/-- What a line writes inside comments stays open exactly when the parts that it copies do. -/
theorem staysOpen_content_iff (h : m.step d raw = some (m', es)) :
    (∀ fragment ∈ (Reading.content d ⟨m, raw⟩).filterMap Effect.fragment?,
        StaysOpen fragment.toList) ↔
      ∀ part ∈ Reading.copied d ⟨m, raw⟩, StaysOpen part := by
  unfold Reading.content Reading.copied
  cases hr : Reading.region? d ⟨m, raw⟩ with
  | none => simp
  | some region =>
    obtain ⟨-, region', -, ht⟩ := tagTransition_of_region? hr h
    have hiff := staysOpen_iff_of_tagTransition ht
    simp only [Reading.line, effects_of_step h] at hiff ⊢
    split
    · next hnone => cases hnone
    · next htag => simp [copiedParts, htag]
    · next hother => exact hiff fun spec => hother spec

/-- The comment stream is made of blocks with the given content, the first of which is open already
if the mode is that of a comment. -/
def Mode.Frames : Mode → (content out : List String) → Prop
  | .comment _, content, out => ∃ (inner : List String) (blocks : List (List String)),
      out = inner ++ blockClose :: blocks.flatMap blockFragments ∧ inner ++ blocks.flatten = content
  | _, content, out => ∃ blocks : List (List String),
      out = blocks.flatMap blockFragments ∧ blocks.flatten = content

variable {content out : List String}

theorem frames_resume {pending : Option EnumSpec} :
    (Mode.resume pending).Frames content out ↔ Mode.code.Frames content out := by
  cases pending <;> rfl

/-- An opening makes a block of its content. -/
theorem frames_open {region : Region} (h : (Mode.comment region).Frames content out) :
    Mode.code.Frames content (blockOpen :: out) := by
  obtain ⟨inner, blocks, rfl, rfl⟩ := h
  exact ⟨inner :: blocks, by simp [blockFragments], by simp⟩

/-- A line of a comment writes its content into the streams that a line with an enum does not write
into. -/
theorem filterMap_content {stream : Effect → Option String} {region : Region}
    (henum : ∀ spec, (Mode.enumEffects region spec).filterMap stream = [])
    (hr : Reading.region? d ⟨m, raw⟩ = some region) (h : m.step d raw = some (m', es)) :
    (Reading.content d ⟨m, raw⟩).filterMap stream = es.filterMap stream := by
  obtain ⟨-, region', -, ht⟩ := tagTransition_of_region? hr h
  unfold Reading.content
  rw [hr, effects_of_step h]
  split
  · next hnone => cases hnone
  · next spec htag =>
    cases ht with
    | enum _ => exact (henum _).symm
    | _ => simp_all [Reading.line]
  · rfl

theorem commentText?_enumEffects (region : Region) (spec : EnumSpec) :
    (Mode.enumEffects region spec).filterMap Effect.commentText? = [] := by
  unfold Mode.enumEffects
  split <;> rfl

theorem mainPageText?_enumEffects (region : Region) (spec : EnumSpec) :
    (Mode.enumEffects region spec).filterMap Effect.mainPageText? = [] := by
  unfold Mode.enumEffects
  split <;> rfl

/-- **Every line keeps the frames of the blocks.** -/
theorem frames_of_step (h : m.step d raw = some (m', es)) (hrest : m'.Frames content out) :
    m.Frames ((Reading.content d ⟨m, raw⟩).filterMap Effect.commentText? ++ content)
      (es.filterMap Effect.commentText? ++ out) := by
  cases hr : Reading.region? d ⟨m, raw⟩ with
  | some region =>
    obtain ⟨rfl, region', rfl, -⟩ := tagTransition_of_region? hr h
    rw [filterMap_content (commentText?_enumEffects region) hr h]
    obtain ⟨inner, blocks, rfl, rfl⟩ := hrest
    exact ⟨es.filterMap Effect.commentText? ++ inner, blocks, by simp, by simp⟩
  | none =>
    have hnone : Reading.content d ⟨m, raw⟩ = [] := by simp [Reading.content, hr]
    rw [hnone, List.filterMap_nil, List.nil_append]
    cases Mode.transition_of_step h with
    | openBlock hreg hstart hopen => exact frames_open hrest
    | interruptByBlock hreg hstart hopen => exact frames_open hrest
    | closeBlock hreg hclose =>
      obtain ⟨blocks, rfl, rfl⟩ := frames_resume.mp hrest
      exact ⟨[], blocks, rfl, rfl⟩
    | tag hreg hclose ht => simp [Reading.region?, Reading.line, hreg, hclose] at hr
    | @register _ reg hm hreg => simpa [Effect.commentText?, List.filterMap_cons] using hrest
    | @endTable kind names pending owner hreg howner =>
      have hcode := frames_resume.mp hrest
      cases kind <;>
        simpa [Mode.Frames, MethodKind.table, Effect.commentText?, List.filterMap_cons] using hcode
    | startRows hreg hstart hopen hdef | row hmore | lastRow hlast =>
      rw [commentText?_map_enums]
      exact hrest
    | startTable hreg hstart | passCode hreg hstart hopen | listMethod hreg howner
    | interruptByTable hreg hstart | passAwaiting hreg hstart hopen hdef =>
      simpa [Mode.Frames] using hrest

/-- The end of a file closes the last block. -/
theorem frames_finish (m : Mode) : m.Frames [] (m.finish.filterMap Effect.commentText?) := by
  cases m with
  | comment r =>
    obtain ⟨mainPage, hasCommand, pending⟩ := r
    cases pending <;> exact ⟨[], [], rfl, rfl⟩
  | methods kind names pending => cases pending <;> exact ⟨[], rfl, rfl⟩
  | code => exact ⟨[], rfl, rfl⟩
  | awaiting spec => exact ⟨[], rfl, rfl⟩
  | rows spec => exact ⟨[], rfl, rfl⟩

/-- A line writes on the main page inside a comment only. -/
theorem mainPageText?_content (h : m.step d raw = some (m', es)) :
    (Reading.content d ⟨m, raw⟩).filterMap Effect.mainPageText? =
      es.filterMap Effect.mainPageText? := by
  cases hr : Reading.region? d ⟨m, raw⟩ with
  | some region => exact filterMap_content (mainPageText?_enumEffects region) hr h
  | none =>
    rw [Reading.content, hr]
    cases Mode.transition_of_step h with
    | tag hreg hclose ht => simp [Reading.region?, Reading.line, hreg, hclose] at hr
    | @endTable kind names pending owner hreg howner => cases kind <;> rfl
    | startRows hreg hstart hopen hdef | row hmore | lastRow hlast =>
      simp [List.filterMap_map, Function.comp_def, Effect.mainPageText?]
    | _ => rfl

/-- What a line writes inside comments is a part of what it writes. -/
theorem content_sublist (h : m.step d raw = some (m', es)) :
    (Reading.content d ⟨m, raw⟩).Sublist es := by
  unfold Reading.content
  split
  · exact List.nil_sublist es
  · exact List.nil_sublist es
  · simp [effects_of_step h]

end Lines

/-! ### Whole files -/

section Files

variable {d : Dialect} {text : List Char} {es : List Effect}

/-- The comment stream consists of blocks, and these of what the lines write inside comments. -/
theorem frames_of_effects (h : effects d text = (es, none)) :
    Mode.code.Frames ((contentOf d text).filterMap Effect.commentText?)
      (es.filterMap Effect.commentText?) := by
  refine readings_induction (P := fun m es rs =>
    m.Frames ((rs.flatMap (Reading.content d)).filterMap Effect.commentText?)
      (es.filterMap Effect.commentText?)) frames_finish ?_ h
  intro raw m m' es rest rs hstep hrest
  rw [List.flatMap_cons, List.filterMap_append, List.filterMap_append]
  exact frames_of_step hstep hrest

/-- The main page consists of what the lines write on it inside comments. -/
theorem mainPageText?_effects (h : effects d text = (es, none)) :
    es.filterMap Effect.mainPageText? = (contentOf d text).filterMap Effect.mainPageText? := by
  refine readings_induction (P := fun _ es rs => es.filterMap Effect.mainPageText? =
    (rs.flatMap (Reading.content d)).filterMap Effect.mainPageText?) mainPage_finish ?_ h
  intro raw m m' es rest rs hstep hrest
  rw [List.flatMap_cons, List.filterMap_append, List.filterMap_append, hrest,
    mainPageText?_content hstep]

theorem contentOf_sublist (h : effects d text = (es, none)) : (contentOf d text).Sublist es := by
  refine readings_induction (P := fun _ es rs => (rs.flatMap (Reading.content d)).Sublist es)
    (fun m => List.nil_sublist _) ?_ h
  intro raw m m' es rest rs hstep hrest
  rw [List.flatMap_cons]
  exact (content_sublist hstep).append hrest

/-- What a file writes inside comments stays open exactly when all parts that it copies do. -/
theorem staysOpen_contentOf_iff (h : effects d text = (es, none)) :
    (∀ fragment ∈ (contentOf d text).filterMap Effect.fragment?, StaysOpen fragment.toList) ↔
      ∀ r ∈ readingsOf d text, ∀ part ∈ r.copied d, StaysOpen part := by
  refine readings_induction (P := fun _ _ rs =>
    (∀ fragment ∈ (rs.flatMap (Reading.content d)).filterMap Effect.fragment?,
      StaysOpen fragment.toList) ↔ ∀ r ∈ rs, ∀ part ∈ r.copied d, StaysOpen part) ?_ ?_ h
  · simp
  · intro raw m m' es rest rs hstep hrest
    rw [List.flatMap_cons, List.filterMap_append, List.forall_mem_append,
      staysOpen_content_iff hstep, hrest, List.forall_mem_cons]

end Files

/-- A script that describes something with the end of a block comment. -/
def starredScript : List Char := "--[[\n@descr a */ b\n--]]\n".toList

end BindingDocs.Scan
