import BindingDocs.Proofs.Scan.Refusal

/-!
# The lines of a file and the modes they are read in

A line means something only in the mode in which it is read: a command counts in a comment, the end
of a method table inside of it.  The course of a scan is the list of its readings, and the effects
of the scan are those of its readings one after the other.

## Main definitions

* `Reading` — a line with the mode it is read in.
* `readings`, `readingsOf` — the readings of a list of lines and of a text.
* `Reading.tag?`, `Reading.function?`, `Reading.table?` — what a line is read as.
* `Reading.member?` — the one effect of a line on the declarations in a class.

## Main results

* `effects_eq_readings` — the effects of a file are those of its readings, and those of its end.
* `readings_induction` — what every line preserves, read backwards from the end of the file.
* `Reading.role` — what a line can be for the declarations in a class.
* `members_of_effects` — a line has no other effect on declarations than `Reading.member?`.
* `filter_effects_of_file` — the effects of a kind of which a line has at most one.
* `members_of_file` — the same for a file that is read to its end.
-/

namespace BindingDocs.Scan

open Text

/-- A line with the mode it is read in. -/
structure Reading where
  /-- The mode to which the lines before have led. -/
  mode : Mode
  /-- The line as it stands in the file. -/
  raw : List Char

/-- The readings of lines in turn, up to the first line that is refused. -/
def readings (d : Dialect) : Mode → (lines : List (List Char)) → List Reading
  | _, [] => []
  | m, raw :: rest =>
    match m.step d raw with
    | none => []
    | some (m', _) => ⟨m, raw⟩ :: readings d m' rest

/-- The readings of a text. -/
def readingsOf (d : Dialect) (text : List Char) : List Reading := readings d .code (lines text)

namespace Reading

variable {d : Dialect} {r : Reading}

/-- The line as the scanner takes it. -/
def line (d : Dialect) (r : Reading) : List Char := normalise d r.raw

/-- The effects of the line. -/
def effects (d : Dialect) (r : Reading) : List Effect :=
  ((r.mode.step d r.raw).map Prod.snd).getD []

/-- The command of the line, if it is read as a line inside a comment. -/
def tag? (d : Dialect) (r : Reading) : Option Tag :=
  match r.mode with
  | .comment _ =>
    if Registration.ofLine? (r.line d) = none ∧ contains d.closer.toList (r.line d) = false then
      Tag.ofLine? (r.line d)
    else none
  | _ => none

/-- The function that the line documents, if it is an accepted function annotation. -/
def function? (d : Dialect) (r : Reading) : Option Signature :=
  if r.tag? d = some .func then Signature.parse? d (r.line d) else none

/-- The method table that the line ends: its kind, its class, and the names listed in it. -/
def table? (d : Dialect) (r : Reading) : Option (MethodKind × String × List String) :=
  match r.mode with
  | .methods kind names _ =>
    if Registration.ofLine? (r.line d) = none then
      (kind.owner? (r.line d)).map fun owner => (kind, owner, names)
    else none
  | _ => none

/-- The effect of the line on the declarations in a class. -/
def member? (d : Dialect) (r : Reading) : Option Effect :=
  match r.table? d, r.tag? d with
  | some (kind, owner, names), _ => some (kind.table owner names)
  | none, some (.listing owner) => some (.marker owner)
  | none, some .func => (r.function? d).map fun sig => .declare sig (r.line d)
  | none, _ => none

/-- A line is not the end of a method table and a command at once. -/
theorem tag?_of_table? {t : MethodKind × String × List String} (h : r.table? d = some t) :
    r.tag? d = none := by
  obtain ⟨m, raw⟩ := r
  cases m with
  | methods kind names pending => rfl
  | _ => simp [table?] at h

theorem function?_of_tag? (h : r.tag? d ≠ some .func) : r.function? d = none := by
  simp [function?, h]

/-- What a line can be for the declarations in a class. -/
inductive Role (d : Dialect) (r : Reading) : Prop
  | ofTable {kind : MethodKind} {owner : String} {names : List String}
    (htable : r.table? d = some (kind, owner, names)) (htag : r.tag? d = none)
    (hfunction : r.function? d = none) (hmember : r.member? d = some (kind.table owner names)) :
    Role d r
  | ofListing {owner : String} (htable : r.table? d = none)
    (htag : r.tag? d = some (.listing owner)) (hfunction : r.function? d = none)
    (hmember : r.member? d = some (.marker owner)) : Role d r
  | ofFunction {sig : Signature} (htable : r.table? d = none) (htag : r.tag? d = some .func)
    (hfunction : r.function? d = some sig)
    (hmember : r.member? d = some (.declare sig (r.line d))) : Role d r
  | ofOther (htable : r.table? d = none) (htag : ∀ owner, r.tag? d ≠ some (.listing owner))
    (hfunction : r.function? d = none) (hmember : r.member? d = none) : Role d r

/-- Every line is one of these. -/
theorem role (d : Dialect) (r : Reading) : r.Role d := by
  cases htable : r.table? d with
  | some t =>
    obtain ⟨kind, owner, names⟩ := t
    have htag := tag?_of_table? htable
    exact .ofTable htable htag (function?_of_tag? (by simp [htag])) (by simp [member?, htable])
  | none =>
    -- a function annotation that cannot be read has no effect of its own
    by_cases hfunc : r.tag? d = some .func
    · cases hfunction : r.function? d with
      | some sig =>
        exact .ofFunction htable hfunc hfunction (by simp [member?, htable, hfunc, hfunction])
      | none =>
        exact .ofOther htable (by simp [hfunc]) hfunction
          (by simp [member?, htable, hfunc, hfunction])
    · have hfunction := function?_of_tag? hfunc
      cases htag : r.tag? d with
      | none => exact .ofOther htable (by simp [htag]) hfunction (by simp [member?, htable, htag])
      | some tag =>
        cases tag with
        | listing owner =>
          exact .ofListing htable htag hfunction (by simp [member?, htable, htag])
        | func => exact absurd htag hfunc
        | _ => exact .ofOther htable (by simp [htag]) hfunction (by simp [member?, htable, htag])

end Reading

/-- The effects on the declarations in a class. -/
def Effect.isMember : Effect → Bool
  | .methods _ _ | .statics _ _ | .marker _ | .declare _ _ => true
  | _ => false

section Steps

variable {d : Dialect} {r : Reading}

/-- A line whose mode sees a registration on it has no effect on declarations. -/
theorem member?_of_registration {reg : Registration}
    (h : Registration.ofLine? (r.line d) = some reg) : r.member? d = none := by
  have htable : r.table? d = none := by
    unfold Reading.table?
    split <;> simp [h]
  have htag : r.tag? d = none := by
    unfold Reading.tag?
    split <;> simp [h]
  simp [Reading.member?, htable, htag]

/-- Only a function annotation without a method name is refused. -/
theorem tag?_of_step_eq_none (h : r.mode.step d r.raw = none) :
    r.tag? d = some .func ∧ r.function? d = none := by
  obtain ⟨m, raw⟩ := r
  obtain ⟨⟨region, rfl⟩, hline⟩ := step_eq_none_iff.mp h
  have htag := Tag.ofLine?_eq_func_iff.mpr ⟨hline.higher, hline.function⟩
  have hfunc : Reading.tag? d ⟨.comment region, raw⟩ = some .func := by
    simp [Reading.tag?, Reading.line, hline.registration, hline.closer, htag]
  refine ⟨hfunc, ?_⟩
  simpa [Reading.function?, Reading.line, hfunc] using hline.nameless

/-- Effects on the enum stream are of no kind that excludes them. -/
theorem filter_map_enums {p : Effect → Bool} (hp : ∀ fragment, p (.enums fragment) = false)
    (fragments : List String) : (fragments.map Effect.enums).filter p = [] := by
  rw [List.filter_eq_nil_iff]
  intro e he
  obtain ⟨fragment, -, rfl⟩ := List.mem_map.mp he
  simp [hp]

/-- The effects of a command on declarations. -/
theorem members_of_tagTransition {region region' : Region} {es : List Effect} {raw : List Char}
    (hreg : Registration.ofLine? (normalise d raw) = none)
    (hclose : contains d.closer.toList (normalise d raw) = false)
    (ht : TagTransition d (normalise d raw) region region' es) :
    es.filter Effect.isMember = (Reading.member? d ⟨.comment region, raw⟩).toList := by
  have htag : Reading.tag? d ⟨.comment region, raw⟩ = Tag.ofLine? (normalise d raw) := by
    simp [Reading.tag?, Reading.line, hreg, hclose]
  have htable : Reading.table? d ⟨.comment region, raw⟩ = none := rfl
  cases ht with
  | @func sig h hsig =>
    have hfunction : Reading.function? d ⟨.comment region, raw⟩ = some sig := by
      rw [Reading.function?, htag, if_pos h]
      exact hsig
    unfold Mode.funcEffects
    split <;> simp [Reading.member?, htable, htag, h, hfunction, Reading.line, Effect.isMember]
  | enum h =>
    unfold Mode.enumEffects
    split <;> simp [Reading.member?, htable, htag, h, Effect.isMember]
  | freeText h =>
    have hmember : Reading.member? d ⟨.comment region, raw⟩ = none := by
      simp [Reading.member?, htable, htag, h]
    rw [hmember]
    unfold Mode.freeText
    split
    · rfl
    split
    · rfl
    split <;> rfl
  | @listing name h =>
    have hmember : Reading.member? d ⟨.comment region, raw⟩ = some (.marker name) := by
      simp only [Reading.member?, htable, htag, h]
    rw [hmember]
    rfl
  | page h | par h | geom h | ofClass h | ofVirtualClass h | descr h =>
    simp [Reading.member?, htable, htag, h, Effect.isMember]

/-- **A line has no other effect on declarations.** -/
theorem members_of_effects (r : Reading) :
    (r.effects d).filter Effect.isMember = (r.member? d).toList := by
  rcases hstep : r.mode.step d r.raw with _ | ⟨m', es⟩
  · -- a line that is refused has no effects
    obtain ⟨htag, hfunction⟩ := tag?_of_step_eq_none hstep
    have htable : r.table? d = none := by
      obtain ⟨m, raw⟩ := r
      cases m with
      | comment region => rfl
      | _ => simp [Reading.tag?] at htag
    simp [Reading.effects, hstep, Reading.member?, htable, htag, hfunction]
  · obtain ⟨m, raw⟩ := r
    have heffects : Reading.effects d ⟨m, raw⟩ = es := by simp [Reading.effects, hstep]
    rw [heffects]
    cases Mode.transition_of_step hstep with
    | register hm hreg => simp [member?_of_registration (r := ⟨m, raw⟩) hreg, Effect.isMember]
    | tag hreg hclose ht => exact members_of_tagTransition hreg hclose ht
    | @endTable kind names pending owner hreg howner =>
      cases kind <;>
        simp [Reading.member?, Reading.table?, Reading.line, hreg, howner, MethodKind.table,
          Effect.isMember]
    | listMethod hreg howner =>
      simp [Reading.member?, Reading.table?, Reading.tag?, Reading.line, hreg, howner]
    | closeBlock hreg hclose =>
      simp [Reading.member?, Reading.table?, Reading.tag?, Reading.line, hreg, hclose,
        Effect.isMember]
    | startRows hreg hstart hopen hdef => rw [filter_map_enums fun _ => rfl]; rfl
    | row hmore => rw [filter_map_enums fun _ => rfl]; rfl
    | lastRow hlast => rw [filter_map_enums fun _ => rfl]; rfl
    | openBlock hreg hstart hopen => rfl
    | interruptByBlock hreg hstart hopen => rfl
    | startTable hreg hstart => rfl
    | passCode hreg hstart hopen => rfl
    | interruptByTable hreg hstart => rfl
    | passAwaiting hreg hstart hopen hdef => rfl

/-- Where a line has at most one effect of a kind, lines have these effects in order. -/
theorem filter_flatMap_effects {p : Effect → Bool} {g : Reading → Option Effect}
    (h : ∀ r : Reading, (r.effects d).filter p = (g r).toList) (rs : List Reading) :
    (rs.flatMap (Reading.effects d)).filter p = rs.filterMap g := by
  induction rs with
  | nil => rfl
  | cons r rs ih =>
    rw [List.flatMap_cons, List.filter_append, h, ih, List.filterMap_cons]
    cases g r <;> rfl

/-- The effects of lines on declarations, in order. -/
theorem filter_isMember_effects (rs : List Reading) :
    (rs.flatMap (Reading.effects d)).filter Effect.isMember = rs.filterMap (Reading.member? d) :=
  filter_flatMap_effects members_of_effects rs

end Steps

/-! ### Whole files -/

/-- The effects of lines read to the end are those of their readings. -/
theorem flatMap_effects_readings {d : Dialect} {n : Nat} {m m' : Mode} {ls : List (List Char)}
    {es : List Effect} (h : runLines d n m ls = (es, .ok m')) :
    es = (readings d m ls).flatMap (Reading.effects d) := by
  induction ls generalizing n m es with
  | nil =>
    cases h
    rfl
  | cons raw rest ih =>
    obtain ⟨m₁, es₁, es₂, hstep, hrest, rfl⟩ := runLines_cons_ok h
    have heffects : Reading.effects d ⟨m, raw⟩ = es₁ := by simp [Reading.effects, hstep]
    rw [readings, hstep, ih hrest]
    simp [heffects]

/-- **The effects of a file are those of its readings and of its end.** -/
theorem effects_eq_readings {d : Dialect} {text : List Char} {es : List Effect}
    (h : effects d text = (es, none)) :
    ∃ m : Mode, es = (readingsOf d text).flatMap (Reading.effects d) ++ m.finish := by
  obtain ⟨m, es', hrun, rfl⟩ := effects_eq_none h
  exact ⟨m, by rw [flatMap_effects_readings hrun, readingsOf]⟩

/-- **Induction along the readings of a file**, backwards from its end.  `P m es rs` speaks of the
effects `es` that are still to come in the mode `m`, and of the lines `rs` still to be read. -/
theorem readings_induction {d : Dialect} {text : List Char} {es : List Effect}
    {P : Mode → List Effect → List Reading → Prop} (hfinish : ∀ m : Mode, P m m.finish [])
    (hstep : ∀ raw m m' es rest rs, Mode.step d m raw = some (m', es) → P m' rest rs →
      P m (es ++ rest) (⟨m, raw⟩ :: rs))
    (h : effects d text = (es, none)) : P .code es (readingsOf d text) := by
  obtain ⟨m', es', hrun, rfl⟩ := effects_eq_none h
  clear h
  rw [readingsOf]
  generalize lines text = ls at hrun ⊢
  generalize Mode.code = m at hrun ⊢
  generalize 1 = n at hrun
  induction ls generalizing m n es' with
  | nil =>
    cases hrun
    exact hfinish m'
  | cons raw rest ih =>
    obtain ⟨m₁, es₁, es₂, hfirst, hlater, rfl⟩ := runLines_cons_ok hrun
    rw [List.append_assoc, readings, hfirst]
    exact hstep raw m m₁ es₁ _ _ hfirst (ih es₂ m₁ (n + 1) hlater)

/-- The end of a file writes comments, enums and messages only. -/
theorem filter_finish {p : Effect → Bool} (hcomment : ∀ fragment, p (.comment fragment) = false)
    (henums : ∀ fragment, p (.enums fragment) = false) (hnotice : ∀ n, p (.notice n) = false)
    (m : Mode) : m.finish.filter p = [] := by
  cases m with
  | comment r =>
    obtain ⟨mainPage, hasCommand, pending⟩ := r
    cases pending <;> simp [Mode.finish, Mode.warning, hcomment, henums, hnotice]
  | methods kind names pending =>
    cases pending <;> simp [Mode.finish, Mode.warning, henums, hnotice]
  | code => rfl
  | awaiting spec => simp [Mode.finish, Mode.warning, henums, hnotice]
  | rows spec =>
    rw [Mode.finish, List.filter_cons, filter_map_enums henums]
    simp [Mode.warning, hnotice]

/-- Where a line has at most one effect of a kind and the end of a file none, a file has those of
its lines. -/
theorem filter_effects_of_file {d : Dialect} {text : List Char} {es : List Effect}
    {p : Effect → Bool} {g : Reading → Option Effect}
    (hline : ∀ r : Reading, (r.effects d).filter p = (g r).toList)
    (hend : ∀ m : Mode, m.finish.filter p = []) (h : effects d text = (es, none)) :
    es.filter p = (readingsOf d text).filterMap g := by
  obtain ⟨m, rfl⟩ := effects_eq_readings h
  rw [List.filter_append, hend, filter_flatMap_effects hline, List.append_nil]

/-- **The effects of a file on declarations are those of its lines.** -/
theorem members_of_file {d : Dialect} {text : List Char} {es : List Effect}
    (h : effects d text = (es, none)) :
    es.filter Effect.isMember = (readingsOf d text).filterMap (Reading.member? d) :=
  filter_effects_of_file members_of_effects
    (filter_finish (fun _ => rfl) (fun _ => rfl) (fun _ => rfl)) h

end BindingDocs.Scan
