import BindingDocs.Header
import BindingDocs.Proofs.Scan.Capture
import BindingDocs.Proofs.Scan.ClassBody
import BindingDocs.Proofs.Text.Replace
import Mathlib.Data.List.Induction

/-!
# The opening of a class

A class gets its opening from a registration, which always writes it, or from a virtual class or a
method table for the class itself, which write it only if there is none.  Other lines refer to a
class without opening it.  Here the opening of one class is followed on its own through the effects
of a file, and read off its lines in the end: the last registration decides, whatever comes before,
between or after.

The header of a file closes every class that some line refers to.  It opens only those that some
line opens, so a file may close a class that it never opened.

## Main definitions

* `Reading.registers`, `Reading.opens`, `Reading.refersTo` — what a line does for a class.
* `registrationsOf` — the registrations of a class, in order.
* `openingOf` — the opening of a class, given its last registration.
* `Effect.onHeader` — what an effect does to the opening of a class.

## Main results

* `openings_of_effects` — a line has no other effect on openings than `Reading.opening?`.
* `foldl_onHeader` — the opening after any effects.
* `header_of_scan` — **which opening a class has.**
* `mem_names_of_scan` — the classes of a file are those that its lines refer to.
* `opened_iff_of_scan` — **when every class that is closed has been opened.**
-/

namespace BindingDocs

/-! ### Names in the table -/

namespace ClassTable

/-- The names of the classes, in the order of first reference. -/
def names (t : ClassTable) : List String := t.map Prod.fst

/-- A class that is changed keeps its place, a new one comes last. -/
theorem names_update (t : ClassTable) (name : String) (g : ClassFragments → ClassFragments) :
    (update name g t).names = if name ∈ t.names then t.names else t.names ++ [name] := by
  induction t with
  | nil => rfl
  | cons entry t ih =>
    obtain ⟨n, c⟩ := entry
    rw [update]
    by_cases hn : n = name
    · simp [names, hn]
    · simp only [names] at ih
      rw [if_neg hn, names, List.map_cons, ih]
      by_cases hmem : name ∈ t.map Prod.fst <;> simp [names, hmem, Ne.symm hn]

theorem mem_names_update {t : ClassTable} {name other : String}
    {g : ClassFragments → ClassFragments} :
    other ∈ (update name g t).names ↔ other = name ∨ other ∈ t.names := by
  rw [names_update]
  split
  · next hmem =>
    constructor
    · exact Or.inr
    · rintro (rfl | h)
      · exact hmem
      · exact h
  · rw [List.mem_append, List.mem_singleton, or_comm]

/-- No class gets a second entry. -/
theorem nodup_names_update {t : ClassTable} (h : t.names.Nodup) (name : String)
    (g : ClassFragments → ClassFragments) : (update name g t).names.Nodup := by
  rw [names_update]
  split
  · exact h
  · next hmem =>
    refine List.nodup_append.mpr ⟨h, by simp, ?_⟩
    intro a ha b hb hab
    rw [List.mem_singleton.mp hb] at hab
    exact hmem (hab ▸ ha)

/-- Without second entries, every entry is the one that is found. -/
theorem get?_eq_some_of_mem {t : ClassTable} (h : t.names.Nodup) {name : String}
    {c : ClassFragments} (hc : (name, c) ∈ t) : t.get? name = some c := by
  induction t with
  | nil => simp at hc
  | cons entry t ih =>
    obtain ⟨n, c'⟩ := entry
    obtain ⟨hn, ht⟩ := List.nodup_cons.mp h
    rw [get?_cons]
    rcases List.mem_cons.mp hc with heq | hlater
    · cases heq
      rw [if_pos rfl]
    · have hne : name ≠ n := by
        rintro rfl
        exact hn (List.mem_map.mpr ⟨_, hlater, rfl⟩)
      rw [if_neg hne]
      exact ih ht hlater

end ClassTable

namespace Scan

open Declaration Text

/-! ### Effects on the table -/

/-- The class that an effect refers to. -/
def Effect.class? : Effect → Option String
  | .register r => some r.name
  | .openClass owner | .methods owner _ | .statics owner _ | .marker owner => some owner
  | .declare sig _ => sig.owner
  | .comment _ | .mainPage _ | .enums _ | .notice _ => none

/-- An effect changes the class that it refers to and no other. -/
theorem classes_onFile (e : Effect) (f : FileFragments) :
    (e.class? = none ∧ (e.onFile f).classes = f.classes) ∨
      ∃ name g, e.class? = some name ∧ (e.onFile f).classes = f.classes.update name g := by
  cases e with
  | register r => exact Or.inr ⟨r.name, _, rfl, rfl⟩
  | openClass owner => exact Or.inr ⟨owner, _, rfl, rfl⟩
  | methods owner names => exact Or.inr ⟨owner, _, rfl, rfl⟩
  | statics owner names => exact Or.inr ⟨owner, _, rfl, rfl⟩
  | marker owner => exact Or.inr ⟨owner, _, rfl, rfl⟩
  | declare sig source =>
    cases howner : sig.owner with
    | none => exact Or.inl ⟨howner, by simp [Effect.onFile, declareIn, howner]⟩
    | some owner =>
      simp only [Effect.onFile, declareIn, howner]
      exact Or.inr ⟨owner, _, howner, rfl⟩
  | comment fragment | mainPage fragment | enums fragment | notice n => exact Or.inl ⟨rfl, rfl⟩

/-- The classes of a file have one entry each. -/
theorem nodup_names_foldl (es : List Effect) {f : FileFragments} (h : f.classes.names.Nodup) :
    (es.foldl Effect.onFile f).classes.names.Nodup := by
  induction es generalizing f with
  | nil => exact h
  | cons e es ih =>
    refine ih ?_
    rcases classes_onFile e f with ⟨-, hkeep⟩ | ⟨name, g, -, hupdate⟩
    · rwa [hkeep]
    · rw [hupdate]
      exact ClassTable.nodup_names_update h name g

/-- The classes of a file are those that some effect refers to. -/
theorem mem_names_foldl (es : List Effect) (f : FileFragments) (name : String) :
    name ∈ (es.foldl Effect.onFile f).classes.names ↔
      name ∈ f.classes.names ∨ ∃ e ∈ es, e.class? = some name := by
  induction es generalizing f with
  | nil => simp
  | cons e es ih =>
    rw [List.foldl_cons, ih]
    rcases classes_onFile e f with ⟨hnone, hkeep⟩ | ⟨owner, g, howner, hupdate⟩
    · simp [hkeep, hnone]
    · rw [hupdate, ClassTable.mem_names_update]
      simp only [List.mem_cons, exists_eq_or_imp, howner, Option.some.injEq]
      rw [eq_comm (a := name), or_comm (a := owner = name), or_assoc]

/-! ### Effects on one opening -/

/-- What an effect does to the opening of the class `name`. -/
def Effect.onHeader (name : String) (header : String) : Effect → String
  | .register r => if r.name = name then classOpening name r.parent else header
  | .openClass owner | .statics owner _ =>
    if owner = name ∧ header = "" then classOpening name none else header
  | _ => header

theorem header_openIfUnset (c : ClassFragments) (header : String) :
    (c.openIfUnset header).header = if c.header = "" then header else c.header := by
  unfold ClassFragments.openIfUnset
  split <;> rfl

/-- The opening of a class changes as `Effect.onHeader` says. -/
theorem header_onFile (e : Effect) (f : FileFragments) (name : String) :
    ((e.onFile f).classOf name).header = e.onHeader name (f.classOf name).header := by
  cases e with
  | register r =>
    rw [Effect.onFile, FileFragments.classOf_updateClass, Effect.onHeader]
    by_cases h : name = r.name
    · simp [h]
    · simp [h, Ne.symm h]
  | openClass owner =>
    rw [Effect.onFile, FileFragments.classOf_updateClass, Effect.onHeader]
    by_cases h : name = owner
    · simp [h, header_openIfUnset]
    · simp [h, Ne.symm h]
  | statics owner names =>
    rw [Effect.onFile, FileFragments.classOf_updateClass, Effect.onHeader]
    by_cases h : name = owner
    · simp [h, header_openIfUnset]
    · simp [h, Ne.symm h]
  | methods owner names =>
    rw [Effect.onFile, FileFragments.classOf_updateClass]
    split
    · next h => rw [h]; rfl
    · rfl
  | marker owner =>
    rw [Effect.onFile, FileFragments.classOf_updateClass]
    split
    · next h => rw [h]; rfl
    · rfl
  | declare sig source =>
    cases howner : sig.owner with
    | none => simp [Effect.onFile, declareIn, howner, Effect.onHeader, FileFragments.classOf]
    | some owner =>
      simp only [Effect.onFile, declareIn, howner, FileFragments.classOf_updateClass]
      split
      · next h => rw [h]; split <;> rfl
      · rfl
  | comment fragment | mainPage fragment | enums fragment | notice n => rfl

theorem header_foldl_onFile (name : String) (es : List Effect) (f : FileFragments) :
    ((es.foldl Effect.onFile f).classOf name).header =
      es.foldl (Effect.onHeader name) (f.classOf name).header := by
  induction es generalizing f with
  | nil => rfl
  | cons e es ih => rw [List.foldl_cons, List.foldl_cons, ih, header_onFile]

/-- The registration of an effect. -/
def Effect.registration? : Effect → Option Registration
  | .register r => some r
  | _ => none

/-- Whether an effect opens the class `name` without a registration. -/
def Effect.opens (name : String) : Effect → Bool
  | .openClass owner | .statics owner _ => owner = name
  | _ => false

/-- The opening of a class, given its last registration and whether it is opened without one. -/
def openingOf (name : String) : (last : Option Registration) → (opened : Bool) → String
  | some r, _ => classOpening name r.parent
  | none, true => classOpening name none
  | none, false => ""

theorem classOpening_ne_empty (name : String) (parent : Option String) :
    classOpening name parent ≠ "" := by
  intro h
  have := congrArg (fun s => s.toList.head?) h
  cases parent <;> simp [classOpening] at this

theorem openingOf_eq_empty_iff {name : String} {last : Option Registration} {opened : Bool} :
    openingOf name last opened = "" ↔ last = none ∧ opened = false := by
  cases last <;> cases opened <;> simp [openingOf, classOpening_ne_empty]

/-- An opening opens the class it belongs to. -/
theorem exists_parent_of_openingOf {name : String} {last : Option Registration} {opened : Bool}
    (h : openingOf name last opened ≠ "") :
    ∃ parent, openingOf name last opened = classOpening name parent := by
  cases last with
  | some r => exact ⟨r.parent, rfl⟩
  | none =>
    cases opened with
    | true => exact ⟨none, rfl⟩
    | false => exact absurd rfl h

/-- **What one effect does to an opening.**  A registration takes the place of an earlier one, and
opens the class even if it was opened before; another opening counts only if there was none. -/
theorem onHeader_openingOf (name : String) (last : Option Registration) (opened : Bool)
    (e : Effect) :
    e.onHeader name (openingOf name last opened) =
      openingOf name ((e.registration?.filter (·.name = name)).or last)
        (opened || e.opens name) := by
  have hopening : ∀ owner : String,
      (if owner = name ∧ openingOf name last opened = "" then classOpening name none
        else openingOf name last opened) = openingOf name last (opened || owner = name) := by
    intro owner
    cases last with
    | some r => simp [openingOf, classOpening_ne_empty]
    | none =>
      cases opened with
      | true => simp [openingOf, classOpening_ne_empty]
      | false => by_cases h : owner = name <;> simp [openingOf, h]
  cases e with
  | register r =>
    by_cases h : r.name = name
    · simp [Effect.onHeader, Effect.registration?, h, openingOf, Option.filter]
    · simp [Effect.onHeader, Effect.registration?, Effect.opens, h, Option.filter]
  | openClass owner => exact hopening owner
  | statics owner names => exact hopening owner
  | _ => simp [Effect.onHeader, Effect.registration?, Effect.opens]

/-- **The opening after any effects.** -/
theorem foldl_onHeader (name : String) (es : List Effect) :
    es.foldl (Effect.onHeader name) "" =
      openingOf name ((es.filterMap Effect.registration?).filter (·.name = name)).getLast?
        (es.any (Effect.opens name)) := by
  induction es using List.reverseRecOn with
  | nil => rfl
  | append_singleton es e ih =>
    rw [List.foldl_append, List.foldl_cons, List.foldl_nil, ih, onHeader_openingOf,
      List.filterMap_append, List.filter_append, List.getLast?_append, List.any_append]
    congr 1
    · cases h : e.registration? with
      | none => simp [h]
      | some r => by_cases hname : r.name = name <;> simp [h, hname, Option.filter]
    · simp

/-! ### What a line does for a class -/

/-- The effects that open a class, or may, and add no declaration. -/
def Effect.isOpening : Effect → Bool
  | .register _ | .openClass _ => true
  | _ => false

namespace Reading

variable {d : Dialect} {r : Reading} {name : String}

/-- The registration on the line, which counts everywhere but in the table of an enum. -/
def registration? (d : Dialect) (r : Reading) : Option Registration :=
  if r.mode.seesRegistration then Registration.ofLine? (r.line d) else none

/-- Whether the line registers the class `name`. -/
def registers (d : Dialect) (name : String) (r : Reading) : Bool :=
  (r.registration? d).any (·.name = name)

/-- The effect of the line on openings, unless it ends a method table. -/
def opening? (d : Dialect) (r : Reading) : Option Effect :=
  match r.registration? d, r.tag? d with
  | some reg, _ => some (.register reg)
  | none, some (.ofVirtualClass name) => some (.openClass name)
  | none, _ => none

/-- Whether the line opens the class `name` without registering it: it documents a virtual class, or
ends a method table for the class itself. -/
def opens (d : Dialect) (name : String) (r : Reading) : Bool :=
  r.tag? d = some (.ofVirtualClass name) ||
    (r.table? d).any fun t => t.1 = .ofClass ∧ t.2.1 = name

/-- Whether the line refers to the class `name`: it registers or opens it, lists its methods, or
documents one of them or their listing. -/
def refersTo (d : Dialect) (name : String) (r : Reading) : Bool :=
  r.registers d name || (r.table? d).any (·.2.1 = name) ||
    r.tag? d = some (.ofVirtualClass name) || r.tag? d = some (.listing name) ||
      (r.function? d).any (·.owner = some name)

/-- A line with a command registers no class. -/
theorem registration?_of_tag? {tag : Tag} (h : r.tag? d = some tag) : r.registration? d = none := by
  obtain ⟨m, raw⟩ := r
  cases m with
  | comment region =>
    simp only [tag?] at h
    split at h
    · next hline => simp [registration?, hline.1]
    · cases h
  | _ => simp [tag?] at h

/-- A line that registers a class does it by the line alone. -/
theorem opening?_eq_register {reg : Registration} :
    r.opening? d = some (.register reg) ↔ r.registration? d = some reg := by
  unfold opening?
  split <;> simp_all

/-- A line that opens a class and has no other effect on it documents a virtual class. -/
theorem opening?_eq_openClass :
    r.opening? d = some (.openClass name) ↔ r.tag? d = some (.ofVirtualClass name) := by
  constructor
  · intro h
    unfold opening? at h
    split at h
    · cases h
    · next htag => cases h; exact htag
    · cases h
  · intro htag
    simp [opening?, registration?_of_tag? htag, htag]

end Reading

section Lines

variable {d : Dialect}

/-- The effects of a command on openings. -/
theorem openings_of_tagTransition {region region' : Region} {es : List Effect} {raw : List Char}
    (hreg : Registration.ofLine? (normalise d raw) = none)
    (hclose : contains d.closer.toList (normalise d raw) = false)
    (ht : TagTransition d (normalise d raw) region region' es) :
    es.filter Effect.isOpening = (Reading.opening? d ⟨.comment region, raw⟩).toList := by
  have htag : Reading.tag? d ⟨.comment region, raw⟩ = Tag.ofLine? (normalise d raw) := by
    simp [Reading.tag?, Reading.line, hreg, hclose]
  have hregistration : Reading.registration? d ⟨.comment region, raw⟩ = none := by
    simp [Reading.registration?, Reading.line, hreg]
  cases ht with
  | func h hsig =>
    unfold Mode.funcEffects
    split <;> simp [Reading.opening?, hregistration, htag, h, Effect.isOpening]
  | enum h =>
    unfold Mode.enumEffects
    split <;> simp [Reading.opening?, hregistration, htag, h, Effect.isOpening]
  | freeText h =>
    have hopening : Reading.opening? d ⟨.comment region, raw⟩ = none := by
      simp [Reading.opening?, hregistration, htag, h]
    rw [hopening]
    unfold Mode.freeText
    split
    · rfl
    split
    · rfl
    split <;> rfl
  | page h | par h | geom h | listing h | ofClass h | ofVirtualClass h | descr h =>
    simp [Reading.opening?, hregistration, htag, h, Effect.isOpening]

/-- **A line has no other effect on openings.** -/
theorem openings_of_effects (r : Reading) :
    (r.effects d).filter Effect.isOpening = (r.opening? d).toList := by
  rcases hstep : r.mode.step d r.raw with _ | ⟨m', es⟩
  · -- a line that is refused has a command, and no effects
    obtain ⟨htag, -⟩ := tag?_of_step_eq_none hstep
    simp [Reading.effects, hstep, Reading.opening?, Reading.registration?_of_tag? htag, htag]
  · obtain ⟨m, raw⟩ := r
    have heffects : Reading.effects d ⟨m, raw⟩ = es := by simp [Reading.effects, hstep]
    rw [heffects]
    cases Mode.transition_of_step hstep with
    | register hm hreg =>
      simp [Reading.opening?, Reading.registration?, Reading.line, hm, hreg, Effect.isOpening]
    | tag hreg hclose ht => exact openings_of_tagTransition hreg hclose ht
    | @endTable kind names pending owner hreg howner =>
      cases kind <;>
        simp [Reading.opening?, Reading.registration?, Reading.tag?, Reading.line, hreg,
          MethodKind.table, Effect.isOpening]
    | closeBlock hreg hclose =>
      simp [Reading.opening?, Reading.registration?, Reading.tag?, Reading.line, hreg, hclose,
        Effect.isOpening]
    | row hmore => rw [filter_map_enums fun _ => rfl]; rfl
    | lastRow hlast => rw [filter_map_enums fun _ => rfl]; rfl
    | startRows hreg hstart hopen hdef =>
      rw [filter_map_enums fun _ => rfl]
      simp [Reading.opening?, Reading.registration?, Reading.tag?, Reading.line, hreg]
    | startTable hreg hstart | openBlock hreg hstart hopen | passCode hreg hstart hopen
    | listMethod hreg howner | interruptByTable hreg hstart | interruptByBlock hreg hstart hopen
    | passAwaiting hreg hstart hopen hdef =>
      simp [Reading.opening?, Reading.registration?, Reading.tag?, Reading.line, hreg,
        Effect.isOpening]

/-- **The effects of a file on openings are those of its lines.** -/
theorem openings_of_file {text : List Char} {es : List Effect} (h : effects d text = (es, none)) :
    es.filter Effect.isOpening = (readingsOf d text).filterMap (Reading.opening? d) :=
  filter_effects_of_file openings_of_effects
    (filter_finish (fun _ => rfl) (fun _ => rfl) (fun _ => rfl)) h

end Lines

/-! ### Lines and the classes they refer to -/

namespace Reading

variable {d : Dialect} {r : Reading} {name : String}

theorem bind_registration?_opening? (d : Dialect) (r : Reading) :
    (r.opening? d).bind Effect.registration? = r.registration? d := by
  unfold opening?
  split <;> simp_all [Effect.registration?]

/-- A line that adds methods of the class itself ends a table for it. -/
theorem member?_eq_statics {names : List String} :
    r.member? d = some (.statics name names) ↔ r.table? d = some (.ofClass, name, names) := by
  cases r.role d with
  | @ofTable kind owner names' htable htag hfunction hmember =>
    rw [hmember, htable]
    cases kind <;> simp [MethodKind.table]
  | ofListing htable htag hfunction hmember => simp [hmember, htable]
  | ofFunction htable htag hfunction hmember => simp [hmember, htable]
  | ofOther htable htag hfunction hmember => simp [hmember, htable]

/-- The class whose opening a line may change. -/
theorem opening?_class? :
    (∃ e, r.opening? d = some e ∧ e.class? = some name) ↔
      r.registers d name = true ∨ r.tag? d = some (.ofVirtualClass name) := by
  constructor
  · rintro ⟨e, he, hclass⟩
    unfold opening? at he
    split at he
    · next reg _ hreg =>
      cases he
      exact Or.inl (by simpa [registers, hreg, Effect.class?] using hclass)
    · next htag =>
      cases he
      cases hclass
      exact Or.inr htag
    · cases he
  · rintro (hreg | htag)
    · obtain ⟨reg, hreg, hname⟩ : ∃ reg, r.registration? d = some reg ∧ reg.name = name := by
        simpa [registers, Option.any_eq_true] using hreg
      exact ⟨_, opening?_eq_register.mpr hreg, congrArg some hname⟩
    · exact ⟨_, opening?_eq_openClass.mpr htag, rfl⟩

/-- The class whose declarations a line changes. -/
theorem member?_class? :
    (∃ e, r.member? d = some e ∧ e.class? = some name) ↔
      (r.table? d).any (·.2.1 = name) = true ∨ r.tag? d = some (.listing name) ∨
        (r.function? d).any (·.owner = some name) = true := by
  cases r.role d with
  | @ofTable kind owner names htable htag hfunction hmember =>
    simp only [hmember, htable, htag, hfunction]
    cases kind <;> simp [MethodKind.table, Effect.class?]
  | ofListing htable htag hfunction hmember =>
    simp [hmember, htable, htag, hfunction, Effect.class?]
  | ofFunction htable htag hfunction hmember =>
    simp [hmember, htable, htag, hfunction, Effect.class?]
  | ofOther htable htag hfunction hmember => simp [hmember, htable, htag, hfunction]

/-- A line refers to the classes of its effects. -/
theorem refersTo_iff :
    r.refersTo d name = true ↔
      ∃ e, (r.opening? d = some e ∨ r.member? d = some e) ∧ e.class? = some name := by
  simp only [or_and_right, exists_or, opening?_class?, member?_class?, refersTo,
    Bool.or_eq_true, decide_eq_true_eq]
  tauto

/-- In a script no class is documented without being opened. -/
theorem tag?_bracketed_ne (r : Reading) (name : String) :
    r.tag? .bracketed ≠ some (.ofClass name) := by
  intro htag
  have hline : Tag.ofLine? (r.line .bracketed) = some (.ofClass name) := by
    unfold tag? at htag
    split at htag
    · split at htag
      · exact htag
      · cases htag
    · cases htag
  -- the command would stand in the line, where it has been replaced
  obtain ⟨⟨w, u⟩, hword, -⟩ := as_eq_some.mp (Tag.ofLine?_eq_some hline)
  obtain ⟨front, t, hsplit, ht⟩ := anywhere_eq_some hword
  obtain ⟨rest, rfl, -⟩ := lit_eq_some.mp ht
  have hinfix : "@luaclass".toList <:+: r.line .bracketed :=
    ⟨front, rest, by rw [hsplit, List.append_assoc]⟩
  have hgone := not_isInfix_replace (a := '@') (w := "luaclass".toList) (v := "luavclass".toList)
    (by decide) (by decide) (by simp) r.raw
  exact hgone hinfix

end Reading

/-! ### Whole files -/

/-- The registrations of the class `name` in a text, in order. -/
def registrationsOf (d : Dialect) (text : List Char) (name : String) : List Registration :=
  ((readingsOf d text).filterMap (Reading.registration? d)).filter (·.name = name)

section Files

variable {d : Dialect} {s : Streams} {text : List Char} {f : FileFragments} {es : List Effect}

theorem registrationsOf_eq_nil {name : String} :
    registrationsOf d text name = [] ↔
      ∀ r ∈ readingsOf d text, r.registers d name = false := by
  simp only [registrationsOf, List.filter_eq_nil_iff, List.mem_filterMap, Reading.registers]
  constructor
  · intro h r hr
    cases hreg : r.registration? d with
    | none => rfl
    | some reg => simpa using h reg ⟨r, hr, hreg⟩
  · rintro h reg ⟨r, hr, hreg⟩
    simpa [hreg] using h r hr

theorem registrations_of_file (h : effects d text = (es, none)) :
    es.filterMap Effect.registration? =
      (readingsOf d text).filterMap (Reading.registration? d) := by
  have hfilter : (es.filter Effect.isOpening).filterMap Effect.registration? =
      es.filterMap Effect.registration? := by
    rw [List.filterMap_filter]
    congr 1
    funext e
    cases e <;> rfl
  rw [← hfilter, openings_of_file h, List.filterMap_filterMap]
  congr 1
  funext r
  exact Reading.bind_registration?_opening? d r

/-- The effects of a kind that a line has at most one of come from the lines. -/
theorem mem_effects_iff {p : Effect → Bool} {g : Reading → Option Effect}
    (h : es.filter p = (readingsOf d text).filterMap g) {e : Effect} :
    e ∈ es ∧ p e = true ↔ ∃ r ∈ readingsOf d text, g r = some e := by
  rw [← List.mem_filter, h, List.mem_filterMap]

theorem opens_of_file (h : effects d text = (es, none)) (name : String) :
    es.any (Effect.opens name) = (readingsOf d text).any (Reading.opens d name) := by
  rw [Bool.eq_iff_iff, List.any_eq_true, List.any_eq_true]
  constructor
  · rintro ⟨e, he, hopens⟩
    cases e with
    | openClass owner =>
      obtain rfl : owner = name := by simpa [Effect.opens] using hopens
      obtain ⟨r, hr, hopening⟩ := (mem_effects_iff (openings_of_file h)).mp ⟨he, rfl⟩
      exact ⟨r, hr, by simp [Reading.opens, Reading.opening?_eq_openClass.mp hopening]⟩
    | statics owner names =>
      obtain rfl : owner = name := by simpa [Effect.opens] using hopens
      obtain ⟨r, hr, hmember⟩ := (mem_effects_iff (members_of_file h)).mp ⟨he, rfl⟩
      exact ⟨r, hr, by simp [Reading.opens, Reading.member?_eq_statics.mp hmember]⟩
    | _ => simp [Effect.opens] at hopens
  · rintro ⟨r, hr, hopens⟩
    simp only [Reading.opens, Bool.or_eq_true, decide_eq_true_eq] at hopens
    rcases hopens with htag | htable
    · have hopening := Reading.opening?_eq_openClass.mpr htag
      obtain ⟨hmem, -⟩ := (mem_effects_iff (openings_of_file h)).mpr ⟨r, hr, hopening⟩
      exact ⟨_, hmem, by simp [Effect.opens]⟩
    · cases ht : r.table? d with
      | none => simp [ht] at htable
      | some t =>
        obtain ⟨kind, owner, names⟩ := t
        obtain ⟨rfl, rfl⟩ : kind = .ofClass ∧ owner = name := by simpa [ht] using htable
        have hmember := Reading.member?_eq_statics.mpr ht
        obtain ⟨hmem, -⟩ := (mem_effects_iff (members_of_file h)).mpr ⟨r, hr, hmember⟩
        exact ⟨_, hmem, by simp [Effect.opens]⟩

/-- The opening of a class is the one that its last registration gives, and without a registration
the plain one if some line opens the class. -/
theorem header_eq_openingOf (h : (scan d s text).result = .ok f) {name : String}
    {c : ClassFragments} (hc : (name, c) ∈ f.classes) :
    c.header = openingOf name (registrationsOf d text name).getLast?
      ((readingsOf d text).any (Reading.opens d name)) := by
  obtain ⟨es, hes, rfl⟩ := scan_result_eq_ok.mp h
  have hnodup := nodup_names_foldl es (f := {}) List.nodup_nil
  have hclass : (es.foldl Effect.onFile {}).classOf name = c := by
    rw [FileFragments.classOf, ClassTable.get?_eq_some_of_mem hnodup hc]
    rfl
  rw [← hclass, header_foldl_onFile, registrationsOf, ← registrations_of_file hes,
    ← opens_of_file hes]
  exact foldl_onHeader name es

/-- **The classes of a file are those that its lines refer to.** -/
theorem mem_names_of_scan (h : (scan d s text).result = .ok f) (name : String) :
    name ∈ f.classes.names ↔ ∃ r ∈ readingsOf d text, r.refersTo d name = true := by
  obtain ⟨es, hes, rfl⟩ := scan_result_eq_ok.mp h
  rw [mem_names_foldl]
  simp only [Reading.refersTo_iff]
  constructor
  · rintro (hnone | ⟨e, he, hclass⟩)
    · simp [ClassTable.names] at hnone
    · cases hopening : e.isOpening with
      | true =>
        obtain ⟨r, hr, hre⟩ := (mem_effects_iff (openings_of_file hes)).mp ⟨he, hopening⟩
        exact ⟨r, hr, e, Or.inl hre, hclass⟩
      | false =>
        have hmember : e.isMember = true := by
          cases e <;> simp_all [Effect.class?, Effect.isOpening, Effect.isMember]
        obtain ⟨r, hr, hre⟩ := (mem_effects_iff (members_of_file hes)).mp ⟨he, hmember⟩
        exact ⟨r, hr, e, Or.inr hre, hclass⟩
  · rintro ⟨r, hr, e, hre, hclass⟩
    refine Or.inr ⟨e, ?_, hclass⟩
    rcases hre with hre | hre
    · exact ((mem_effects_iff (openings_of_file hes)).mpr ⟨r, hr, hre⟩).1
    · exact ((mem_effects_iff (members_of_file hes)).mpr ⟨r, hr, hre⟩).1

/-- **Which opening a class has.**  Let a file be scanned to its end.  A class of it that some line
registers has the opening of its last registration, with the parent given there.  Without a
registration it has the plain opening if some line opens it, and otherwise none.  So an opening
always opens the class it belongs to.  In a script, documenting a class opens it. -/
theorem header_of_scan (h : (scan d s text).result = .ok f) {name : String} {c : ClassFragments}
    (hc : (name, c) ∈ f.classes) :
    ((∃ r ∈ readingsOf d text, r.registers d name = true) →
      ∃ reg, (registrationsOf d text name).getLast? = some reg ∧
        c.header = classOpening name reg.parent) ∧
    ((∀ r ∈ readingsOf d text, r.registers d name = false) →
      ((∃ r ∈ readingsOf d text, r.opens d name = true) → c.header = classOpening name none) ∧
      ((∀ r ∈ readingsOf d text, r.opens d name = false) → c.header = "")) ∧
    (c.header = "" ∨ ∃ parent, c.header = classOpening name parent) ∧
    (d = .bracketed → ∀ r ∈ readingsOf d text, ∀ other, r.tag? d ≠ some (.ofClass other)) := by
  rw [header_eq_openingOf h hc]
  refine ⟨?_, ?_, ?_, ?_⟩
  · rintro ⟨r, hr, hregisters⟩
    cases hlast : (registrationsOf d text name).getLast? with
    | some reg => exact ⟨reg, rfl, rfl⟩
    | none =>
      have hnone := registrationsOf_eq_nil.mp (List.getLast?_eq_none_iff.mp hlast) r hr
      rw [hregisters] at hnone
      cases hnone
  · intro hnone
    rw [registrationsOf_eq_nil.mpr hnone]
    constructor
    · intro hopens
      rw [List.any_eq_true.mpr hopens]
      rfl
    · intro hopens
      rw [List.any_eq_false.mpr fun r hr => by simp [hopens r hr]]
      rfl
  · by_cases hempty : c.header = ""
    · exact Or.inl (by rwa [header_eq_openingOf h hc] at hempty)
    · rw [header_eq_openingOf h hc] at hempty
      exact Or.inr (exists_parent_of_openingOf hempty)
  · rintro rfl r - other
    exact r.tag?_bracketed_ne other

/-- A script that registers a class before it documents it, and documents another one. -/
def fleetScript : List Char :=
  "REGISTER_LUA_SUBCLASS(Ship, Item)\n--[[\n@luaclass Ship\n@luaclass Fleet".toList

/-- The fragments of this script. -/
def fleetFragments : FileFragments where
  classes := [("Ship", ⟨"class Ship : public Item \x7b \n public:\n", []⟩),
    ("Fleet", ⟨"class Fleet \x7b \n public:\n", []⟩)]
  comments := ["/*!\n", " \\class Ship\n", " \\class Fleet\n", "*/\n"]

theorem header_of_fleetScript :
    (scan .bracketed {} fleetScript).result = .ok fleetFragments ∧
      (∃ reg, (registrationsOf .bracketed fleetScript "Ship").getLast? = some reg ∧
        (fleetFragments.classOf "Ship").header = classOpening "Ship" reg.parent) ∧
      (fleetFragments.classOf "Fleet").header = classOpening "Fleet" none := by
  have h : (scan .bracketed {} fleetScript).result = .ok fleetFragments := by decide +kernel
  have hship : ("Ship", fleetFragments.classOf "Ship") ∈ fleetFragments.classes := by decide
  have hfleet : ("Fleet", fleetFragments.classOf "Fleet") ∈ fleetFragments.classes := by decide
  obtain ⟨hregistered, -⟩ := header_of_scan h hship
  obtain ⟨-, hopened, -⟩ := header_of_scan h hfleet
  exact ⟨h, hregistered (by decide +kernel), (hopened (by decide +kernel)).1 (by decide +kernel)⟩

/-! ### Opened and closed classes -/

theorem isPrefix_classOpening (name : String) (parent : Option String) :
    ("class " ++ name).toList <+: (classOpening name parent).toList := by
  cases parent with
  | none => exact ⟨" \x7b \n public:\n".toList, by simp [classOpening]⟩
  | some parent =>
    exact ⟨(" : public " ++ parent ++ " \x7b \n public:\n").toList, by simp [classOpening]⟩

/-- A class without an opening is one that no line opens. -/
theorem header_eq_empty_iff (h : (scan d s text).result = .ok f) {name : String}
    {c : ClassFragments} (hc : (name, c) ∈ f.classes) :
    c.header = "" ↔
      ¬∃ r ∈ readingsOf d text, r.registers d name = true ∨ r.opens d name = true := by
  rw [header_eq_openingOf h hc, openingOf_eq_empty_iff, List.getLast?_eq_none_iff,
    registrationsOf_eq_nil]
  constructor
  · rintro ⟨hnone, hopens⟩ ⟨r, hr, hregisters | hr'⟩
    · rw [hnone r hr] at hregisters
      cases hregisters
    · exact List.any_eq_false.mp hopens r hr hr'
  · intro hclosed
    refine ⟨?_, List.any_eq_false.mpr fun r hr hr' => hclosed ⟨r, hr, Or.inr hr'⟩⟩
    intro r hr
    rw [Bool.eq_false_iff]
    exact fun hregisters => hclosed ⟨r, hr, Or.inl hregisters⟩

/-- The classes of a table as they are written, one after the other. -/
def renderClasses (t : ClassTable) : String :=
  String.join (t.map fun entry => Header.renderClass entry.1 entry.2)

/-- Where a class stands in the header of a file. -/
theorem render_class (f : FileFragments) {before after : ClassTable} {name : String}
    {c : ClassFragments} (hf : f.classes = before ++ (name, c) :: after) (generated : String) :
    ∃ rest, Header.render f generated =
      Header.banner generated ++ renderClasses before ++
        (c.header ++ String.join c.body ++ classClosing name) ++ renderClasses after ++
        ("\n\n// What follows is a dump of the globalfunctions list\n\nnamespace global \x7b\n" ++
          rest) := by
  refine ⟨"\n".intercalate f.globals ++
    "\x7d\n\n\n// What follows is a dump of the comments list\n\n" ++ String.join f.comments, ?_⟩
  simp only [Header.render, hf, renderClasses, List.map_append, List.map_cons, String.join_append,
    String.join_cons, Header.renderClass, String.append_assoc]

/-- **When every class that is closed has been opened.**  In a file that is scanned to its end, this
is so exactly when every class that some line refers to is registered or opened by some line.  In
the header of the file a class begins where the one before it, or the banner, ends, with its opening
if some line gives it one and with its declarations otherwise; it always ends with its closing,
after which the next class or the global namespace follows. -/
theorem opened_iff_of_scan (h : (scan d s text).result = .ok f) :
    ((∀ name c, (name, c) ∈ f.classes →
        c.header ≠ "" ∧ ("class " ++ name).toList <+: c.header.toList) ↔
      ∀ name, (∃ r ∈ readingsOf d text, r.refersTo d name = true) →
        ∃ r ∈ readingsOf d text, r.registers d name = true ∨ r.opens d name = true) ∧
    ∀ before name c after generated, f.classes = before ++ (name, c) :: after →
      ∃ opening rest, Header.render f generated =
        Header.banner generated ++ renderClasses before ++
          (opening ++ String.join c.body ++ classClosing name) ++ renderClasses after ++
          ("\n\n// What follows is a dump of the globalfunctions list\n\nnamespace global \x7b\n" ++
            rest) ∧
        ((∃ r ∈ readingsOf d text, r.registers d name = true ∨ r.opens d name = true) →
          ∃ parent, opening = classOpening name parent) ∧
        ((¬∃ r ∈ readingsOf d text, r.registers d name = true ∨ r.opens d name = true) →
          opening = "") := by
  have hparent : ∀ {name c}, (name, c) ∈ f.classes → c.header ≠ "" →
      ∃ parent, c.header = classOpening name parent := by
    intro name c hc hne
    rw [header_eq_openingOf h hc] at hne ⊢
    exact exists_parent_of_openingOf hne
  constructor
  · constructor
    · intro hall name hrefers
      obtain ⟨⟨n, c⟩, hc, rfl⟩ := List.mem_map.mp ((mem_names_of_scan h name).mpr hrefers)
      by_contra hnone
      exact (hall n c hc).1 ((header_eq_empty_iff h hc).mpr hnone)
    · intro hall name c hc
      have hrefers := (mem_names_of_scan h name).mp (List.mem_map.mpr ⟨_, hc, rfl⟩)
      have hne : c.header ≠ "" := by
        intro hempty
        exact (header_eq_empty_iff h hc).mp hempty (hall name hrefers)
      obtain ⟨parent, hheader⟩ := hparent hc hne
      exact ⟨hne, hheader ▸ isPrefix_classOpening name parent⟩
  · intro before name c after generated hf
    have hc : (name, c) ∈ f.classes := by simp [hf]
    obtain ⟨rest, hrender⟩ := render_class f hf generated
    refine ⟨c.header, rest, hrender, ?_, (header_eq_empty_iff h hc).mpr⟩
    intro hopened
    exact hparent hc fun hempty => (header_eq_empty_iff h hc).mp hempty hopened

/-- A file that documents a method of a class and does nothing else for it. -/
def lonelyFile : List Char := "/**\n@luafunc Ship::fire()\n*/\n".toList

/-- The fragments of this file, without an opening. -/
def lonelyFragments : FileFragments where
  classes := [("Ship", ⟨"", ["void fire() \x7b /* From '@luafunc Ship::fire()' */ \x7d\n"]⟩)]
  comments := ["/*!\n", " \\fn  Ship::fire()\n", "*/\n"]

theorem not_opened_lonelyFile :
    (scan .block {} lonelyFile).result = .ok lonelyFragments ∧
      ¬(∀ name c, (name, c) ∈ lonelyFragments.classes →
        c.header ≠ "" ∧ ("class " ++ name).toList <+: c.header.toList) ∧
      ∃ rest, Header.render lonelyFragments "now" = Header.banner "now" ++
        "void fire() \x7b /* From '@luafunc Ship::fire()' */ \x7d\n\x7d; // Ship\n" ++ rest := by
  have h : (scan .block {} lonelyFile).result = .ok lonelyFragments := by decide +kernel
  have hclosed : ¬∃ r ∈ readingsOf .block lonelyFile,
      r.registers .block "Ship" = true ∨ r.opens .block "Ship" = true := by decide +kernel
  obtain ⟨hopened, hrender⟩ := opened_iff_of_scan h
  refine ⟨h, fun hall => hclosed (hopened.mp hall "Ship" (by decide +kernel)), ?_⟩
  obtain ⟨opening, rest, heq, -, hempty⟩ := hrender [] "Ship" _ [] "now" rfl
  have hclass : "" ++ String.join (lonelyFragments.classOf "Ship").body ++ classClosing "Ship" =
      "void fire() \x7b /* From '@luafunc Ship::fire()' */ \x7d\n\x7d; // Ship\n" := by decide
  have hnone : renderClasses [] = "" := rfl
  change _ = Header.banner "now" ++ renderClasses [] ++ (opening ++
    String.join (lonelyFragments.classOf "Ship").body ++ classClosing "Ship") ++ _ ++ _ at heq
  rw [hempty hclosed, hclass, hnone, String.append_empty, String.append_empty] at heq
  exact ⟨_, heq⟩

end Files

end Scan

end BindingDocs
