import BindingDocs.Proofs.Scan.TableStubs

/-!
# Tables of class-level methods

The line that ends a table for a class adds a stub for each listed name, in the order of the table,
unless the class declares the name already.  Each name is looked up in the body as it is by then, so
the stubs of earlier names count too: a name that is listed twice gets one stub.  Whether a body
declares a name depends on its text alone, and the body only grows while the table is worked off, so
a name that is declared at some point stays declared.

## Main definitions

* `newStatics` — the stubs that a table adds to a body.

## Main results

* `addStatics_eq_append` — a table adds its stubs at the end.
* `declares_of_mem_newStatics` — a stub is added for names only that are not declared.
* `declares_addStatics` — afterwards all listed names are declared.
* `onFile_statics_idem` — a second table with the same names changes nothing.
* `step_flushes_statics` — **what the last line of a table does.**
-/

namespace BindingDocs

open Declaration

/-- The stubs that a table adds to a body. -/
def newStatics (body : List String) : List String → List String
  | [] => []
  | m :: names =>
    if declares body m then newStatics body names
    else staticStub m :: newStatics (body ++ [staticStub m]) names

section Stubs

variable {body names : List String} {m : String}

/-- **A table adds its stubs at the end.** -/
theorem addStatics_eq_append (body names : List String) :
    addStatics body names = body ++ newStatics body names := by
  induction names generalizing body with
  | nil => simp [addStatics, newStatics]
  | cons m names ih =>
    rw [addStatics, List.foldl_cons, newStatics]
    split
    · exact ih body
    · exact (ih (body ++ [staticStub m])).trans (List.append_cons _ _ _).symm

/-- A body declares what a part of it declares. -/
theorem declares_append (body added : List String) (m : String) :
    declares (body ++ added) m = (declares body m || declares added m) := List.any_append

/-- A stub declares its method. -/
theorem declares_staticStub (m : String) : declares [staticStub m] m = true := by
  have hstub : (staticStub m).toList =
      "static void".toList ++ ' ' :: (m.toList ++ '(' :: ") \x7b \x7d\n".toList) := by
    rw [staticStub, String.toList_append, String.toList_append]
    simp
  rw [declares, List.any_cons, hstub, Scan.declaresIn_append]
  rfl

/-- The stubs stand in the order of the table, one for each name at most. -/
theorem newStatics_sublist (body names : List String) :
    (newStatics body names).Sublist (names.map staticStub) := by
  induction names generalizing body with
  | nil => exact List.Sublist.refl []
  | cons m names ih =>
    rw [newStatics, List.map_cons]
    split
    · exact (ih body).cons _
    · exact (ih (body ++ [staticStub m])).cons_cons _

/-- **A stub is added only for names that the body does not declare.** -/
theorem declares_of_mem_newStatics (h : staticStub m ∈ newStatics body names) :
    declares body m = false := by
  induction names generalizing body with
  | nil => cases h
  | cons x names ih =>
    rw [newStatics] at h
    split at h
    · exact ih h
    · next hx =>
      rcases List.mem_cons.mp h with heq | hlater
      · rw [Scan.staticStub_inj.mp heq]
        exact Bool.not_eq_true _ ▸ hx
      · have hlonger := ih hlater
        rw [declares_append, Bool.or_eq_false_iff] at hlonger
        exact hlonger.1

/-- No stub is added twice, since the first one declares the name. -/
theorem nodup_newStatics (body names : List String) : (newStatics body names).Nodup := by
  induction names generalizing body with
  | nil => exact List.nodup_nil
  | cons m names ih =>
    rw [newStatics]
    split
    · exact ih body
    · refine List.nodup_cons.mpr ⟨?_, ih (body ++ [staticStub m])⟩
      intro hmem
      have hnot := declares_of_mem_newStatics hmem
      rw [declares_append, declares_staticStub, Bool.or_true] at hnot
      cases hnot

/-- **Afterwards all listed names are declared.** -/
theorem declares_addStatics (hm : m ∈ names) : declares (addStatics body names) m = true := by
  induction names generalizing body with
  | nil => cases hm
  | cons x names ih =>
    rw [addStatics_eq_append, declares_append, newStatics]
    rcases List.mem_cons.mp hm with rfl | hm
    · split
      · next h => rw [h, Bool.true_or]
      · rw [← List.singleton_append, declares_append, declares_staticStub, Bool.true_or,
          Bool.or_true]
    · split
      · have hrest := @ih body hm
        rwa [addStatics_eq_append, declares_append] at hrest
      · have hrest := @ih (body ++ [staticStub x]) hm
        rwa [addStatics_eq_append, List.append_assoc, List.singleton_append, declares_append]
          at hrest

/-- Names that are declared get no stubs. -/
theorem addStatics_eq_self (h : ∀ m ∈ names, declares body m = true) :
    addStatics body names = body := by
  induction names with
  | nil => rfl
  | cons m names ih =>
    obtain ⟨hm, hnames⟩ := List.forall_mem_cons.mp h
    rw [addStatics, List.foldl_cons, if_pos hm]
    exact ih hnames

end Stubs

/-! ### The fragments of the class -/

/-- A change that is made twice is made once, if that is so for the fragments of each class. -/
theorem ClassTable.update_idem {g : ClassFragments → ClassFragments} (hg : ∀ c, g (g c) = g c)
    (name : String) (t : ClassTable) : (t.update name g).update name g = t.update name g := by
  induction t with
  | nil => simp [update, hg]
  | cons entry t ih =>
    obtain ⟨n, c⟩ := entry
    rw [update]
    split
    · next h => rw [update, if_pos h, hg]
    · next h => rw [update, if_neg h, ih]

namespace ClassFragments

theorem openIfUnset_idem (c : ClassFragments) (header : String) :
    (c.openIfUnset header).openIfUnset header = c.openIfUnset header := by
  by_cases h : c.header = "" <;> simp [openIfUnset, h]

theorem openIfUnset_withBody (c : ClassFragments) (header : String) (body : List String) :
    ({ c with body } : ClassFragments).openIfUnset header =
      { c.openIfUnset header with body } := by
  by_cases h : c.header = "" <;> simp [openIfUnset, h]

/-- What a table does to the fragments of its class. -/
def addTable (owner : String) (names : List String) (c : ClassFragments) : ClassFragments :=
  { c.openIfUnset (classOpening owner none) with
    body := addStatics (c.openIfUnset (classOpening owner none)).body names }

/-- The second time the class is open and declares all names. -/
theorem addTable_idem (owner : String) (names : List String) (c : ClassFragments) :
    (c.addTable owner names).addTable owner names = c.addTable owner names := by
  have hdeclared : ∀ body, addStatics (addStatics body names) names = addStatics body names :=
    fun body => addStatics_eq_self fun m hm => declares_addStatics hm
  rw [addTable, addTable, openIfUnset_withBody, openIfUnset_idem, hdeclared]

end ClassFragments

namespace Scan

/-- **A second table with the same names changes nothing.** -/
theorem onFile_statics_idem (owner : String) (names : List String) (f : FileFragments) :
    (Effect.statics owner names).onFile ((Effect.statics owner names).onFile f) =
      (Effect.statics owner names).onFile f := by
  have htable : ∀ f : FileFragments, (Effect.statics owner names).onFile f =
      { f with classes := f.classes.update owner (ClassFragments.addTable owner names) } :=
    fun _ => rfl
  rw [htable, htable, ClassTable.update_idem (ClassFragments.addTable_idem owner names)]

/-- **What the last line of a table does.**  A line that registers no class and ends a table for the
class `owner` adds to its body a sublist of the stubs of the listed names without repetitions.
Afterwards every listed name is declared; no name gets a stub that the class declared before; and a
second table with the same names changes nothing. -/
theorem step_flushes_statics {d : Dialect} {line : List Char} {owner : String}
    (hregister : Registration.ofLine? (normalise d line) = none)
    (howner : MethodKind.ofClass.owner? (normalise d line) = some owner)
    (names : List String) (pending : Option EnumSpec) :
    Mode.step d (.methods .ofClass names pending) line =
        some (.resume pending, [.statics owner names]) ∧
      ∀ f f' : FileFragments, f' = (Effect.statics owner names).onFile f →
        (∃ added, (f'.classOf owner).body = (f.classOf owner).body ++ added ∧
          added.Sublist (names.map staticStub) ∧ added.Nodup ∧
          ∀ m, declares (f.classOf owner).body m = true → staticStub m ∉ added) ∧
        (∀ m ∈ names, declares (f'.classOf owner).body m = true) ∧
        (Effect.statics owner names).onFile f' = f' := by
  constructor
  · rw [Mode.step]
    simp [Mode.seesRegistration, hregister, Mode.dispatch, Mode.methodsLine, howner]
  · rintro f f' rfl
    have hbody : (((Effect.statics owner names).onFile f).classOf owner).body =
        addStatics (f.classOf owner).body names := by
      rw [body_onFile, Effect.onBody, if_pos rfl]
    rw [hbody]
    refine ⟨⟨_, addStatics_eq_append _ _, newStatics_sublist _ _, nodup_newStatics _ _, ?_⟩, ?_, ?_⟩
    · intro m hm hmem
      rw [declares_of_mem_newStatics hmem] at hm
      cases hm
    · intro m hm
      exact declares_addStatics hm
    · exact onFile_statics_idem owner names f

/-- A class that declares one method of a table. -/
def stationFragments : FileFragments where
  classes := [("Station", ⟨"", ["void redock() \x7b \x7d\n"]⟩)]

/-- A table with a name that ends like the declared one, one that is listed twice and one that is
not a word. -/
def stationNames : List String := ["dock", "redock", "d.*", "dock"]

/-- The last line of the table. -/
def stationLine : List Char := "GENERATE_LUA_STATIC_METHODS_TABLE(Station, LUA_STATIC_METHODS);".toList

theorem step_flushes_stationNames :
    Registration.ofLine? (normalise .block stationLine) = none ∧
      MethodKind.ofClass.owner? (normalise .block stationLine) = some "Station" ∧
      Mode.step .block (.methods .ofClass stationNames none) stationLine =
        some (.code, [.statics "Station" stationNames]) ∧
      ∃ f', f' = (Effect.statics "Station" stationNames).onFile stationFragments ∧
        (f'.classOf "Station").body = ["void redock() \x7b \x7d\n",
          "static void dock() \x7b \x7d\n", "static void d.*() \x7b \x7d\n"] ∧
        (Effect.statics "Station" stationNames).onFile f' = f' := by
  have hregister : Registration.ofLine? (normalise .block stationLine) = none := by decide +kernel
  have howner : MethodKind.ofClass.owner? (normalise .block stationLine) = some "Station" := by
    decide +kernel
  obtain ⟨hstep, hflush⟩ := step_flushes_statics hregister howner stationNames none
  obtain ⟨-, -, hagain⟩ := hflush stationFragments _ rfl
  exact ⟨hregister, howner, hstep, _, rfl, by decide +kernel, hagain⟩

end Scan

end BindingDocs
