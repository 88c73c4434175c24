import BindingDocs.Proofs.Scan.ClassBody
import Mathlib.Control.Monad.Basic

/-!
# Documented functions are kept

A stub is removed from a class by its text alone.  To see that no declaration written by hand is
ever taken for a stub, every fragment of a body is given its `Origin`, from which its text can be
read off.  The texts of different origins differ, except that the marker may look like the stub of a
method of that name.  So what a documented function removes is a stub of an object method or the
marker, and the declarations in a class are those of its documented functions, in order.

## Main definitions

* `Origin`, `Origin.fragment` — where a fragment of a body comes from, and its text.
* `Effect.onOrigins`, `originsAfter` — the origins of the fragments of a class after some lines.
* `LeavesOutStub` — origins without one stub of an object method or one marker.
* `documented`, `documentedIn` — the documented functions of a text and of a class, with their lines.

## Main results

* `Origin.eq_of_fragment_eq_methodStub` — what can look like the stub of an object method.
* `body_eq_fragments` — the body of a class consists of the texts of its origins.
* `declarations_of_scan` — **declarations are kept as they are written.**
-/

namespace BindingDocs.Scan

open Declaration

/-! ### Texts of stubs and declarations -/

theorem methodStub_inj {a b : String} : methodStub a = methodStub b ↔ a = b := by
  simp [methodStub]

theorem staticStub_inj {a b : String} : staticStub a = staticStub b ↔ a = b := by
  simp [staticStub]

/-- The two kinds of stubs begin differently. -/
theorem staticStub_ne_methodStub (a b : String) : staticStub a ≠ methodStub b := by
  intro h
  have := congrArg (fun s => s.toList.head?) h
  simp [staticStub, methodStub] at this

/-- Whether a fragment ends as a stub does, in an empty body. -/
def isStub (fragment : String) : Bool := "() \x7b \x7d\n".toList.isSuffixOf fragment.toList

theorem isStub_append (t : String) : isStub (t ++ "() \x7b \x7d\n") = true := by
  simp [isStub, String.toList_append]

theorem isStub_methodStub (m : String) : isStub (methodStub m) = true :=
  isStub_append ("void " ++ m)

theorem isStub_staticStub (m : String) : isStub (staticStub m) = true :=
  isStub_append ("static void " ++ m)

/-- A declaration ends in the comment that quotes its annotation. -/
theorem isStub_declaration (sig : Signature) (source : List Char) :
    isStub (sig.declaration source) = false := by
  rw [isStub, Bool.eq_false_iff, Ne, List.isSuffixOf_iff_suffix]
  rintro ⟨front, h⟩
  delta Signature.declaration at h
  simp only [String.toList_append] at h
  -- both endings have seven characters
  have hend := (List.append_inj' h (by decide)).2
  exact absurd hend (by decide)

theorem declaration_ne_methodStub (sig : Signature) (source : List Char) (m : String) :
    sig.declaration source ≠ methodStub m := by
  intro h
  have hstub := isStub_declaration sig source
  rw [h, isStub_methodStub] at hstub
  cases hstub

theorem declaration_ne_staticStub (sig : Signature) (source : List Char) (m : String) :
    sig.declaration source ≠ staticStub m := by
  intro h
  have hstub := isStub_declaration sig source
  rw [h, isStub_staticStub] at hstub
  cases hstub

/-! ### Origins -/

/-- Where a fragment in the body of a class comes from. -/
inductive Origin where
  /-- A method table that lists the name for objects. -/
  | ofObjects (name : String)
  /-- A method table that lists the name for the class. -/
  | ofClass (name : String)
  /-- The marker of a listing. -/
  | marker
  /-- A function annotation and its line. -/
  | declared (sig : Signature) (source : List Char)

namespace Origin

/-- The text of the fragment. -/
def fragment : Origin → String
  | ofObjects name => methodStub name
  | ofClass name => staticStub name
  | marker => markerStub
  | declared sig source => sig.declaration source

/-- The documented function and its line, if the fragment declares one. -/
def documented? : Origin → Option (Signature × List Char)
  | declared sig source => some (sig, source)
  | _ => none

/-- What can look like the stub of an object method. -/
theorem eq_of_fragment_eq_methodStub {o : Origin} {m : String} (h : o.fragment = methodStub m) :
    o = ofObjects m ∨ o = marker ∧ m = markerName := by
  cases o with
  | ofObjects name => exact .inl (congrArg ofObjects (methodStub_inj.mp h))
  | ofClass name => exact absurd h (staticStub_ne_methodStub name m)
  | marker => exact .inr ⟨rfl, (methodStub_inj.mp h).symm⟩
  | declared sig source => exact absurd h (declaration_ne_methodStub sig source m)

/-- The fragments that do not look like stubs are the declarations of documented functions. -/
theorem isStub_fragment (o : Origin) : isStub o.fragment = o.documented?.isNone := by
  cases o with
  | ofObjects name => exact isStub_methodStub name
  | ofClass name => exact isStub_staticStub name
  | marker => exact isStub_methodStub markerName
  | declared sig source => exact isStub_declaration sig source

end Origin

/-- Adds an origin for each class-level method that is not declared yet. -/
def addStaticOrigins (os : List Origin) (names : List String) : List Origin :=
  names.foldl
    (fun os m => if declares (os.map Origin.fragment) m then os else os ++ [.ofClass m]) os

/-- The origins without the first whose text is the stub of an object method. -/
def removeStub (os : List Origin) (m : String) : List Origin :=
  os.eraseP fun o => o.fragment == methodStub m

/-- What an effect does to the origins of the fragments of the class `name`. -/
def Effect.onOrigins (name : String) (os : List Origin) : Effect → List Origin
  | .methods owner names => if owner = name then os ++ names.map .ofObjects else os
  | .statics owner names => if owner = name then addStaticOrigins os names else os
  | .marker owner => if owner = name then os ++ [.marker] else os
  | .declare sig source =>
    if sig.owner = some name then
      (if sig.isConstructor then os else removeStub os sig.method) ++ [.declared sig source]
    else os
  | _ => os

/-- The origins of the fragments of the class `name` after some lines. -/
def originsAfter (d : Dialect) (name : String) (rs : List Reading) : List Origin :=
  (rs.filterMap (Reading.member? d)).foldl (Effect.onOrigins name) []

/-! ### Origins give the body -/

theorem map_fragment_addStaticOrigins (os : List Origin) (names : List String) :
    (addStaticOrigins os names).map Origin.fragment =
      addStatics (os.map Origin.fragment) names := by
  induction names generalizing os with
  | nil => rfl
  | cons m names ih =>
    -- both lists make the same choice, since the choice depends on the texts
    simp only [addStaticOrigins, addStatics, List.foldl_cons] at ih ⊢
    rw [ih]
    split
    · rfl
    · rw [List.map_append]
      rfl

theorem map_fragment_removeStub (os : List Origin) (m : String) :
    (removeStub os m).map Origin.fragment = (os.map Origin.fragment).erase (methodStub m) := by
  rw [List.erase_eq_eraseP', List.eraseP_map]
  rfl

/-- An effect changes the origins as it changes the body. -/
theorem map_fragment_onOrigins (name : String) (os : List Origin) (e : Effect) :
    (e.onOrigins name os).map Origin.fragment = e.onBody name (os.map Origin.fragment) := by
  cases e with
  | methods owner names =>
    simp only [Effect.onOrigins, Effect.onBody]
    split
    · rw [List.map_append, List.map_map]
      rfl
    · rfl
  | statics owner names =>
    simp only [Effect.onOrigins, Effect.onBody]
    split
    · exact map_fragment_addStaticOrigins os names
    · rfl
  | marker owner =>
    simp only [Effect.onOrigins, Effect.onBody]
    split
    · rw [List.map_append]
      rfl
    · rfl
  | declare sig source =>
    simp only [Effect.onOrigins, Effect.onBody]
    split
    · rw [List.map_append]
      split
      · rfl
      · rw [map_fragment_removeStub]
        rfl
    · rfl
  | _ => rfl

/-- **The body of a class consists of the texts of its origins.** -/
theorem body_eq_fragments (d : Dialect) (name : String) (rs : List Reading) :
    bodyAfter d name rs = (originsAfter d name rs).map Origin.fragment := by
  rw [bodyAfter_eq_foldl, originsAfter, ← List.foldl_hom (List.map Origin.fragment)
    fun os e => (map_fragment_onOrigins name os e).symm]
  rfl

/-! ### What a documented function removes -/

/-- The origins `os'` are `os`, up to one stub of the object method `m` or one marker that is left
out. -/
def LeavesOutStub (m : String) (os os' : List Origin) : Prop :=
  ∃ kept₁ removed kept₂ : List Origin,
    os = kept₁ ++ removed ++ kept₂ ∧ os' = kept₁ ++ kept₂ ∧ removed.length ≤ 1 ∧
      ∀ o ∈ removed, o = .ofObjects m ∨ o = .marker ∧ m = markerName

theorem leavesOutStub_refl (m : String) (os : List Origin) : LeavesOutStub m os os :=
  ⟨os, [], [], by simp, by simp, by simp, by simp⟩

/-- Removing by the text of a stub leaves out nothing else. -/
theorem leavesOutStub_removeStub (m : String) (os : List Origin) :
    LeavesOutStub m os (removeStub os m) := by
  rw [removeStub]
  -- either nothing has the text of the stub, or the first origin that has it is left out
  rcases List.exists_or_eq_self_of_eraseP (fun o : Origin => o.fragment == methodStub m) os with
    h | ⟨o, front, rest, -, hstub, hos, hrest⟩
  · rw [h]
    exact leavesOutStub_refl m os
  · refine ⟨front, [o], rest, by simpa using hos, hrest, Nat.le_refl 1, ?_⟩
    intro o' ho'
    rw [List.mem_singleton.mp ho']
    exact Origin.eq_of_fragment_eq_methodStub (by simpa using hstub)

/-- No documented function is left out. -/
theorem LeavesOutStub.filterMap_documented {m : String} {os os' : List Origin}
    (h : LeavesOutStub m os os') :
    os'.filterMap Origin.documented? = os.filterMap Origin.documented? := by
  obtain ⟨kept₁, removed, kept₂, rfl, rfl, -, hremoved⟩ := h
  have hnone : removed.filterMap Origin.documented? = [] := by
    rw [List.filterMap_eq_nil_iff]
    intro o ho
    obtain rfl | ⟨rfl, -⟩ := hremoved o ho <;> rfl
  simp [hnone]

/-! ### Documented functions -/

/-- The documented function and its line, if the effect declares one. -/
def Effect.documented? : Effect → Option (Signature × List Char)
  | .declare sig source => some (sig, source)
  | _ => none

/-- The functions that a text documents, each with its line. -/
def documented (d : Dialect) (text : List Char) : List (Signature × List Char) :=
  (readingsOf d text).filterMap fun r => (r.function? d).map fun sig => (sig, r.line d)

/-- The functions that a text documents for a class, or outside of every class. -/
def documentedIn (d : Dialect) (text : List Char) (owner : Option String) :
    List (Signature × List Char) :=
  (documented d text).filter fun p => p.1.owner = owner

/-- A line declares the function that it documents, and no other. -/
theorem documented?_member? (d : Dialect) (r : Reading) :
    (r.member? d).bind Effect.documented? = (r.function? d).map fun sig => (sig, r.line d) := by
  cases r.role d with
  | @ofTable kind owner names htable htag hfunction hmember =>
    rw [hmember, hfunction]
    cases kind <;> rfl
  | ofListing htable htag hfunction hmember => rw [hmember, hfunction]; rfl
  | ofFunction htable htag hfunction hmember => rw [hmember, hfunction]; rfl
  | ofOther htable htag hfunction hmember => rw [hmember, hfunction]; rfl

theorem documented_eq (d : Dialect) (text : List Char) :
    documented d text =
      ((readingsOf d text).filterMap (Reading.member? d)).filterMap Effect.documented? := by
  rw [List.filterMap_filterMap, documented]
  exact congrFun (congrArg List.filterMap (funext fun r => (documented?_member? d r).symm)) _

/-! ### Accounting for declarations -/

theorem filterMap_documented_addStaticOrigins (os : List Origin) (names : List String) :
    (addStaticOrigins os names).filterMap Origin.documented? =
      os.filterMap Origin.documented? := by
  induction names generalizing os with
  | nil => rfl
  | cons m names ih =>
    simp only [addStaticOrigins, List.foldl_cons] at ih ⊢
    rw [ih]
    split
    · rfl
    · simp [Origin.documented?]

/-- An effect adds the function that it declares for the class, and keeps the others. -/
theorem filterMap_documented_onOrigins (name : String) (os : List Origin) (e : Effect) :
    (e.onOrigins name os).filterMap Origin.documented? =
      os.filterMap Origin.documented? ++
        e.documented?.toList.filter fun p => p.1.owner = some name := by
  cases e with
  | methods owner names =>
    have hnone : (names.map Origin.ofObjects).filterMap Origin.documented? = [] := by
      simp [List.filterMap_eq_nil_iff, Origin.documented?]
    simp only [Effect.onOrigins]
    split <;> simp [hnone, Effect.documented?]
  | statics owner names =>
    simp only [Effect.onOrigins]
    split <;> simp [filterMap_documented_addStaticOrigins, Effect.documented?]
  | marker owner =>
    simp only [Effect.onOrigins]
    split <;> simp [Origin.documented?, Effect.documented?]
  | declare sig source =>
    simp only [Effect.onOrigins]
    split
    · next h =>
      have hkept : (if sig.isConstructor then os else removeStub os sig.method).filterMap
          Origin.documented? = os.filterMap Origin.documented? := by
        split
        · rfl
        · exact (leavesOutStub_removeStub sig.method os).filterMap_documented
      rw [List.filterMap_append, hkept]
      simp [Origin.documented?, Effect.documented?, h]
    · next h => simp [Effect.documented?, h]
  | _ => simp [Effect.onOrigins, Effect.documented?]

/-- So do effects in turn. -/
theorem filterMap_documented_foldl (name : String) (es : List Effect) (os : List Origin) :
    (es.foldl (Effect.onOrigins name) os).filterMap Origin.documented? =
      os.filterMap Origin.documented? ++
        (es.filterMap Effect.documented?).filter fun p => p.1.owner = some name := by
  induction es generalizing os with
  | nil => simp
  | cons e es ih =>
    rw [List.foldl_cons, ih, filterMap_documented_onOrigins, List.append_assoc,
      ← List.filter_append, List.filterMap_cons]
    cases e.documented? <;> rfl

/-- The declarations outside of every class grow by those of the documented functions without a
class. -/
theorem globals_foldl_onFile (es : List Effect) (f : FileFragments) :
    (es.foldl Effect.onFile f).globals =
      f.globals ++ ((es.filterMap Effect.documented?).filter fun p => p.1.owner = none).map
        fun p => p.1.declaration p.2 := by
  induction es generalizing f with
  | nil => simp
  | cons e es ih =>
    rw [List.foldl_cons, ih]
    cases e with
    | declare sig source =>
      cases howner : sig.owner with
      | none => simp [Effect.onFile, declareIn, Effect.documented?, howner]
      | some owner =>
        simp [Effect.onFile, declareIn, Effect.documented?, howner, FileFragments.updateClass]
    | _ => rfl

/-- Effects that are none on declarations declare no function. -/
theorem filterMap_documented_filter (es : List Effect) :
    (es.filter Effect.isMember).filterMap Effect.documented? =
      es.filterMap Effect.documented? := by
  rw [List.filterMap_filter]
  congr 1
  funext e
  cases e <;> rfl

/-- The fragments that do not look like stubs are the declarations of the documented functions. -/
theorem filter_not_isStub (os : List Origin) :
    (os.map Origin.fragment).filter (fun t => !isStub t) =
      (os.filterMap Origin.documented?).map fun p => p.1.declaration p.2 := by
  induction os with
  | nil => rfl
  | cons o os ih =>
    rw [List.map_cons, List.filter_cons, Origin.isStub_fragment, ih, List.filterMap_cons]
    cases o <;> rfl

/-! ### Whole files -/

/-- The declaration of a documented function stays in its class. -/
theorem declaration_mem_bodyAfter {d : Dialect} {rs : List Reading} {r : Reading} {sig : Signature}
    {name : String} (hr : r ∈ rs) (hsig : r.function? d = some sig)
    (howner : sig.owner = some name) : sig.declaration (r.line d) ∈ bodyAfter d name rs := by
  have hdocumented : (sig, r.line d) ∈ (originsAfter d name rs).filterMap Origin.documented? := by
    rw [originsAfter, filterMap_documented_foldl, List.filterMap_filterMap]
    have hfunction : (sig, r.line d) ∈
        rs.filterMap fun r => (r.member? d).bind Effect.documented? :=
      List.mem_filterMap.mpr ⟨r, hr, by simp [documented?_member?, hsig]⟩
    simpa [howner] using hfunction
  obtain ⟨o, ho, hosig⟩ := List.mem_filterMap.mp hdocumented
  rw [body_eq_fragments]
  refine List.mem_map.mpr ⟨o, ho, ?_⟩
  cases o with
  | declared sig' source =>
    cases hosig
    rfl
  | _ => cases hosig

/-- A documented function removes at most a stub from its class and adds its declaration. -/
theorem originsAfter_function {d : Dialect} {r : Reading} {sig : Signature} {name : String}
    (hsig : r.function? d = some sig) (howner : sig.owner = some name) (rs : List Reading) :
    ∃ kept : List Origin, LeavesOutStub sig.method (originsAfter d name rs) kept ∧
      originsAfter d name (rs ++ [r]) = kept ++ [.declared sig (r.line d)] := by
  have hmember : r.member? d = some (.declare sig (r.line d)) := by
    cases r.role d with
    | ofFunction htable htag hfunction hmember =>
      rw [hmember]
      cases hfunction.symm.trans hsig
      rfl
    | _ => simp_all
  have hlast : originsAfter d name (rs ++ [r]) =
      (if sig.isConstructor then originsAfter d name rs
        else removeStub (originsAfter d name rs) sig.method) ++ [.declared sig (r.line d)] := by
    simp [originsAfter, hmember, Effect.onOrigins, howner]
  refine ⟨_, ?_, hlast⟩
  split
  · exact leavesOutStub_refl _ _
  · exact leavesOutStub_removeStub _ _

/-- **Declarations are kept as they are written.**  In a file that is scanned to its end, the
declarations outside of every class are those of the documented functions without a class, in order.
The fragments of a class have origins from the first line to the last.  Those declared by hand are
in the end exactly the documented functions of the class, in order, and these are also the fragments
that do not look like stubs.  A documented function only adds its declaration at the end, and leaves
out at most one stub of an object method or one marker. -/
theorem declarations_of_scan {d : Dialect} {s : Streams} {text : List Char} {f : FileFragments}
    (h : (scan d s text).result = .ok f) :
    f.globals = (documentedIn d text none).map (fun p => p.1.declaration p.2) ∧
    ∀ name : String,
      (f.classOf name).body = (originsAfter d name (readingsOf d text)).map Origin.fragment ∧
      (originsAfter d name (readingsOf d text)).filterMap Origin.documented? =
        documentedIn d text (some name) ∧
      (f.classOf name).body.filter (fun t => !isStub t) =
        (documentedIn d text (some name)).map (fun p => p.1.declaration p.2) ∧
      (∀ pre : List Reading, pre <+: readingsOf d text →
        bodyAfter d name pre = (originsAfter d name pre).map Origin.fragment) ∧
      ∀ (pre post : List Reading) (r : Reading) (sig : Signature),
        readingsOf d text = pre ++ r :: post → r.function? d = some sig → sig.owner = some name →
        ∃ kept : List Origin, LeavesOutStub sig.method (originsAfter d name pre) kept ∧
          originsAfter d name (pre ++ [r]) = kept ++ [.declared sig (r.line d)] := by
  constructor
  · obtain ⟨es, hes, rfl⟩ := scan_result_eq_ok.mp h
    rw [globals_foldl_onFile, ← filterMap_documented_filter, members_of_file hes, documentedIn,
      documented_eq]
    rfl
  · intro name
    have hbody : (f.classOf name).body =
        (originsAfter d name (readingsOf d text)).map Origin.fragment := by
      rw [body_of_scan h, body_eq_fragments]
    have hdocumented : (originsAfter d name (readingsOf d text)).filterMap Origin.documented? =
        documentedIn d text (some name) := by
      rw [originsAfter, filterMap_documented_foldl, documentedIn, documented_eq]
      rfl
    refine ⟨hbody, hdocumented, ?_, ?_, ?_⟩
    · rw [hbody, filter_not_isStub, hdocumented]
    · intro pre _
      exact body_eq_fragments d name pre
    · intro pre post r sig _ hsig howner
      exact originsAfter_function hsig howner pre

/-- A file whose functions remove a stub and the marker. -/
def shipFile : List Char :=
  ("#define LUA_METHODS(CLASS, METHOD) \\\nMETHOD(CLASS, fire, 1) \\\nMETHOD(CLASS, dock, 1)\n" ++
    "GENERATE_LUA_METHODS_TABLE(Ship, LUA_METHODS);\n/**\n@luafuncsheader Ship\n" ++
    "@luafunc Ship::fire(n)\n@luafunc print(s)\n@luafunc Ship::DummyConstructor()").toList

/-- The fragments of this file. -/
def shipFragments : FileFragments where
  classes := [("Ship", ⟨"", ["void dock() \x7b \x7d\n",
    "void fire(n) \x7b /* From '@luafunc Ship::fire(n)' */ \x7d\n",
    "void DummyConstructor() \x7b /* From '@luafunc Ship::DummyConstructor()' */ \x7d\n"]⟩)]
  globals := ["void print(s) \x7b /* From '@luafunc print(s)' */ \x7d\n"]
  comments := ["/*!\n", "\\fn Ship::DummyConstructor\n", " \\fn  Ship::fire(n)\n",
    " \\fn  global::print(s)\n", " \\fn  Ship::DummyConstructor()\n", "*/\n"]

theorem declarations_of_shipFile :
    (scan .block {} shipFile).result = .ok shipFragments ∧
      shipFragments.globals =
        (documentedIn .block shipFile none).map (fun p => p.1.declaration p.2) ∧
      (shipFragments.classOf "Ship").body.filter (fun t => !isStub t) =
        (documentedIn .block shipFile (some "Ship")).map (fun p => p.1.declaration p.2) := by
  have h : (scan .block {} shipFile).result = .ok shipFragments := by decide +kernel
  obtain ⟨hglobals, hclasses⟩ := declarations_of_scan h
  obtain ⟨-, -, hdeclared, -⟩ := hclasses "Ship"
  exact ⟨h, hglobals, hdeclared⟩

end BindingDocs.Scan
