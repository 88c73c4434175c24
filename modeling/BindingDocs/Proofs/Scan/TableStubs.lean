import BindingDocs.Proofs.Scan.Declarations
import Mathlib.Algebra.GroupWithZero.Nat
import Mathlib.Data.List.Count
import Mathlib.Data.List.Induction

/-!
# Stubs and documentation of a method

A method may be known from a method table and from its documentation.  One then wants the
declaration written by hand and no stub; a method that is only listed should have a stub.  The
scanner does not always achieve this.  A documented function removes one stub of an object method,
if one is there already, and a table for the class skips the names that the class seems to declare.
Here it is shown exactly which stubs are left.

## Main definitions

* `Reading.stubs`, `Reading.replaces`, `Reading.documents` — what a line does for a method.
* `Balanced` — every stub of an object method is followed by a function that removes it.
* `SkippedByTables` — every table for the class finds the method declared already.
* `Reconciled` — the stubs of a method agree with its documentation.

## Main results

* `methodStub_notMem_iff`, `staticStub_notMem_iff` — which stubs are left.
* `reconciled_iff_of_scan` — **when the stubs agree with the documentation.**
-/

namespace BindingDocs.Scan

open Declaration

/-! ### What a line does for a method -/

namespace Reading

/-- How many stubs of the object method `m` the line adds to the class `name`. -/
def stubs (d : Dialect) (name m : String) (r : Reading) : Nat :=
  match r.table? d, r.tag? d with
  | some (.ofObjects, owner, names), _ => if owner = name then names.count m else 0
  | none, some (.listing owner) => if owner = name ∧ markerName = m then 1 else 0
  | _, _ => 0

/-- Whether the line documents the method `m` of the class `name`. -/
def documents (d : Dialect) (name m : String) (r : Reading) : Bool :=
  (r.function? d).any fun sig => sig.owner = some name ∧ sig.method = m

/-- Whether the line documents the method `m` of the class `name` and not as a constructor. -/
def replaces (d : Dialect) (name m : String) (r : Reading) : Bool :=
  (r.function? d).any fun sig =>
    sig.owner = some name ∧ sig.method = m ∧ sig.isConstructor = false

end Reading

section ObjectStubs

variable {d : Dialect} {name m : String}

/-! ### Stubs of object methods -/

theorem count_methodStub_addStatics (body names : List String) :
    (addStatics body names).count (methodStub m) = body.count (methodStub m) := by
  induction names generalizing body with
  | nil => rfl
  | cons x names ih =>
    simp only [addStatics, List.foldl_cons] at ih ⊢
    rw [ih]
    split
    · rfl
    · simp [List.count_append, staticStub_ne_methodStub]

theorem count_map_methodStub (names : List String) :
    (names.map methodStub).count (methodStub m) = names.count m :=
  List.count_map_of_injective names methodStub (fun _ _ h => methodStub_inj.mp h) m

/-- A documented function removes one stub of its method, unless it is a constructor. -/
theorem count_methodStub_declare (body : List String) (sig : Signature) (source : List Char) :
    ((Effect.declare sig source).onBody name body).count (methodStub m) =
      body.count (methodStub m) -
        (if sig.owner = some name ∧ sig.method = m ∧ sig.isConstructor = false then 1 else 0) := by
  simp only [Effect.onBody]
  split
  · next howner =>
    rw [List.count_append]
    cases hc : sig.isConstructor with
    | true => simp [declaration_ne_methodStub]
    | false =>
      simp [List.count_erase, declaration_ne_methodStub, methodStub_inj, howner]
  · next howner => simp [howner]

/-- **What one line does to the number of stubs of an object method.** -/
theorem count_methodStub_concat (rs : List Reading) (r : Reading) :
    (bodyAfter d name (rs ++ [r])).count (methodStub m) =
      (bodyAfter d name rs).count (methodStub m) + r.stubs d name m -
        (if r.replaces d name m then 1 else 0) := by
  rw [bodyAfter_concat]
  cases r.role d with
  | @ofTable kind owner names htable htag hfunction hmember =>
    simp only [hmember, Reading.stubs, htable, Reading.replaces, hfunction]
    cases kind with
    | ofObjects =>
      by_cases howner : owner = name
      · simp [MethodKind.table, Effect.onBody, howner, List.count_append, count_map_methodStub]
      · simp [MethodKind.table, Effect.onBody, howner]
    | ofClass =>
      by_cases howner : owner = name
      · simp [MethodKind.table, Effect.onBody, howner, count_methodStub_addStatics]
      · simp [MethodKind.table, Effect.onBody, howner]
  | @ofListing owner htable htag hfunction hmember =>
    simp only [hmember, Reading.stubs, htable, htag, Reading.replaces, hfunction]
    by_cases howner : owner = name
    · simp [Effect.onBody, howner, List.count_append, markerStub, List.count_singleton,
        methodStub_inj]
    · simp [Effect.onBody, howner]
  | ofFunction htable htag hfunction hmember =>
    simp [hmember, count_methodStub_declare, Reading.stubs, htable, htag, Reading.replaces,
      hfunction]
  | ofOther htable htag hfunction hmember =>
    have hstubs : r.stubs d name m = 0 := by
      unfold Reading.stubs
      split <;> simp_all
    simp [hmember, hstubs, Reading.replaces, hfunction]

/-- Every stub of the object method `m` is followed by a function that removes it: from every line
on, no more stubs are added than functions replace them. -/
def Balanced (d : Dialect) (name m : String) (rs : List Reading) : Prop :=
  ∀ t, t <:+ rs → (t.map (Reading.stubs d name m)).sum ≤ t.countP (Reading.replaces d name m)

/-- How many stubs are left at most.  The bound takes part in the induction, since the functions
that come later remove stubs of the lines before. -/
theorem count_methodStub_le_iff (rs : List Reading) (k : Nat) :
    (bodyAfter d name rs).count (methodStub m) ≤ k ↔
      ∀ t, t <:+ rs → (t.map (Reading.stubs d name m)).sum ≤
        t.countP (Reading.replaces d name m) + k := by
  induction rs using List.reverseRecOn generalizing k with
  | nil =>
    constructor
    · intro _ t ht
      rw [List.suffix_nil.mp ht]
      exact Nat.zero_le _
    · intro _
      exact Nat.zero_le _
  | append_singleton rs r ih =>
    -- the last line may remove a stub, so what is left before it may exceed the bound by that
    rw [count_methodStub_concat]
    generalize hb : (if r.replaces d name m then 1 else 0) = b
    have hcount : ∀ t : List Reading, (t ++ [r]).countP (Reading.replaces d name m) =
        t.countP (Reading.replaces d name m) + b := by
      intro t
      rw [List.countP_append, List.countP_singleton, hb]
    constructor
    · intro hle t ht
      rcases List.suffix_concat_iff.mp ht with rfl | ⟨t', rfl, ht'⟩
      · exact Nat.zero_le _
      · have hfront := (ih (b + k - r.stubs d name m)).mp (by omega) t' ht'
        rw [hcount, List.map_append, List.sum_append_nat]
        simp only [List.map_cons, List.map_nil, List.sum_singleton]
        omega
    · intro hall
      have hlast : r.stubs d name m ≤ b + k := by
        have := hall ([] ++ [r]) (List.suffix_concat_iff.mpr (.inr ⟨[], rfl, List.nil_suffix⟩))
        rw [hcount] at this
        simpa using this
      have hfront : (bodyAfter d name rs).count (methodStub m) ≤ b + k - r.stubs d name m := by
        rw [ih]
        intro t ht
        have := hall (t ++ [r]) (List.suffix_concat_iff.mpr (.inr ⟨t, rfl, ht⟩))
        rw [hcount, List.map_append, List.sum_append_nat] at this
        simp only [List.map_cons, List.map_nil, List.sum_singleton] at this
        omega
      omega

/-- **No stub of an object method is left exactly when each is followed by a function that removes
it.** -/
theorem methodStub_notMem_iff (rs : List Reading) :
    methodStub m ∉ bodyAfter d name rs ↔ Balanced d name m rs := by
  rw [← List.count_eq_zero, ← Nat.le_zero, count_methodStub_le_iff]
  rfl

end ObjectStubs

/-! ### Stubs of class-level methods -/

/-- The places of a list with one more element at its end. -/
theorem forall_split_concat {α : Type} {P : List α → α → Prop} (l : List α) (x : α) :
    (∀ pre a post, l ++ [x] = pre ++ a :: post → P pre a) ↔
      (∀ pre a post, l = pre ++ a :: post → P pre a) ∧ P l x := by
  constructor
  · intro h
    refine ⟨?_, h l x [] rfl⟩
    intro pre a post hl
    exact h pre a (post ++ [x]) (by simp [hl])
  · rintro ⟨hfront, hlast⟩ pre a post hl
    rcases List.eq_nil_or_concat post with rfl | ⟨post', y, rfl⟩
    · -- the place is the last one
      obtain ⟨rfl, hx⟩ := List.append_inj' hl rfl
      cases hx
      exact hlast
    · have hl' : l ++ [x] = (pre ++ a :: post') ++ [y] := by simpa using hl
      exact hfront pre a post' (List.append_inj' hl' rfl).1

theorem addStatics_concat (body names : List String) (x : String) :
    addStatics body (names ++ [x]) =
      if declares (addStatics body names) x then addStatics body names
      else addStatics body names ++ [staticStub x] := by
  rw [addStatics, List.foldl_append]
  rfl

/-- A table for the class adds no stub of `m` exactly when the class declares `m` wherever the table
lists it. -/
theorem staticStub_notMem_addStatics (body names : List String) (m : String) :
    staticStub m ∉ addStatics body names ↔
      staticStub m ∉ body ∧ ∀ n₁ x n₂, names = n₁ ++ x :: n₂ →
        x = m → declares (addStatics body n₁) m = true := by
  induction names using List.reverseRecOn with
  | nil => simp [addStatics]
  | append_singleton names x ih =>
    rw [forall_split_concat (P := fun n₁ x => x = m → declares (addStatics body n₁) m = true),
      ← and_assoc, ← ih, addStatics_concat]
    split
    · next h => exact ⟨fun hm => ⟨hm, fun hx => hx ▸ h⟩, And.left⟩
    · next h =>
      rw [List.mem_append, not_or, List.mem_singleton, staticStub_inj]
      refine and_congr_right fun _ => ⟨fun hne hx => absurd hx.symm hne, ?_⟩
      rintro hdeclares rfl
      exact h (hdeclares rfl)

section ClassStubs

variable {d : Dialect} {name m : String}

/-- The line adds no stub of the class-level method `m`: if it ends a table for the class `name`,
then wherever the table lists `m` the class declares it already. -/
def Reading.Skips (d : Dialect) (name m : String) (before : List Reading) (r : Reading) : Prop :=
  ∀ names, r.table? d = some (.ofClass, name, names) → ∀ n₁ x n₂, names = n₁ ++ x :: n₂ →
    x = m → declares (addStatics (bodyAfter d name before) n₁) m = true

/-- No other effect adds or removes stubs of class-level methods. -/
theorem staticStub_mem_onBody {e : Effect} (he : ∀ owner names, e ≠ .statics owner names)
    (body : List String) : staticStub m ∈ e.onBody name body ↔ staticStub m ∈ body := by
  cases e with
  | methods owner names =>
    have hne : ∀ x, methodStub x ≠ staticStub m := fun x => (staticStub_ne_methodStub m x).symm
    simp only [Effect.onBody]
    split <;> simp [hne]
  | statics owner names => exact absurd rfl (he owner names)
  | marker owner =>
    simp only [Effect.onBody]
    split <;> simp [markerStub, staticStub_ne_methodStub]
  | declare sig source =>
    simp only [Effect.onBody]
    split
    · rw [List.mem_append, List.mem_singleton, or_iff_left (declaration_ne_staticStub _ _ _).symm]
      split
      · rfl
      · exact List.mem_erase_of_ne (staticStub_ne_methodStub m sig.method)
    · rfl
  | _ => rfl

/-- **What one line does to the stubs of a class-level method.** -/
theorem staticStub_notMem_concat (rs : List Reading) (r : Reading) :
    staticStub m ∉ bodyAfter d name (rs ++ [r]) ↔
      staticStub m ∉ bodyAfter d name rs ∧ r.Skips d name m rs := by
  rw [bodyAfter_concat, Reading.Skips]
  cases r.role d with
  | @ofTable kind owner names htable htag hfunction hmember =>
    simp only [hmember, htable]
    cases kind with
    | ofObjects => simp [MethodKind.table, staticStub_mem_onBody]
    | ofClass =>
      by_cases howner : owner = name
      · subst howner
        simp [MethodKind.table, Effect.onBody, staticStub_notMem_addStatics]
      · simp [MethodKind.table, Effect.onBody, howner]
  | ofListing htable htag hfunction hmember => simp [hmember, htable, staticStub_mem_onBody]
  | ofFunction htable htag hfunction hmember => simp [hmember, htable, staticStub_mem_onBody]
  | ofOther htable htag hfunction hmember => simp [hmember, htable]

/-- Each table for the class that lists `m` before it is documented finds it declared already. -/
def SkippedByTables (d : Dialect) (name m : String) (rs : List Reading) : Prop :=
  ∀ before r after, rs = before ++ r :: after →
    (∀ r' ∈ before, r'.documents d name m = false) → r.Skips d name m before

theorem declaresIn_append (u v : List Char) :
    declaresIn m (u ++ ' ' :: (m.toList ++ '(' :: v)) = true := by
  induction u with
  | nil =>
    have hbegins : Text.beginsWith (m.toList ++ ['(']) (m.toList ++ '(' :: v) = true := by
      simp [Text.beginsWith, Option.isSome_iff_exists, Text.after?_eq_some_iff]
    rw [List.nil_append, declaresIn, hbegins]
    rfl
  | cons c u ih => simp [declaresIn, ih]

/-- A declaration declares its method. -/
theorem declaresIn_declaration (sig : Signature) (source : List Char) :
    declaresIn sig.method (sig.declaration source).toList = true := by
  delta Signature.declaration
  -- the blank before the name and the parenthesis after it are fixed
  have hblank : " ".toList = [' '] := by decide
  have hopen : "(".toList = ['('] := by decide
  simp only [String.toList_append, List.append_assoc, hblank, hopen, List.singleton_append]
  rw [← List.append_assoc]
  exact declaresIn_append _ _

/-- A table leaves in place what is there. -/
theorem prefix_addStatics (body names : List String) : body <+: addStatics body names := by
  induction names using List.reverseRecOn with
  | nil => exact List.prefix_refl body
  | append_singleton names x ih =>
    rw [addStatics_concat]
    split
    · exact ih
    · exact ih.trans (List.prefix_append _ _)

/-- A table for the class skips the methods that are documented before it. -/
theorem skips_of_documents {before : List Reading} {r r' : Reading} (hr' : r' ∈ before)
    (h : r'.documents d name m = true) : r.Skips d name m before := by
  rintro names _ n₁ x n₂ _ rfl
  cases hsig : r'.function? d with
  | none => simp [Reading.documents, hsig] at h
  | some sig =>
    obtain ⟨howner, rfl⟩ : sig.owner = some name ∧ sig.method = x := by
      simpa [Reading.documents, hsig] using h
    have hmem := declaration_mem_bodyAfter hr' hsig howner
    exact List.any_eq_true.mpr ⟨_, (prefix_addStatics _ n₁).subset hmem,
      declaresIn_declaration sig (r'.line d)⟩

/-- **No stub of a class-level method is left exactly when every table for the class skips it.** -/
theorem staticStub_notMem_iff (rs : List Reading) :
    staticStub m ∉ bodyAfter d name rs ↔ SkippedByTables d name m rs := by
  have hskips : staticStub m ∉ bodyAfter d name rs ↔
      ∀ before r after, rs = before ++ r :: after → r.Skips d name m before := by
    induction rs using List.reverseRecOn with
    | nil => simp [bodyAfter, fragmentsAfter, FileFragments.classOf, ClassTable.get?]
    | append_singleton rs r ih => rw [staticStub_notMem_concat, forall_split_concat, ih]
  rw [hskips]
  constructor
  · intro h before r after hrs _
    exact h before r after hrs
  · intro h before r after hrs
    -- tables after the documentation skip the method anyway
    by_cases hdoc : ∃ r' ∈ before, r'.documents d name m = true
    · obtain ⟨r', hr', hdocuments⟩ := hdoc
      exact skips_of_documents hr' hdocuments
    · exact h before r after hrs (by simpa using hdoc)

end ClassStubs

/-! ### Whole files -/

/-- The class holds a stub of the method. -/
def HasStub (body : List String) (m : String) : Prop := methodStub m ∈ body ∨ staticStub m ∈ body

/-- The stubs of the method `m` of the class `name` agree with its documentation: there is none if
it is documented, unless as a constructor, and there is one if it is not documented. -/
def Reconciled (d : Dialect) (text : List Char) (f : FileFragments) (name m : String) : Prop :=
  ((∃ r ∈ readingsOf d text, r.replaces d name m = true) → ¬HasStub (f.classOf name).body m) ∧
  ((∀ r ∈ readingsOf d text, r.documents d name m = false) → HasStub (f.classOf name).body m)

theorem documents_of_replaces {d : Dialect} {name m : String} {r : Reading}
    (h : r.replaces d name m = true) : r.documents d name m = true := by
  cases hsig : r.function? d with
  | none => simp [Reading.replaces, hsig] at h
  | some sig =>
    obtain ⟨howner, hm, -⟩ :
        sig.owner = some name ∧ sig.method = m ∧ sig.isConstructor = false := by
      simpa [Reading.replaces, hsig] using h
    simp [Reading.documents, hsig, howner, hm]

/-- Without documentation, a stub of an object method stays. -/
theorem balanced_iff_of_undocumented {d : Dialect} {name m : String} {rs : List Reading}
    (h : ∀ r ∈ rs, r.documents d name m = false) :
    Balanced d name m rs ↔ ∀ r ∈ rs, r.stubs d name m = 0 := by
  have hnone : ∀ t, t <:+ rs → t.countP (Reading.replaces d name m) = 0 := by
    intro t ht
    rw [List.countP_eq_zero]
    intro r hr hreplaces
    have hdocuments := documents_of_replaces hreplaces
    rw [h r (ht.subset hr)] at hdocuments
    cases hdocuments
  constructor
  · intro hbalanced r hr
    have hsum := hbalanced rs (List.suffix_refl rs)
    rw [hnone rs (List.suffix_refl rs), Nat.le_zero, List.sum_eq_zero_iff_forall_eq_nat] at hsum
    exact hsum _ (List.mem_map_of_mem hr)
  · intro hzero t ht
    rw [hnone t ht, Nat.le_zero, List.sum_eq_zero_iff_forall_eq_nat]
    intro n hn
    obtain ⟨r, hr, rfl⟩ := List.mem_map.mp hn
    exact hzero r (ht.subset hr)

/-- **When the stubs agree with the documentation.**  In a file that is scanned to its end, this is
so for a method of a class exactly when both of the following hold.

* If it is documented, unless as a constructor, then every stub of an object method is followed by a
  function that removes it, and every table for the class that comes before the documentation finds
  the method declared already.
* If it is not documented, then a table for objects lists it, or it is the marker of a listing, or
  some table for the class lists it where nothing seems to declare it. -/
theorem reconciled_iff_of_scan {d : Dialect} {s : Streams} {text : List Char} {f : FileFragments}
    (h : (scan d s text).result = .ok f) (name m : String) :
    Reconciled d text f name m ↔
      ((∃ r ∈ readingsOf d text, r.replaces d name m = true) →
        Balanced d name m (readingsOf d text) ∧ SkippedByTables d name m (readingsOf d text)) ∧
      ((∀ r ∈ readingsOf d text, r.documents d name m = false) →
        (∃ r ∈ readingsOf d text, 0 < r.stubs d name m) ∨
          ¬SkippedByTables d name m (readingsOf d text)) := by
  have hstub : ¬HasStub (f.classOf name).body m ↔
      Balanced d name m (readingsOf d text) ∧ SkippedByTables d name m (readingsOf d text) := by
    rw [body_of_scan h name, HasStub, not_or, methodStub_notMem_iff, staticStub_notMem_iff]
  rw [Reconciled, hstub]
  refine and_congr_right fun _ => imp_congr_right fun hundocumented => ?_
  -- nothing removes a stub here, so it is enough that one line adds one
  rw [← not_iff_not, hstub, balanced_iff_of_undocumented hundocumented]
  simp [Nat.pos_iff_ne_zero]

/-- A file that documents a class-level method after the table that lists it. -/
def geomFile : List Char :=
  ("#define LUA_STATIC_METHODS(METHOD) \\\nMETHOD(area, 1)\n" ++
    "GENERATE_LUA_STATIC_METHODS_TABLE(Geom, LUA_STATIC_METHODS);\n" ++
    "/**\n@luafunc static num Geom::area(p)\n*/\n").toList

/-- The fragments of this file, with the stub still there. -/
def geomFragments : FileFragments where
  classes := [("Geom", ⟨"class Geom \x7b \n public:\n", ["static void area() \x7b \x7d\n",
    "static num area(p) \x7b /* From '@luafunc static num Geom::area(p)' */ \x7d\n"]⟩)]
  comments := ["/*!\n", " \\fn num Geom::area(p)\n", "*/\n"]

theorem not_reconciled_geomFile :
    (scan .block {} geomFile).result = .ok geomFragments ∧
      ¬Reconciled .block geomFile geomFragments "Geom" "area" ∧
      ¬(Balanced .block "Geom" "area" (readingsOf .block geomFile) ∧
        SkippedByTables .block "Geom" "area" (readingsOf .block geomFile)) := by
  have h : (scan .block {} geomFile).result = .ok geomFragments := by decide +kernel
  have hreplaced : ∃ r ∈ readingsOf .block geomFile, r.replaces .block "Geom" "area" = true := by
    decide +kernel
  have hnot : ¬Reconciled .block geomFile geomFragments "Geom" "area" := by
    intro hreconciled
    exact hreconciled.1 hreplaced (.inr (by decide +kernel))
  refine ⟨h, hnot, fun hskipped => hnot ?_⟩
  refine (reconciled_iff_of_scan h "Geom" "area").mpr ⟨fun _ => hskipped, fun hundocumented => ?_⟩
  obtain ⟨r, hr, hreplaces⟩ := hreplaced
  have hdocuments := documents_of_replaces hreplaces
  rw [hundocumented r hr] at hdocuments
  cases hdocuments

end BindingDocs.Scan
