import BindingDocs.Proofs.Scan.Reading

/-!
# The declarations in a class

The body of a class grows and shrinks with the lines of a file: method tables and markers add
stubs, a documented function adds its declaration and may remove a stub.  All this happens by the
texts alone.  Here the body of one class is followed on its own, through the effects of the file and
through its lines.

## Main definitions

* `FileFragments.classOf` — the fragments of a class, empty if it was not referenced.
* `Effect.onBody` — what an effect does to the body of a class.
* `fragmentsAfter`, `bodyAfter` — the fragments of a file and the body of a class after some lines.

## Main results

* `bodyAfter_eq_foldl` — the body of a class is what the lines make of the empty body.
* `body_of_scan` — the same for a file that was scanned to its end.
-/

namespace BindingDocs

namespace ClassTable

theorem get?_cons (n name : String) (c : ClassFragments) (t : ClassTable) :
    get? ((n, c) :: t) name = if name = n then some c else t.get? name := by
  rw [get?, List.lookup_cons]
  by_cases h : name = n
  · simp [h]
  · have hbeq : (name == n) = false := by simpa using h
    simp [hbeq, h, get?]

/-- Changing the fragments of a class changes no other class. -/
theorem get?_update (t : ClassTable) (name other : String) (g : ClassFragments → ClassFragments) :
    (update name g t).get? other =
      if other = name then some (g ((t.get? name).getD {})) else t.get? other := by
  induction t with
  | nil => rw [update, get?_cons]; rfl
  | cons entry t ih =>
    obtain ⟨n, c⟩ := entry
    rw [update]
    -- `other` may be this entry, the changed one, or neither
    by_cases hn : n = name
    · subst hn
      by_cases h : other = n <;> simp [get?_cons, h]
    · rw [if_neg hn, get?_cons, get?_cons, get?_cons, ih, if_neg (Ne.symm hn)]
      by_cases h : other = n
      · simp [h, hn]
      · simp [h]

end ClassTable

namespace FileFragments

/-- The fragments of a class, empty if it was not referenced. -/
def classOf (f : FileFragments) (name : String) : ClassFragments := (f.classes.get? name).getD {}

theorem classOf_updateClass (f : FileFragments) (name other : String)
    (g : ClassFragments → ClassFragments) :
    (f.updateClass name g).classOf other =
      if other = name then g (f.classOf name) else f.classOf other := by
  simp only [classOf, updateClass, ClassTable.get?_update]
  split <;> rfl

end FileFragments

namespace Scan

/-! ### Effects on one body -/

/-- What an effect does to the body of the class `name`. -/
def Effect.onBody (name : String) (body : List String) : Effect → List String
  | .methods owner names =>
    if owner = name then body ++ names.map Declaration.methodStub else body
  | .statics owner names => if owner = name then addStatics body names else body
  | .marker owner => if owner = name then body ++ [Declaration.markerStub] else body
  | .declare sig source =>
    if sig.owner = some name then
      (if sig.isConstructor then body else body.erase (Declaration.methodStub sig.method)) ++
        [sig.declaration source]
    else body
  | _ => body

/-- Opening a class leaves its body alone. -/
theorem body_openIfUnset (c : ClassFragments) (header : String) :
    (c.openIfUnset header).body = c.body := by
  unfold ClassFragments.openIfUnset
  split <;> rfl

/-- The body of a class changes as `Effect.onBody` says. -/
theorem body_onFile (e : Effect) (f : FileFragments) (name : String) :
    ((e.onFile f).classOf name).body = e.onBody name (f.classOf name).body := by
  cases e with
  | declare sig source =>
    -- the only effect whose class is found in a signature, which may have none
    cases howner : sig.owner with
    | none => simp [Effect.onFile, declareIn, howner, Effect.onBody, FileFragments.classOf]
    | some owner =>
      by_cases h : name = owner
      · subst h
        cases hc : sig.isConstructor <;>
          simp [Effect.onFile, declareIn, howner, Effect.onBody,
            FileFragments.classOf_updateClass, hc, ClassFragments.add, ClassFragments.remove]
      · simp [Effect.onFile, declareIn, howner, Effect.onBody, FileFragments.classOf_updateClass, h,
          Ne.symm h]
  | methods owner names =>
    by_cases h : name = owner
    · simp [Effect.onFile, Effect.onBody, FileFragments.classOf_updateClass, h, ClassFragments.add]
    · simp [Effect.onFile, Effect.onBody, FileFragments.classOf_updateClass, h, Ne.symm h]
  | statics owner names =>
    by_cases h : name = owner
    · subst h
      simp [Effect.onFile, Effect.onBody, FileFragments.classOf_updateClass, body_openIfUnset]
    · simp [Effect.onFile, Effect.onBody, FileFragments.classOf_updateClass, h, Ne.symm h]
  | marker owner =>
    by_cases h : name = owner
    · simp [Effect.onFile, Effect.onBody, FileFragments.classOf_updateClass, h, ClassFragments.add]
    · simp [Effect.onFile, Effect.onBody, FileFragments.classOf_updateClass, h, Ne.symm h]
  | register r =>
    rw [Effect.onFile, FileFragments.classOf_updateClass]
    split
    · next h => rw [h]; rfl
    · rfl
  | openClass owner =>
    rw [Effect.onFile, FileFragments.classOf_updateClass]
    split
    · next h => rw [h, body_openIfUnset]; rfl
    · rfl
  | comment fragment | mainPage fragment | enums fragment | notice n => rfl

/-- Only the effects on declarations change the body of a class. -/
theorem onBody_of_not_isMember {e : Effect} (h : e.isMember = false) (name : String)
    (body : List String) : e.onBody name body = body := by
  cases e with
  | methods owner names | statics owner names | marker owner | declare sig source =>
    simp [Effect.isMember] at h
  | _ => rfl

theorem foldl_onBody_filter (name : String) (es : List Effect) (body : List String) :
    (es.filter Effect.isMember).foldl (Effect.onBody name) body =
      es.foldl (Effect.onBody name) body := by
  induction es generalizing body with
  | nil => rfl
  | cons e es ih =>
    cases h : e.isMember with
    | false => simp [h, ih, onBody_of_not_isMember h]
    | true => simp [h, ih]

theorem body_foldl_onFile (name : String) (es : List Effect) (f : FileFragments) :
    ((es.foldl Effect.onFile f).classOf name).body =
      es.foldl (Effect.onBody name) (f.classOf name).body := by
  induction es generalizing f with
  | nil => rfl
  | cons e es ih => rw [List.foldl_cons, List.foldl_cons, ih, body_onFile]

/-! ### Lines on one body -/

/-- The fragments of a file after some of its lines. -/
def fragmentsAfter (d : Dialect) (rs : List Reading) : FileFragments :=
  (rs.flatMap (Reading.effects d)).foldl Effect.onFile {}

/-- The body of the class `name` after some of its lines. -/
def bodyAfter (d : Dialect) (name : String) (rs : List Reading) : List String :=
  ((fragmentsAfter d rs).classOf name).body

/-- **The body of a class is what the lines make of the empty body.** -/
theorem bodyAfter_eq_foldl (d : Dialect) (name : String) (rs : List Reading) :
    bodyAfter d name rs = (rs.filterMap (Reading.member? d)).foldl (Effect.onBody name) [] := by
  rw [bodyAfter, fragmentsAfter, body_foldl_onFile, ← foldl_onBody_filter, filter_isMember_effects]
  rfl

/-- What the last of some lines does to the body. -/
theorem bodyAfter_concat (d : Dialect) (name : String) (rs : List Reading) (r : Reading) :
    bodyAfter d name (rs ++ [r]) =
      (r.member? d).elim (bodyAfter d name rs) (Effect.onBody name (bodyAfter d name rs)) := by
  rw [bodyAfter_eq_foldl, bodyAfter_eq_foldl, List.filterMap_append, List.foldl_append]
  cases h : r.member? d <;> simp [h]

/-- The bodies of a file that was scanned to its end are those after its last line. -/
theorem body_of_scan {d : Dialect} {s : Streams} {text : List Char} {f : FileFragments}
    (h : (scan d s text).result = .ok f) (name : String) :
    (f.classOf name).body = bodyAfter d name (readingsOf d text) := by
  obtain ⟨es, hes, rfl⟩ := scan_result_eq_ok.mp h
  rw [body_foldl_onFile, ← foldl_onBody_filter, members_of_file hes, bodyAfter_eq_foldl]
  rfl

end Scan

end BindingDocs
