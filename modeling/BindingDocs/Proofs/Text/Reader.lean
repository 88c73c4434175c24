import BindingDocs.Text.Pattern

/-!
# What a reader has read

A reader that succeeds has cut its text into the parts it was put together from.  For each
combinator there is one lemma that undoes it: the text is what the part has taken, followed by a
text on which the reader of the rest succeeds.  What is known about the captured parts is read off
by applying these lemmas from the outside in.

The other way round it is not enough that the parts fit: the reader must also fail in every way that
is tried earlier.  A run fails exactly if the reader of the rest fails after every run of its
characters, and it reads what is given if that reader fails after all longer ones.
-/

namespace BindingDocs.Text

variable {α β : Type} {k : Reader α} {s : List Char} {a : α}

/-- The second of two choices counts only if there is no first. -/
theorem orElse_eq_some_iff {x y : Option α} :
    (x <|> y) = some a ↔ x = some a ∨ x = none ∧ y = some a := by
  simp [Option.or_eq_some_iff]

theorem as_eq_some {f : α → β} {b : β} : as f k s = some b ↔ ∃ a, k s = some a ∧ f a = b := by
  simp [as]

theorem either_eq_some {k' : Reader α} (h : either k k' s = some a) :
    k s = some a ∨ k' s = some a := by
  rcases orElse_eq_some_iff.mp h with hk | ⟨-, hk⟩
  · exact Or.inl hk
  · exact Or.inr hk

theorem lit_eq_some {w : String} :
    lit w k s = some a ↔ ∃ t, s = w.toList ++ t ∧ k t = some a := by
  simp [lit, Option.bind_eq_some_iff, after?_eq_some_iff]

theorem inLine_of_not_mem {r : List Char} (h : '\n' ∉ r) : ∀ c ∈ r, inLine c = true := by
  intro c hc
  rw [inLine, bne_iff_ne]
  exact ne_of_mem_of_not_mem hc h

/-! ### Runs -/

theorem run_eq_some {p : Char → Bool} {r : List Char} (h : run p k s = some (r, a)) :
    ∃ t, s = r ++ t ∧ (∀ c ∈ r, p c = true) ∧ k t = some a := by
  induction s generalizing r with
  | nil =>
    obtain ⟨b, hb, hr⟩ := Option.map_eq_some_iff.mp h
    cases hr
    exact ⟨[], rfl, by simp, hb⟩
  | cons c s ih =>
    -- the run stops here exactly when it is empty
    have hstop : (k (c :: s)).map (([], ·) : α → List Char × α) = some (r, a) →
        ∃ t, c :: s = r ++ t ∧ (∀ c ∈ r, p c = true) ∧ k t = some a := by
      intro hstop
      obtain ⟨b, hb, hr⟩ := Option.map_eq_some_iff.mp hstop
      cases hr
      exact ⟨c :: s, rfl, by simp, hb⟩
    rw [run] at h
    split at h
    · next hc =>
      rcases orElse_eq_some_iff.mp h with hmap | ⟨-, hempty⟩
      · obtain ⟨⟨r', b⟩, hrun, hr⟩ := Option.map_eq_some_iff.mp hmap
        cases hr
        obtain ⟨t, rfl, hr', hk⟩ := ih hrun
        exact ⟨t, rfl, List.forall_mem_cons.mpr ⟨hc, hr'⟩, hk⟩
      · exact hstop hempty
    · exact hstop h

theorem run1_eq_some {p : Char → Bool} {r : List Char} (h : run1 p k s = some (r, a)) :
    r ≠ [] ∧ ∃ t, s = r ++ t ∧ (∀ c ∈ r, p c = true) ∧ k t = some a := by
  cases s with
  | nil => simp [run1] at h
  | cons c s =>
    rw [run1] at h
    split at h
    · next hc =>
      obtain ⟨⟨r', b⟩, hrun, hr⟩ := Option.map_eq_some_iff.mp h
      cases hr
      obtain ⟨t, rfl, hr', hk⟩ := run_eq_some hrun
      exact ⟨by simp, t, rfl, List.forall_mem_cons.mpr ⟨hc, hr'⟩, hk⟩
    · simp at h

theorem short1_eq_some {p : Char → Bool} {r : List Char} (h : short1 p k s = some (r, a)) :
    r ≠ [] ∧ ∃ t, s = r ++ t ∧ (∀ c ∈ r, p c = true) ∧ k t = some a := by
  induction s generalizing r with
  | nil => simp [short1] at h
  | cons c s ih =>
    rw [short1] at h
    split at h
    · next hc =>
      rcases orElse_eq_some_iff.mp h with hone | ⟨-, hmore⟩
      · obtain ⟨b, hk, hr⟩ := Option.map_eq_some_iff.mp hone
        cases hr
        exact ⟨by simp, s, rfl, by simpa using hc, hk⟩
      · obtain ⟨⟨r', b⟩, hshort, hr⟩ := Option.map_eq_some_iff.mp hmore
        cases hr
        obtain ⟨-, t, rfl, hr', hk⟩ := ih hshort
        exact ⟨by simp, t, rfl, List.forall_mem_cons.mpr ⟨hc, hr'⟩, hk⟩
    · simp at h

/-! ### Parts that are not kept -/

theorem blanks_eq_some (h : blanks k s = some a) : ∃ u t, s = u ++ t ∧ k t = some a := by
  obtain ⟨⟨r, b⟩, hrun, rfl⟩ := as_eq_some.mp h
  obtain ⟨t, hs, -, hk⟩ := run_eq_some hrun
  exact ⟨r, t, hs, hk⟩

theorem blanks1_eq_some (h : blanks1 k s = some a) : ∃ u t, s = u ++ t ∧ k t = some a := by
  obtain ⟨⟨r, b⟩, hrun, rfl⟩ := as_eq_some.mp h
  obtain ⟨-, t, hs, -, hk⟩ := run1_eq_some hrun
  exact ⟨r, t, hs, hk⟩

theorem anywhere_eq_some (h : anywhere k s = some a) : ∃ u t, s = u ++ t ∧ k t = some a := by
  induction s with
  | nil => exact ⟨[], [], rfl, h⟩
  | cons c s ih =>
    rw [anywhere] at h
    rcases orElse_eq_some_iff.mp h with hk | ⟨-, hlater⟩
    · exact ⟨[], c :: s, rfl, hk⟩
    · obtain ⟨u, t, rfl, hk⟩ := ih hlater
      exact ⟨c :: u, t, rfl, hk⟩

/-! ### Ways that fail -/

/-- A fixed text is not read where another character stands first. -/
theorem lit_eq_none {w : String} (b : Char) (hw : w.toList.head? = some b)
    (hs : s.head? ≠ some b) : lit w k s = none := by
  rw [Option.eq_none_iff_forall_ne_some]
  intro a ha
  obtain ⟨t, rfl, -⟩ := lit_eq_some.mp ha
  exact hs (by rw [List.head?_append, hw]; rfl)

/-- A run fails exactly if the reader of the rest fails after every run. -/
theorem run_eq_none_iff {p : Char → Bool} :
    run p k s = none ↔ ∀ r t, s = r ++ t → (∀ c ∈ r, p c = true) → k t = none := by
  constructor
  · intro h r
    induction r generalizing s with
    | nil =>
      intro t hs _
      rw [List.nil_append] at hs
      subst hs
      cases s with
      | nil => simpa [run] using h
      | cons c s =>
        rw [run] at h
        split at h <;> simp_all
    | cons c r ih =>
      rintro t rfl hr
      obtain ⟨hc, hr⟩ := List.forall_mem_cons.mp hr
      rw [List.cons_append, run, if_pos hc] at h
      exact ih (by simp_all) t rfl hr
  · intro h
    rw [Option.eq_none_iff_forall_ne_some]
    rintro ⟨r, a⟩ ha
    obtain ⟨t, hs, hr, hk⟩ := run_eq_some ha
    rw [h r t hs hr] at hk
    cases hk

/-- So does a nonempty run. -/
theorem run1_eq_none_iff {p : Char → Bool} :
    run1 p k s = none ↔ ∀ r t, r ≠ [] → s = r ++ t → (∀ c ∈ r, p c = true) → k t = none := by
  constructor
  · rintro h (_ | ⟨c, r⟩) t hne rfl hr
    · exact absurd rfl hne
    · obtain ⟨hc, hr⟩ := List.forall_mem_cons.mp hr
      rw [List.cons_append, run1, if_pos hc, Option.map_eq_none_iff] at h
      exact run_eq_none_iff.mp h r t rfl hr
  · intro h
    rw [Option.eq_none_iff_forall_ne_some]
    rintro ⟨r, a⟩ ha
    obtain ⟨hne, t, hs, hr, hk⟩ := run1_eq_some ha
    rw [h r t hne hs hr] at hk
    cases hk

/-- A run is the longest one after which the reader of the rest succeeds. -/
theorem run_longest {p : Char → Bool} {r u v : List Char}
    (h : run p k (r ++ (u ++ v)) = some (r, a)) (hne : u ≠ []) (hu : ∀ c ∈ u, p c = true) :
    k v = none := by
  induction r with
  | nil =>
    obtain ⟨c, u, rfl⟩ := List.exists_cons_of_ne_nil hne
    obtain ⟨hc, hu⟩ := List.forall_mem_cons.mp hu
    rw [List.nil_append, List.cons_append, run, if_pos hc] at h
    rcases orElse_eq_some_iff.mp h with hmore | ⟨hmore, -⟩
    · obtain ⟨⟨r', b⟩, -, hr⟩ := Option.map_eq_some_iff.mp hmore
      cases hr
    · exact run_eq_none_iff.mp (Option.map_eq_none_iff.mp hmore) u v rfl hu
  | cons c r ih =>
    have hstop : (k (c :: (r ++ (u ++ v)))).map (([], ·) : α → List Char × α) ≠
        some (c :: r, a) := by
      intro hstop
      obtain ⟨b, -, hr⟩ := Option.map_eq_some_iff.mp hstop
      cases hr
    rw [List.cons_append, run] at h
    split at h
    · rcases orElse_eq_some_iff.mp h with hmore | ⟨-, hhere⟩
      · obtain ⟨⟨r', b⟩, hrun, hr⟩ := Option.map_eq_some_iff.mp hmore
        cases hr
        exact ih hrun
      · exact absurd hhere hstop
    · exact absurd h hstop

theorem run1_longest {p : Char → Bool} {r u v : List Char}
    (h : run1 p k (r ++ (u ++ v)) = some (r, a)) (hne : u ≠ []) (hu : ∀ c ∈ u, p c = true) :
    k v = none := by
  obtain ⟨c, r, rfl⟩ := List.exists_cons_of_ne_nil (run1_eq_some h).1
  rw [List.cons_append, run1] at h
  split at h
  · obtain ⟨⟨r', b⟩, hrun, hr⟩ := Option.map_eq_some_iff.mp h
    cases hr
    exact run_longest hrun hne hu
  · cases h

/-- The shortest run fails exactly if all runs fail. -/
theorem short1_eq_none_iff {p : Char → Bool} :
    short1 p k s = none ↔ ∀ r t, r ≠ [] → s = r ++ t → (∀ c ∈ r, p c = true) → k t = none := by
  constructor
  · intro h r
    induction r generalizing s with
    | nil => exact fun t hne => absurd rfl hne
    | cons c r ih =>
      rintro t - rfl hr
      obtain ⟨hc, hr⟩ := List.forall_mem_cons.mp hr
      rw [List.cons_append, short1, if_pos hc] at h
      cases r with
      | nil => simp_all
      | cons c' r => exact ih (by simp_all) t (by simp) rfl hr
  · intro h
    rw [Option.eq_none_iff_forall_ne_some]
    rintro ⟨r, a⟩ ha
    obtain ⟨hne, t, hs, hr, hk⟩ := short1_eq_some ha
    rw [h r t hne hs hr] at hk
    cases hk

/-! ### Ways that succeed -/

theorem lit_append (w : String) (s : List Char) : lit w k (w.toList ++ s) = k s := by
  rw [lit, after?_eq_some_iff.mpr rfl]
  rfl

/-- **A run reads the characters it is given** if the reader of the rest fails after all longer
runs. -/
theorem run_append {p : Char → Bool} {r t : List Char} (hr : ∀ c ∈ r, p c = true)
    (hk : k t = some a)
    (hlonger : ∀ u v, u ≠ [] → t = u ++ v → (∀ c ∈ u, p c = true) → k v = none) :
    run p k (r ++ t) = some (r, a) := by
  induction r with
  | nil =>
    cases t with
    | nil => simp [run, hk]
    | cons c t =>
      rw [List.nil_append, run]
      split
      · next hc =>
        have hmore : run p k t = none := by
          rw [run_eq_none_iff]
          rintro u v rfl hu
          exact hlonger (c :: u) v (by simp) rfl (List.forall_mem_cons.mpr ⟨hc, hu⟩)
        simp [hmore, hk]
      · simp [hk]
  | cons c r ih =>
    obtain ⟨hc, hr⟩ := List.forall_mem_cons.mp hr
    rw [List.cons_append, run, if_pos hc, ih hr]
    rfl

/-- A run ends where the next character is of another class. -/
theorem run_append_of_head? {p : Char → Bool} {r t : List Char} (hr : ∀ c ∈ r, p c = true)
    (ht : ∀ c, t.head? = some c → p c = false) (hk : k t = some a) :
    run p k (r ++ t) = some (r, a) := by
  refine run_append hr hk ?_
  rintro (_ | ⟨b, u⟩) v hu rfl hall
  · exact absurd rfl hu
  · have hb := hall b List.mem_cons_self
    rw [ht b rfl] at hb
    cases hb

theorem run1_append {p : Char → Bool} {r t : List Char} (hne : r ≠ []) (hr : ∀ c ∈ r, p c = true)
    (ht : ∀ c, t.head? = some c → p c = false) (hk : k t = some a) :
    run1 p k (r ++ t) = some (r, a) := by
  obtain ⟨c, r, rfl⟩ := List.exists_cons_of_ne_nil hne
  obtain ⟨hc, hr⟩ := List.forall_mem_cons.mp hr
  rw [List.cons_append, run1, if_pos hc, run_append_of_head? hr ht hk]
  rfl

theorem blanks_append {r t : List Char} (hr : ∀ c ∈ r, isBlank c = true)
    (ht : ∀ c, t.head? = some c → isBlank c = false) (hk : k t = some a) :
    blanks k (r ++ t) = some a := by
  rw [blanks, as, run_append_of_head? hr ht hk]
  rfl

theorem blanks1_append {r t : List Char} (hne : r ≠ []) (hr : ∀ c ∈ r, isBlank c = true)
    (ht : ∀ c, t.head? = some c → isBlank c = false) (hk : k t = some a) :
    blanks1 k (r ++ t) = some a := by
  rw [blanks1, as, run1_append hne hr ht hk]
  rfl

/-- **The shortest run reads the characters it is given** if the reader of the rest fails after all
shorter runs. -/
theorem short1_append {p : Char → Bool} {r t : List Char} (hne : r ≠ [])
    (hr : ∀ c ∈ r, p c = true) (hk : k t = some a)
    (hshorter : ∀ u v, u ≠ [] → v ≠ [] → r = u ++ v → k (v ++ t) = none) :
    short1 p k (r ++ t) = some (r, a) := by
  induction r with
  | nil => exact absurd rfl hne
  | cons c r ih =>
    obtain ⟨hc, hr⟩ := List.forall_mem_cons.mp hr
    rw [List.cons_append, short1, if_pos hc]
    rcases List.eq_nil_or_concat r with rfl | ⟨r', c', hlast⟩
    · simp [hk]
    · have hrne : r ≠ [] := by simp [hlast]
      have hstop : k (r ++ t) = none := hshorter [c] r (by simp) hrne rfl
      have hrest := ih hrne hr fun u v hu hv huv =>
        hshorter (c :: u) v (by simp) hv (by rw [huv]; rfl)
      simp [hstop, hrest]

/-- What stands at the end of a text is found if no part of the text before it is. -/
theorem anywhere_append {u t : List Char} (hu : ∀ v w, w ≠ [] → u = v ++ w → k (w ++ t) = none)
    (hk : k t = some a) : anywhere k (u ++ t) = some a := by
  induction u with
  | nil => cases t <;> simp [anywhere, hk]
  | cons c u ih =>
    have hhere : k (c :: (u ++ t)) = none := hu [] (c :: u) (by simp) rfl
    have hlater := ih fun v w hw huv => hu (c :: v) w hw (by rw [huv]; rfl)
    rw [List.cons_append, anywhere, hhere, hlater]
    rfl

end BindingDocs.Text
