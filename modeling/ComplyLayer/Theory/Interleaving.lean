import ComplyLayer.Theory.Runs
import Mathlib.Logic.Function.Basic

/-!
# Requests that read in one step and write in another

A request reads the store, and writes later from what it read, with the steps of others between the
two. A read is *settled* when the write does nothing to any store, and *fresh* in a store where the
write does what it would do had it read just then. A run whose writes are all settled or fresh is
a sequential one: the settled requests go where they read, the others where they write.
-/

namespace ComplyLayer.Theory

/-- What requests read and write, and which stores are not told apart. -/
structure Requests (ι σ ρ ω : Type) where
  read : ι → σ → ρ
  write : ι → ρ → σ → σ × ω
  Same : σ → σ → Prop
  same : Equivalence Same
  serve_congr : ∀ i s t, Same s t → Same (write i (read i s) s).1 (write i (read i t) t).1 ∧
    (write i (read i s) s).2 = (write i (read i t) t).2

inductive Phase (ι : Type) where
  | read (i : ι)
  | write (i : ι)

/-- A store, with what every request has read and how it has ended. -/
structure Session (ι σ ρ ω : Type) where
  store : σ
  read : ι → Option ρ := fun _ => none
  outcome : ι → Option ω := fun _ => none

namespace Requests

variable {ι σ ρ ω : Type} (R : Requests ι σ ρ ω)

/-- A request reads once, and then writes once. -/
def step [DecidableEq ι] (s : Session ι σ ρ ω) : Phase ι → Option (Session ι σ ρ ω)
  | .read i =>
    match s.read i with
    | none => some { s with read := Function.update s.read i (some (R.read i s.store)) }
    | some _ => none
  | .write i =>
    match s.read i, s.outcome i with
    | some r, none =>
      some { s with
        store := (R.write i r s.store).1
        outcome := Function.update s.outcome i (some (R.write i r s.store).2) }
    | _, _ => none

/-- A request that writes as soon as it has read. -/
def serve (i : ι) (s : σ) : σ × ω := R.write i (R.read i s) s

/-- The requests one after the other, with how each ends. -/
def serial (s : σ) : List ι → σ × List (ι × ω)
  | [] => (s, [])
  | i :: is =>
    let rest := serial (R.serve i s).1 is
    (rest.1, (i, (R.serve i s).2) :: rest.2)

/-- From what was read, the write does nothing to any store. -/
def Settled (i : ι) (r : ρ) (o : ω) : Prop :=
  ∀ s, R.Same (R.write i r s).1 s ∧ (R.write i r s).2 = o

/-- From what was read, the write does to this store what it would do from what is there. -/
def Fresh (i : ι) (r : ρ) (s : σ) : Prop :=
  R.Same (R.write i r s).1 (R.serve i s).1 ∧ (R.write i r s).2 = (R.serve i s).2

/-- A write step is one of a settled or fresh read. -/
def Sound (s : Session ι σ ρ ω) : Phase ι → Prop
  | .read _ => True
  | .write i => ∀ r, s.read i = some r → (∃ o, R.Settled i r o) ∨ R.Fresh i r s.store

/-- The request has ended with the outcome, or will whatever the others do. -/
def Known (s : Session ι σ ρ ω) (i : ι) (o : ω) : Prop :=
  s.outcome i = some o ∨ s.outcome i = none ∧ ∃ r, s.read i = some r ∧ R.Settled i r o

/-- The order is one in which the requests whose outcome is known lead to the store. -/
structure Ordered (s₀ : σ) (s : Session ι σ ρ ω) (order : List ι) : Prop where
  nodup : order.Nodup
  same : R.Same (R.serial s₀ order).1 s.store
  known : ∀ i o, (i, o) ∈ (R.serial s₀ order).2 ↔ R.Known s i o
  /-- What has ended has read. -/
  reads : ∀ i, s.read i = none → s.outcome i = none

variable {R} {s₀ : σ} {s t : Session ι σ ρ ω} {order : List ι} {i : ι} {r : ρ} {o o' : ω}

/-! ## Sequential runs -/

theorem serial_concat (s : σ) (order : List ι) (i : ι) : R.serial s (order ++ [i]) =
    ((R.serve i (R.serial s order).1).1,
      (R.serial s order).2 ++ [(i, (R.serve i (R.serial s order).1).2)]) := by
  induction order generalizing s with
  | nil => rfl
  | cons j order ih => simp only [List.cons_append, serial, ih]

theorem map_fst_serial (s : σ) (order : List ι) : (R.serial s order).2.map Prod.fst = order := by
  induction order generalizing s with
  | nil => rfl
  | cons j order ih => simp only [serial, List.map_cons, ih]

theorem mem_order_iff (s₀ : σ) : i ∈ order ↔ ∃ o, (i, o) ∈ (R.serial s₀ order).2 := by
  constructor
  · intro h
    rw [← map_fst_serial (R := R) s₀ order] at h
    obtain ⟨⟨j, o⟩, hmem, rfl⟩ := List.mem_map.mp h
    exact ⟨o, hmem⟩
  · rintro ⟨o, h⟩
    rw [← map_fst_serial (R := R) s₀ order]
    exact List.mem_map.mpr ⟨_, h, rfl⟩

/-! ## What is known of a request -/

theorem Settled.unique (h : R.Settled i r o) (h' : R.Settled i r o') (s : σ) : o = o' :=
  (h s).2.symm.trans (h' s).2

theorem known_congr (hread : t.read i = s.read i) (houtcome : t.outcome i = s.outcome i) :
    R.Known t i o ↔ R.Known s i o := by
  rw [Known, Known, hread, houtcome]

theorem known_of_outcome (h : s.outcome i = some o') : R.Known s i o ↔ o' = o := by
  rw [Known, h]
  simp

theorem known_of_read (hread : s.read i = some r) (houtcome : s.outcome i = none) :
    R.Known s i o ↔ R.Settled i r o := by
  rw [Known, hread, houtcome]
  simp

theorem not_known_of_unread (hread : s.read i = none) (houtcome : s.outcome i = none) :
    ¬ R.Known s i o := by
  rw [Known, hread, houtcome]
  simp

/-! ## Orders -/

theorem Ordered.mem_iff (h : R.Ordered s₀ s order) : i ∈ order ↔ ∃ o, R.Known s i o :=
  (mem_order_iff s₀).trans (exists_congr (h.known i))

/-- A request that becomes known goes to the end of the order. -/
theorem Ordered.concat (h : R.Ordered s₀ s order) (hnew : ∀ o, ¬ R.Known s i o)
    (hstore : R.Same (R.serve i s.store).1 t.store)
    (hknown : ∀ o, R.Known t i o ↔ (R.serve i s.store).2 = o)
    (hothers : ∀ j, j ≠ i → t.read j = s.read j ∧ t.outcome j = s.outcome j)
    (hread : (t.read i).isSome) : R.Ordered s₀ t (order ++ [i]) := by
  have hmem : i ∉ order := fun hi => (h.mem_iff.mp hi).elim hnew
  obtain ⟨hsame, hout⟩ := R.serve_congr i _ _ h.same
  refine ⟨?_, ?_, fun j o => ?_, fun j hj => ?_⟩
  · rw [List.nodup_append]
    refine ⟨h.nodup, List.pairwise_singleton _ i, fun j hj k hk => ?_⟩
    rintro rfl
    exact hmem (List.mem_singleton.mp hk ▸ hj)
  · rw [serial_concat]
    exact R.same.trans hsame hstore
  · rw [serial_concat, List.mem_append, List.mem_singleton, Prod.mk.injEq, h.known j o]
    by_cases hji : j = i
    · subst hji
      have hout : (R.serve j (R.serial s₀ order).1).2 = (R.serve j s.store).2 := hout
      rw [hknown o, hout]
      exact ⟨fun h => h.elim (fun h => absurd h (hnew o)) fun h => h.2.symm, fun h => .inr ⟨rfl, h.symm⟩⟩
    · rw [known_congr (hothers j hji).1 (hothers j hji).2]
      exact ⟨fun h => h.elim id fun h => absurd h.1 hji, .inl⟩
  · by_cases hji : j = i
    · subst hji
      rw [hj] at hread
      cases hread
    · rw [(hothers j hji).2]
      exact h.reads j ((hothers j hji).1 ▸ hj)

/-- A step after which no more is known leaves the order as it is. -/
theorem Ordered.keep (h : R.Ordered s₀ s order) (hstore : R.Same s.store t.store)
    (hknown : ∀ o, R.Known t i o ↔ R.Known s i o)
    (hothers : ∀ j, j ≠ i → t.read j = s.read j ∧ t.outcome j = s.outcome j)
    (hread : (t.read i).isSome) : R.Ordered s₀ t order := by
  refine ⟨h.nodup, R.same.trans h.same hstore, fun j o => (h.known j o).trans ?_, fun j hj => ?_⟩
  · by_cases hji : j = i
    · exact hji ▸ (hknown o).symm
    · exact (known_congr (hothers j hji).1 (hothers j hji).2).symm
  · by_cases hji : j = i
    · subst hji
      rw [hj] at hread
      cases hread
    · rw [(hothers j hji).2]
      exact h.reads j ((hothers j hji).1 ▸ hj)

theorem ordered_start (R : Requests ι σ ρ ω) (s₀ : σ) : R.Ordered s₀ { store := s₀ } [] := by
  refine ⟨List.nodup_nil, R.same.refl s₀, fun i o => ?_, fun _ _ => rfl⟩
  have hnot : ¬ R.Known { store := s₀ } i o := not_known_of_unread rfl rfl
  simp [serial, hnot]

variable [DecidableEq ι]

/-- What a read step leaves. -/
theorem step_read (h : R.step s (.read i) = some t) : s.read i = none ∧ t.store = s.store ∧
    t.read i = some (R.read i s.store) ∧ t.outcome = s.outcome ∧
    ∀ j, j ≠ i → t.read j = s.read j := by
  cases hread : s.read i with
  | some r =>
    rw [step, hread] at h
    cases h
  | none =>
    rw [step, hread] at h
    cases h
    exact ⟨rfl, rfl, Function.update_self .., rfl, fun j hj => Function.update_of_ne hj ..⟩

/-- What a write step leaves. -/
theorem step_write (h : R.step s (.write i) = some t) : ∃ r, s.read i = some r ∧
    s.outcome i = none ∧ t.store = (R.write i r s.store).1 ∧ t.read = s.read ∧
    t.outcome i = some (R.write i r s.store).2 ∧ ∀ j, j ≠ i → t.outcome j = s.outcome j := by
  cases hread : s.read i with
  | none =>
    rw [step, hread] at h
    cases h
  | some r =>
    cases houtcome : s.outcome i with
    | some o =>
      rw [step, hread, houtcome] at h
      cases h
    | none =>
      rw [step, hread, houtcome] at h
      cases h
      exact ⟨r, rfl, rfl, rfl, rfl, Function.update_self .., fun j hj => Function.update_of_ne hj ..⟩

/-- A settled read puts the request in the order where it reads. -/
theorem Ordered.read (h : R.Ordered s₀ s order) (hstep : R.step s (.read i) = some t) :
    ∃ order', R.Ordered s₀ t order' := by
  obtain ⟨hunread, hstore, hread, houtcome, hothers⟩ := step_read hstep
  have hended := h.reads i hunread
  have hnew (o : ω) : ¬ R.Known s i o := not_known_of_unread hunread hended
  have hothers (j : ι) (hj : j ≠ i) : t.read j = s.read j ∧ t.outcome j = s.outcome j :=
    ⟨hothers j hj, congrFun houtcome j⟩
  have hknown (o : ω) : R.Known t i o ↔ R.Settled i (R.read i s.store) o :=
    known_of_read hread (houtcome ▸ hended)
  have hsome := Option.isSome_iff_exists.mpr ⟨_, hread⟩
  by_cases hsettled : ∃ o, R.Settled i (R.read i s.store) o
  · obtain ⟨o, hsettled⟩ := hsettled
    refine ⟨order ++ [i], h.concat hnew (hstore ▸ (hsettled s.store).1) (fun o' => ?_) hothers
      hsome⟩
    have hserve : (R.serve i s.store).2 = o := (hsettled s.store).2
    rw [hknown, hserve]
    exact ⟨fun h => hsettled.unique h s.store, fun h => h ▸ hsettled⟩
  · refine ⟨order, h.keep (hstore ▸ R.same.refl _) (fun o => ?_) hothers hsome⟩
    rw [hknown]
    exact ⟨fun h => absurd ⟨o, h⟩ hsettled, fun h => absurd h (hnew o)⟩

/-- Any other request goes in the order where it writes. -/
theorem Ordered.write (h : R.Ordered s₀ s order) (hsound : R.Sound s (.write i))
    (hstep : R.step s (.write i) = some t) : ∃ order', R.Ordered s₀ t order' := by
  obtain ⟨r, hread, hended, hstore, hreads, houtcome, hothers⟩ := step_write hstep
  have hothers (j : ι) (hj : j ≠ i) : t.read j = s.read j ∧ t.outcome j = s.outcome j :=
    ⟨congrFun hreads j, hothers j hj⟩
  have hknown (o : ω) : R.Known s i o ↔ R.Settled i r o := known_of_read hread hended
  have hsome : (t.read i).isSome := by
    rw [hreads]
    exact Option.isSome_iff_exists.mpr ⟨r, hread⟩
  by_cases hsettled : ∃ o, R.Settled i r o
  · obtain ⟨o, hsettled⟩ := hsettled
    have hsame := (hsettled s.store).1
    refine ⟨order, h.keep (hstore ▸ R.same.symm hsame) (fun o' => ?_) hothers hsome⟩
    rw [known_of_outcome houtcome, hknown, (hsettled s.store).2]
    exact ⟨fun h => h ▸ hsettled, fun h => hsettled.unique h s.store⟩
  · obtain ⟨hsame, hout⟩ := (hsound r hread).resolve_left hsettled
    refine ⟨order ++ [i], h.concat (fun o h => ?_) (hstore ▸ R.same.symm hsame) (fun o => ?_)
      hothers hsome⟩
    · exact hsettled ⟨o, (hknown o).mp h⟩
    · rw [known_of_outcome houtcome, hout]

/-- **Settled or fresh writes make a sequential run.** -/
theorem serialisable {schedule : List (Phase ι)}
    (hsound : Along R.step R.Sound { store := s₀ } schedule)
    (hrun : run R.step { store := s₀ } schedule = some s)
    (hended : ∀ i, (s.read i).isSome → (s.outcome i).isSome) :
    ∃ order, order.Nodup ∧ (∀ i, i ∈ order ↔ (s.read i).isSome) ∧
      R.Same (R.serial s₀ order).1 s.store ∧
      ∀ i o, (i, o) ∈ (R.serial s₀ order).2 ↔ s.outcome i = some o := by
  have hstep (s : Session ι σ ρ ω) (phase : Phase ι) (t : Session ι σ ρ ω)
      (h : ∃ order, R.Ordered s₀ s order) (hsound : R.Sound s phase)
      (hstep : R.step s phase = some t) : ∃ order, R.Ordered s₀ t order := by
    obtain ⟨order, h⟩ := h
    cases phase with
    | read i => exact h.read hstep
    | write i => exact h.write hsound hstep
  obtain ⟨order, h⟩ := hsound.invariant hstep ⟨[], ordered_start R s₀⟩ hrun
  have hknown (i : ι) (o : ω) : R.Known s i o ↔ s.outcome i = some o := by
    refine ⟨fun h => h.resolve_right ?_, .inl⟩
    rintro ⟨hnone, r, hr, -⟩
    have hsome := hended i (Option.isSome_iff_exists.mpr ⟨r, hr⟩)
    rw [hnone] at hsome
    cases hsome
  refine ⟨order, h.nodup, fun i => ?_, h.same, fun i o => (h.known i o).trans (hknown i o)⟩
  rw [h.mem_iff, exists_congr (hknown i), ← Option.isSome_iff_exists]
  refine ⟨fun hsome => ?_, hended i⟩
  by_contra hnot
  rw [h.reads i (Option.not_isSome_iff_eq_none.mp hnot)] at hsome
  cases hsome

end Requests

end ComplyLayer.Theory
