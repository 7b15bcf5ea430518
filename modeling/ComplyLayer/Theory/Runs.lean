/-!
# Runs of a partial step function

A system takes labelled steps, each of which may be refused. `run` takes a list of labels in
order; `Along G` says that every step of a run satisfies `G` in the state it is taken from. An
invariant need only be kept by the steps that satisfy the guard.
-/

namespace ComplyLayer.Theory

variable {σ α : Type}

/-- Take the steps in order, `none` if one is refused. -/
def run (step : σ → α → Option σ) (s : σ) : List α → Option σ
  | [] => some s
  | a :: as =>
    match step s a with
    | some t => run step t as
    | none => none

variable {step : σ → α → Option σ}

@[simp] theorem run_nil (s : σ) : run step s [] = some s := rfl

theorem run_cons_eq_some : run step s (a :: as) = some u ↔
    ∃ t, step s a = some t ∧ run step t as = some u := by
  cases h : step s a with
  | none => simp [run, h]
  | some t => simp [run, h]

theorem run_append_eq_some : run step s (as ++ bs) = some u ↔
    ∃ t, run step s as = some t ∧ run step t bs = some u := by
  induction as generalizing s with
  | nil => simp
  | cons a as ih =>
    rw [List.cons_append, run_cons_eq_some]
    constructor
    · rintro ⟨t, hstep, hrun⟩
      obtain ⟨t', has, hbs⟩ := ih.mp hrun
      exact ⟨t', run_cons_eq_some.mpr ⟨t, hstep, has⟩, hbs⟩
    · rintro ⟨t', has, hbs⟩
      obtain ⟨t, hstep, hrun⟩ := run_cons_eq_some.mp has
      exact ⟨t, hstep, ih.mpr ⟨t', hrun, hbs⟩⟩

theorem run_concat_eq_some : run step s (as ++ [a]) = some u ↔
    ∃ t, run step s as = some t ∧ step t a = some u := by
  rw [run_append_eq_some]
  refine exists_congr fun t => and_congr_right fun _ => ?_
  rw [run_cons_eq_some]
  simp

/-- What every step keeps holds after every run. -/
theorem run_invariant (Inv : σ → Prop) (hkeep : ∀ s a t, Inv s → step s a = some t → Inv t)
    (hs : Inv s) (hrun : run step s as = some u) : Inv u := by
  induction as generalizing s with
  | nil => cases hrun; exact hs
  | cons a as ih =>
    obtain ⟨t, hstep, hrest⟩ := run_cons_eq_some.mp hrun
    exact ih (hkeep s a t hs hstep) hrest

/-- What a run brings about is brought about by one of its steps. -/
theorem exists_step_of_run (P : σ → Prop) (hrun : run step s as = some u) (hs : ¬ P s) (hu : P u) :
    ∃ before a after t t', as = before ++ a :: after ∧ run step s before = some t ∧
      step t a = some t' ∧ ¬ P t ∧ P t' := by
  induction as generalizing s with
  | nil =>
    cases hrun
    exact absurd hu hs
  | cons a as ih =>
    obtain ⟨t, hstep, hrest⟩ := run_cons_eq_some.mp hrun
    by_cases ht : P t
    · exact ⟨[], a, as, s, t, rfl, rfl, hstep, hs, ht⟩
    · obtain ⟨before, b, after, v, v', rfl, hbefore, hb, hv, hv'⟩ := ih hrest ht
      exact ⟨a :: before, b, after, v, v', rfl, run_cons_eq_some.mpr ⟨t, hstep, hbefore⟩, hb, hv,
        hv'⟩

/-- Every step of the run satisfies `G` where it is taken. -/
def Along (step : σ → α → Option σ) (G : σ → α → Prop) (s : σ) : List α → Prop
  | [] => True
  | a :: as => G s a ∧ ∀ t, step s a = some t → Along step G t as

variable {G H : σ → α → Prop} {Inv : σ → Prop}

theorem along_append (h : run step s as = some t) :
    Along step G s (as ++ bs) ↔ Along step G s as ∧ Along step G t bs := by
  induction as generalizing s with
  | nil =>
    cases h
    exact ⟨fun hb => ⟨trivial, hb⟩, fun hb => hb.2⟩
  | cons a as ih =>
    obtain ⟨u, hstep, hrun⟩ := run_cons_eq_some.mp h
    simp only [List.cons_append, Along, hstep, Option.some.injEq, forall_eq', ih hrun, and_assoc]

theorem Along.imp (hGH : ∀ s a, G s a → H s a) (h : Along step G s as) : Along step H s as := by
  induction as generalizing s with
  | nil => trivial
  | cons a as ih => exact ⟨hGH s a h.1, fun t ht => ih (h.2 t ht)⟩

/-- A guard that follows from another where an invariant holds. -/
theorem Along.imp_of (himp : ∀ s a, Inv s → G s a → H s a)
    (hkeep : ∀ s a t, Inv s → step s a = some t → Inv t) (hs : Inv s) (h : Along step G s as) :
    Along step H s as := by
  induction as generalizing s with
  | nil => trivial
  | cons a as ih =>
    exact ⟨himp s a hs h.1, fun t ht => ih (hkeep s a t hs ht) (h.2 t ht)⟩

theorem Along.and (hG : Along step G s as) (hH : Along step H s as) :
    Along step (fun s a => G s a ∧ H s a) s as := by
  induction as generalizing s with
  | nil => trivial
  | cons a as ih => exact ⟨⟨hG.1, hH.1⟩, fun t ht => ih (hG.2 t ht) (hH.2 t ht)⟩

theorem along_of_forall (h : ∀ a ∈ as, ∀ s, G s a) : Along step G s as := by
  induction as generalizing s with
  | nil => trivial
  | cons a as ih =>
    exact ⟨h a List.mem_cons_self s, fun t _ => ih fun b hb => h b (List.mem_cons_of_mem a hb)⟩

/-- Two guards that agree where an invariant of one of them holds. -/
theorem along_congr (hiff : ∀ s a, Inv s → (G s a ↔ H s a))
    (hkeep : ∀ s a t, Inv s → G s a → step s a = some t → Inv t) (hs : Inv s) :
    Along step G s as ↔ Along step H s as := by
  induction as generalizing s with
  | nil => exact Iff.rfl
  | cons a as ih =>
    constructor
    · rintro ⟨ha, has⟩
      exact ⟨(hiff s a hs).mp ha, fun t ht => (ih (hkeep s a t hs ha ht)).mp (has t ht)⟩
    · rintro ⟨ha, has⟩
      have ha := (hiff s a hs).mpr ha
      exact ⟨ha, fun t ht => (ih (hkeep s a t hs ha ht)).mpr (has t ht)⟩

/-- A run goes to its end exactly when every step it comes to is taken. -/
theorem exists_run_iff : (∃ t, run step s as = some t) ↔
    Along step (fun s a => (step s a).isSome) s as := by
  induction as generalizing s with
  | nil => exact ⟨fun _ => trivial, fun _ => ⟨s, rfl⟩⟩
  | cons a as ih =>
    constructor
    · rintro ⟨t, hrun⟩
      obtain ⟨u, hstep, hrun⟩ := run_cons_eq_some.mp hrun
      refine ⟨Option.isSome_iff_exists.mpr ⟨u, hstep⟩, fun v hv => ?_⟩
      cases hstep.symm.trans hv
      exact ih.mp ⟨t, hrun⟩
    · rintro ⟨hstep, hrest⟩
      obtain ⟨u, hstep⟩ := Option.isSome_iff_exists.mp hstep
      obtain ⟨t, hrun⟩ := ih.mpr (hrest u hstep)
      exact ⟨t, run_cons_eq_some.mpr ⟨u, hstep, hrun⟩⟩

/-- A guard holds along a run exactly when it holds wherever the run comes to. -/
theorem along_iff_forall : Along step G s as ↔
    ∀ before a after t, as = before ++ a :: after → run step s before = some t → G t a := by
  constructor
  · rintro h before a after t rfl hrun
    exact ((along_append hrun).mp h).2.1
  · intro h
    induction as generalizing s with
    | nil => trivial
    | cons a as ih =>
      refine ⟨h [] a as s rfl rfl, fun t ht => ih fun before b after u has hrun => ?_⟩
      exact h (a :: before) b after u (has ▸ rfl) (run_cons_eq_some.mpr ⟨t, ht, hrun⟩)

instance Along.instDecidable [∀ s a, Decidable (G s a)] :
    ∀ (as : List α) (s : σ), Decidable (Along step G s as)
  | [], _ => .isTrue trivial
  | a :: as, s =>
    match h : step s a with
    | none => decidable_of_iff (G s a) (by simp [Along, h])
    | some t =>
      have := Along.instDecidable as t
      decidable_of_iff (G s a ∧ Along step G t as) (by simp [Along, h])

/-- Steps that change nothing where they are taken may be dropped. -/
theorem run_filter {p : α → Bool}
    (hdrop : Along step (fun s a => p a = false → step s a = some s) s as) :
    run step s (as.filter p) = run step s as := by
  induction as generalizing s with
  | nil => rfl
  | cons a as ih =>
    obtain ⟨ha, has⟩ := hdrop
    cases hp : p a with
    | false =>
      rw [List.filter_cons_of_neg (by simp [hp]), run, ha hp]
      exact ih (has s (ha hp))
    | true =>
      rw [List.filter_cons_of_pos hp, run, run]
      cases hs : step s a with
      | none => rfl
      | some t => exact ih (has t hs)

/-- What the steps satisfying the guard keep holds after every run of such steps. -/
theorem Along.invariant (hkeep : ∀ s a t, Inv s → G s a → step s a = some t → Inv t)
    (hguard : Along step G s as) (hs : Inv s) (hrun : run step s as = some u) : Inv u := by
  induction as generalizing s with
  | nil => cases hrun; exact hs
  | cons a as ih =>
    obtain ⟨t, hstep, hrest⟩ := run_cons_eq_some.mp hrun
    exact ih (hguard.2 t hstep) (hkeep s a t hs hguard.1 hstep) hrest

/-- When each step keeps a property exactly where a guard holds, a run keeps it exactly when the
guard holds all along. -/
theorem run_iff_along {P : σ → Prop}
    (hstep : ∀ s a t, H s a → step s a = some t → (P t ↔ P s ∧ G s a))
    (hguard : Along step H s as) (hrun : run step s as = some u) :
    P u ↔ P s ∧ Along step G s as := by
  induction as generalizing s with
  | nil =>
    cases hrun
    exact (and_iff_left trivial).symm
  | cons a as ih =>
    obtain ⟨t, ht, hrest⟩ := run_cons_eq_some.mp hrun
    rw [ih (hguard.2 t ht) hrest, hstep s a t hguard.1 ht, and_assoc, Along, ht]
    simp only [Option.some.injEq, forall_eq']

/-! ## Since -/

/-- Some step of the run is an `E`, and every step after it satisfies `G`. -/
def Since (step : σ → α → Option σ) (E G : σ → α → Prop) (s : σ) (as : List α) : Prop :=
  ∃ before a after t u, as = before ++ a :: after ∧ run step s before = some t ∧ E t a ∧
    step t a = some u ∧ Along step G u after

variable {E : σ → α → Prop}

theorem since_of_last (hrun : run step s as = some t) (hE : E t a) (hstep : step t a = some u) :
    Since step E G s (as ++ [a]) :=
  ⟨as, a, [], t, u, rfl, hrun, hE, hstep, trivial⟩

theorem Since.concat (h : Since step E G s as) (hrun : run step s as = some t) (hG : G t a) :
    Since step E G s (as ++ [a]) := by
  obtain ⟨before, b, after, v, w, rfl, hbefore, hE, hb, hafter⟩ := h
  obtain ⟨v', hv', hrest⟩ := run_append_eq_some.mp hrun
  cases hbefore.symm.trans hv'
  obtain ⟨w', hw', hrest⟩ := run_cons_eq_some.mp hrest
  cases hb.symm.trans hw'
  refine ⟨before, b, after ++ [a], v, w, by simp, hbefore, hE, hb, ?_⟩
  exact (along_append hrest).mpr ⟨hafter, hG, fun _ _ => trivial⟩

theorem Since.imp (hGH : ∀ s a, G s a → H s a) (h : Since step E G s as) : Since step E H s as := by
  obtain ⟨before, a, after, t, u, has, hbefore, hE, hstep, hafter⟩ := h
  exact ⟨before, a, after, t, u, has, hbefore, hE, hstep, hafter.imp hGH⟩

/-- Of two moments since which something holds, since the later one both do. -/
theorem Since.and (hG : Since step E G s as) (hH : Since step E H s as) :
    Since step E (fun s a => G s a ∧ H s a) s as := by
  -- What holds along a rest of the run holds along a rest of that.
  have hrest {G : σ → α → Prop} {b t u a t' u' a' l c} (hb : run step s b = some t)
      (ht : step t a = some u) (hG : Along step G u (l ++ a' :: c))
      (hb' : run step s (b ++ a :: l) = some t') (ht' : step t' a' = some u') :
      Along step G u' c := by
    obtain ⟨v, hv, hl⟩ := run_append_eq_some.mp hb'
    cases hb.symm.trans hv
    obtain ⟨w, hw, hl⟩ := run_cons_eq_some.mp hl
    cases ht.symm.trans hw
    exact ((along_append hl).mp hG).2.2 u' ht'
  obtain ⟨b, a, c, t, u, rfl, hb, hE, ht, hG⟩ := hG
  obtain ⟨b', a', c', t', u', heq, hb', hE', ht', hH⟩ := hH
  rcases List.append_eq_append_iff.mp heq with ⟨l, rfl, hl⟩ | ⟨l, rfl, hl⟩
  · cases l with
    | nil =>
      rw [List.append_nil] at hb'
      cases hl
      cases hb.symm.trans hb'
      cases ht.symm.trans ht'
      exact ⟨b, a, c, t, u, rfl, hb, hE, ht, hG.and hH⟩
    | cons x l =>
      cases hl
      exact ⟨b ++ a :: l, a', c', t', u', by simp, hb', hE', ht',
        (hrest hb ht hG hb' ht').and hH⟩
  · cases l with
    | nil =>
      rw [List.append_nil] at hb
      cases hl
      cases hb.symm.trans hb'
      cases ht.symm.trans ht'
      exact ⟨b', a, c, t, u, by simp, hb, hE, ht, hG.and hH⟩
    | cons x l =>
      cases hl
      exact ⟨b' ++ a' :: l, a, c, t, u, rfl, hb, hE, ht, hG.and (hrest hb' ht' hH hb ht)⟩

end ComplyLayer.Theory
