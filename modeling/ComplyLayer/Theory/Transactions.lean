import Mathlib.Data.List.Basic

/-!
# Transactions and savepoints

A program runs in a transaction, and any of its statements can fail. One that does leaves the
transaction aborted: the statements after it fail too, and the commit stores nothing. An exception
by itself aborts nothing, and what was written before it is stored. A nested block is a savepoint.
An exception in it takes the transaction back to where the block began, unless that fails as well.
-/

namespace ComplyLayer.Theory

/-- A transaction in progress: what it would store, and whether it no longer can. -/
structure Transaction (σ : Type) where
  store : σ
  aborted : Bool := false

inductive Raised (ℓ ε : Type) where
  /-- A statement failed, or the database refused it. -/
  | statement (label : ℓ)
  | error (e : ε)

/-- A program, of the statements that fail and the transaction it runs in. -/
def Program (ℓ σ ε α : Type) : Type :=
  (ℓ → Bool) → Transaction σ → Except (Raised ℓ ε) α × Transaction σ

namespace Program

variable {ℓ σ ε α β : Type}

instance : Monad (Program ℓ σ ε) where
  pure a := fun _ t => (.ok a, t)
  bind p f := fun fault t =>
    match p fault t with
    | (.ok a, t') => f a fault t'
    | (.error e, t') => (.error e, t')

/-- A check that touches no table. -/
def lift (x : Except ε α) : Program ℓ σ ε α := fun _ t => (x.mapError .error, t)

/-- A statement, which the database refuses where `f` has no result. -/
def statement (label : ℓ) (f : σ → Option (α × σ)) : Program ℓ σ ε α := fun fault t =>
  if t.aborted || fault label then (.error (.statement label), { t with aborted := true })
  else
    match f t.store with
    | some (a, s) => (.ok a, { t with store := s })
    | none => (.error (.statement label), { t with aborted := true })

def select (label : ℓ) (f : σ → α) : Program ℓ σ ε α := statement label fun s => some (f s, s)

def update (label : ℓ) (f : σ → Option σ) : Program ℓ σ ε Unit :=
  statement label fun s => (f s).map fun s' => ((), s')

/-- `transaction.atomic()` within a transaction. -/
def atomic (enter leave back : ℓ) (body : Program ℓ σ ε α) : Program ℓ σ ε α := fun fault t =>
  if t.aborted || fault enter then (.error (.statement enter), { t with aborted := true })
  else
    -- where the block began, or a transaction that could not be taken there
    let begun : Transaction σ := { t with aborted := fault back }
    match body fault t with
    | (.ok a, t') =>
      if t'.aborted || fault leave then (.error (.statement leave), begun) else (.ok a, t')
    | (.error e, _) => (.error e, begun)

/-- A transaction of its own around a program whose exception is turned into a response: it is
committed whatever was raised, and a commit of an aborted transaction stores nothing. -/
def request (p : Program ℓ σ ε α) (fault : ℓ → Bool) (s : σ) : Except (Raised ℓ ε) α × σ :=
  match p fault ⟨s, false⟩ with
  | (result, t) => (result, if t.aborted then s else t.store)

/-- Something is stored though an exception was raised. -/
def Torn (fault : ℓ → Bool) (p : Program ℓ σ ε α) (s : σ) : Prop :=
  ∃ e s', p.request fault s = (.error e, s') ∧ s' ≠ s

/-- The program succeeds where `R` relates the stores before and after it. -/
def Means (fault : ℓ → Bool) (p : Program ℓ σ ε α) (R : σ → α → σ → Prop) : Prop :=
  ∀ s a t, p fault ⟨s, false⟩ = (.ok a, t) ↔ ∃ s', R s a s' ∧ t = ⟨s', false⟩

/-- An exception leaves the store as it was, or the transaction aborted. -/
def Guarded (fault : ℓ → Bool) (p : Program ℓ σ ε α) : Prop :=
  ∀ s e t, p fault ⟨s, false⟩ = (.error e, t) → t.aborted = true ∨ t = ⟨s, false⟩

section
variable {fault : ℓ → Bool} {p : Program ℓ σ ε α} {f : α → Program ℓ σ ε β}
  {R : σ → α → σ → Prop}

theorem bind_run_ok : (p >>= f) fault t = (.ok b, t') ↔
    ∃ a t₁, p fault t = (.ok a, t₁) ∧ f a fault t₁ = (.ok b, t') := by
  change (match p fault t with
    | (.ok a, t') => f a fault t'
    | (.error e, t') => (.error e, t')) = _ ↔ _
  rcases p fault t with ⟨e | a, t₁⟩
  · simp
  · simp

theorem bind_run_error : (p >>= f) fault t = (.error e, t') ↔ p fault t = (.error e, t') ∨
    ∃ a t₁, p fault t = (.ok a, t₁) ∧ f a fault t₁ = (.error e, t') := by
  change (match p fault t with
    | (.ok a, t') => f a fault t'
    | (.error e, t') => (.error e, t')) = _ ↔ _
  rcases p fault t with ⟨e | a, t₁⟩
  · simp
  · simp

/-! ## What a program does when it succeeds -/

theorem Means.congr {R' : σ → α → σ → Prop} (h : Means fault p R)
    (hR : ∀ s a s', R s a s' ↔ R' s a s') : Means fault p R' := by
  intro s a t
  rw [h]
  simp only [hR]

theorem means_pure (a : α) : Means fault (pure a : Program ℓ σ ε α)
    fun s b s' => b = a ∧ s' = s := by
  intro s b t
  constructor
  · intro h
    cases h
    exact ⟨s, ⟨rfl, rfl⟩, rfl⟩
  · rintro ⟨s', ⟨rfl, rfl⟩, rfl⟩
    rfl

theorem means_lift (x : Except ε α) : Means fault (lift x : Program ℓ σ ε α)
    fun s a s' => x = .ok a ∧ s' = s := by
  intro s a t
  constructor
  · intro h
    cases x with
    | ok b =>
      cases h
      exact ⟨s, ⟨rfl, rfl⟩, rfl⟩
    | error e => cases h
  · rintro ⟨s', ⟨rfl, rfl⟩, rfl⟩
    rfl

theorem means_statement (label : ℓ) (f : σ → Option (α × σ)) :
    Means fault (statement label f : Program ℓ σ ε α)
      fun s a s' => fault label = false ∧ f s = some (a, s') := by
  intro s a t
  rw [statement]
  dsimp only
  cases hfault : fault label with
  | true => simp
  | false =>
    cases hf : f s with
    | none => simp
    | some r =>
      obtain ⟨b, s₁⟩ := r
      simp only [Bool.false_or, Bool.false_eq_true, if_false, true_and]
      constructor
      · intro h
        cases h
        exact ⟨s₁, rfl, rfl⟩
      · rintro ⟨s', hs, rfl⟩
        cases hs
        rfl

theorem means_select (label : ℓ) (f : σ → α) : Means fault (select label f : Program ℓ σ ε α)
    fun s a s' => fault label = false ∧ a = f s ∧ s' = s := by
  refine (means_statement label _).congr fun s a s' => ?_
  simp only [Option.some.injEq, Prod.mk.injEq]
  exact and_congr_right fun _ => and_congr eq_comm eq_comm

theorem means_update (label : ℓ) (f : σ → Option σ) :
    Means fault (update label f : Program ℓ σ ε Unit)
      fun s _ s' => fault label = false ∧ f s = some s' := by
  refine (means_statement label _).congr fun s a s' => ?_
  simp only [Option.map_eq_some_iff, Prod.mk.injEq, true_and, exists_eq_right]

theorem Means.bind {R' : α → σ → β → σ → Prop} (hp : Means fault p R)
    (hf : ∀ a, Means fault (f a) (R' a)) :
    Means fault (p >>= f) fun s b s' => ∃ a s₁, R s a s₁ ∧ R' a s₁ b s' := by
  intro s b t
  rw [bind_run_ok]
  constructor
  · rintro ⟨a, t₁, hrun, hrest⟩
    obtain ⟨s₁, hR, rfl⟩ := (hp s a t₁).mp hrun
    obtain ⟨s', hR', rfl⟩ := (hf a s₁ b t).mp hrest
    exact ⟨s', ⟨a, s₁, hR, hR'⟩, rfl⟩
  · rintro ⟨s', ⟨a, s₁, hR, hR'⟩, rfl⟩
    have hrun := (hp s a ⟨s₁, false⟩).mpr ⟨s₁, hR, rfl⟩
    have hrest := (hf a s₁ b ⟨s', false⟩).mpr ⟨s', hR', rfl⟩
    exact ⟨a, ⟨s₁, false⟩, hrun, hrest⟩

/-- A block succeeds when what is in it does. -/
theorem Means.atomic (enter leave back : ℓ) (h : Means fault p R) :
    Means fault (atomic enter leave back p)
      fun s a s' => fault enter = false ∧ fault leave = false ∧ R s a s' := by
  intro s a t
  rw [Program.atomic]
  dsimp only
  cases henter : fault enter with
  | true => simp
  | false =>
    rcases hrun : p fault ⟨s, false⟩ with ⟨e | b, t₁⟩
    · simp only [Bool.false_or, Bool.false_eq_true, if_false, true_and]
      constructor
      · intro h
        cases h
      · rintro ⟨s', ⟨-, hR⟩, rfl⟩
        rw [(h s a ⟨s', false⟩).mpr ⟨s', hR, rfl⟩] at hrun
        cases hrun
    · obtain ⟨s₁, hR, rfl⟩ := (h s b t₁).mp hrun
      cases hleave : fault leave with
      | true => simp
      | false =>
        simp only [Bool.false_or, Bool.false_eq_true, if_false, true_and]
        rw [← hrun]
        exact h s a t

theorem Means.request (h : Means fault p R) : p.request fault s = (.ok a, s') ↔ R s a s' := by
  rw [Program.request]
  constructor
  · intro hrequest
    rcases hrun : p fault ⟨s, false⟩ with ⟨e | b, t⟩
    · rw [hrun] at hrequest
      cases hrequest
    · obtain ⟨s₁, hR, rfl⟩ := (h s b t).mp hrun
      rw [hrun] at hrequest
      cases hrequest
      exact hR
  · intro hR
    rw [(h s a ⟨s', false⟩).mpr ⟨s', hR, rfl⟩]
    rfl

/-! ## What a program leaves when it fails -/

theorem guarded_lift (x : Except ε α) : Guarded fault (lift x : Program ℓ σ ε α) := by
  intro s e t h
  exact .inr (congrArg Prod.snd h).symm

theorem guarded_statement (label : ℓ) (f : σ → Option (α × σ)) :
    Guarded fault (statement label f : Program ℓ σ ε α) := by
  intro s e t h
  unfold statement at h
  split at h
  · cases h
    exact .inl rfl
  · split at h
    · cases h
    · cases h
      exact .inl rfl

theorem guarded_atomic (enter leave back : ℓ) (p : Program ℓ σ ε α) :
    Guarded fault (atomic enter leave back p) := by
  intro s e t h
  have hbegun : (⟨s, fault back⟩ : Transaction σ).aborted = true ∨
      (⟨s, fault back⟩ : Transaction σ) = ⟨s, false⟩ := by
    cases fault back with
    | true => exact .inl rfl
    | false => exact .inr rfl
  unfold atomic at h
  split at h
  · cases h
    exact .inl rfl
  · dsimp only at h
    split at h
    · split at h
      · cases h
        exact hbegun
      · cases h
    · cases h
      exact hbegun

/-- Nothing was written before the second of two programs. -/
theorem Guarded.bind (hp : Guarded fault p) (hmeans : Means fault p R)
    (hreads : ∀ s a s', R s a s' → s' = s) (hf : ∀ a, Guarded fault (f a)) :
    Guarded fault (p >>= f) := by
  intro s e t h
  rcases bind_run_error.mp h with h | ⟨a, t₁, hrun, h⟩
  · exact hp s e t h
  · obtain ⟨s₁, hR, rfl⟩ := (hmeans s a t₁).mp hrun
    cases hreads s a s₁ hR
    exact hf a s e t h

theorem torn_iff_run : p.Torn fault s ↔
    ∃ e t, p fault ⟨s, false⟩ = (.error e, t) ∧ t.aborted = false ∧ t.store ≠ s := by
  rw [Torn, Program.request]
  rcases p fault ⟨s, false⟩ with ⟨e | a, ⟨s', aborted⟩⟩
  · cases aborted with
    | true => simp
    | false => simp
  · simp

theorem Guarded.not_torn (hp : Guarded fault p) : ¬ p.Torn fault s := by
  intro h
  obtain ⟨e, t, hrun, haborted, hstore⟩ := torn_iff_run.mp h
  rcases hp s e t hrun with h | rfl
  · rw [h] at haborted
    cases haborted
  · exact hstore rfl

/-- Nothing can fail after the first of two programs. -/
theorem torn_map_iff (g : α → β) : (p >>= fun a => pure (g a)).Torn fault s ↔ p.Torn fault s := by
  rw [torn_iff_run, torn_iff_run]
  constructor
  · rintro ⟨e, t, hrun, hleft⟩
    rcases bind_run_error.mp hrun with hrun | ⟨a, t₁, -, hpure⟩
    · exact ⟨e, t, hrun, hleft⟩
    · cases hpure
  · rintro ⟨e, t, hrun, hleft⟩
    exact ⟨e, t, bind_run_error.mpr (.inl hrun), hleft⟩

/-- What is torn after reads is torn in what comes after them. -/
theorem Guarded.torn_bind_iff (hp : Guarded fault p) (hmeans : Means fault p R)
    (hreads : ∀ s a s', R s a s' → s' = s) :
    (p >>= f).Torn fault s ↔ ∃ a, R s a s ∧ (f a).Torn fault s := by
  rw [torn_iff_run]
  constructor
  · rintro ⟨e, t, hrun, haborted, hstore⟩
    rcases bind_run_error.mp hrun with hrun | ⟨a, t₁, hrun, hrest⟩
    · exact absurd (torn_iff_run.mpr ⟨e, t, hrun, haborted, hstore⟩) hp.not_torn
    · obtain ⟨s₁, hR, rfl⟩ := (hmeans s a t₁).mp hrun
      cases hreads s a s₁ hR
      exact ⟨a, hR, torn_iff_run.mpr ⟨e, t, hrest, haborted, hstore⟩⟩
  · rintro ⟨a, hR, htorn⟩
    obtain ⟨e, t, hrest, hleft⟩ := torn_iff_run.mp htorn
    have hrun := (hmeans s a ⟨s, false⟩).mpr ⟨s, hR, rfl⟩
    exact ⟨e, t, bind_run_error.mpr (.inr ⟨a, ⟨s, false⟩, hrun, hrest⟩), hleft⟩

theorem torn_lift_iff {x : Except ε α} :
    (lift x >>= f).Torn fault s ↔ ∃ a, x = .ok a ∧ (f a).Torn fault s := by
  rw [(guarded_lift x).torn_bind_iff (means_lift x) fun _ _ _ h => h.2]
  simp only [and_true]

theorem torn_check_iff {x : Except ε Unit} {q : Program ℓ σ ε β} :
    (lift x >>= fun _ => q).Torn fault s ↔ x = .ok () ∧ q.Torn fault s := by
  rw [torn_lift_iff]
  exact ⟨fun ⟨(), h⟩ => h, fun h => ⟨(), h⟩⟩

theorem torn_select_iff {g : σ → α} :
    (select label g >>= f).Torn fault s ↔ fault label = false ∧ (f (g s)).Torn fault s := by
  rw [select, (guarded_statement label _).torn_bind_iff (means_select label g) fun _ _ _ h => h.2.2]
  simp only [and_true, and_assoc, exists_and_left, exists_eq_left]

/-- A block is taken back when it fails, once begun, and the rollback does not. -/
theorem Means.atomic_fails_iff (h : Means fault p R) :
    (∃ e, Program.atomic enter leave back p fault ⟨s, false⟩ = (.error e, ⟨s, false⟩)) ↔
      fault enter = false ∧ fault back = false ∧ ¬(fault leave = false ∧ ∃ a s', R s a s') := by
  rw [Program.atomic]
  dsimp only
  cases henter : fault enter with
  | true => simp
  | false =>
    rcases hrun : p fault ⟨s, false⟩ with ⟨e | b, t₁⟩
    · have hfails : ¬(fault leave = false ∧ ∃ a s', R s a s') := by
        rintro ⟨-, a, s', hR⟩
        rw [(h s a ⟨s', false⟩).mpr ⟨s', hR, rfl⟩] at hrun
        cases hrun
      simp only [hfails, Bool.false_or, Bool.false_eq_true, if_false, true_and, not_false_eq_true,
        and_true]
      constructor
      · rintro ⟨e', h⟩
        exact congrArg (fun r => r.2.aborted) h
      · intro hback
        exact ⟨e, by rw [hback]⟩
    · obtain ⟨s₁, hR, rfl⟩ := (h s b t₁).mp hrun
      cases hleave : fault leave with
      | true => simp
      | false =>
        have hsucceeds : ∃ a s', R s a s' := ⟨b, s₁, hR⟩
        simp [hsucceeds]

/-- A write and then a block: the write is stored without the block when the block fails, once
begun, and is taken back. -/
theorem torn_update_iff {g : σ → Option σ} {body : Program ℓ σ ε α} (hbody : Means fault body R)
    (c : β) : (update label g >>= fun _ => atomic enter leave back body >>= fun _ => pure c).Torn
        fault s ↔
      fault label = false ∧ fault enter = false ∧ fault back = false ∧
        ∃ s₁, g s = some s₁ ∧ s₁ ≠ s ∧ ¬(fault leave = false ∧ ∃ a s', R s₁ a s') := by
  have hwrite : Means fault (update label g : Program ℓ σ ε Unit) _ := means_update label g
  rw [torn_iff_run]
  constructor
  · rintro ⟨e, t, hrun, haborted, hstore⟩
    have hnot {s' : σ} (h : t.aborted = true ∨ t = ⟨s', false⟩) : t = ⟨s', false⟩ :=
      h.resolve_left (by simp [haborted])
    rcases bind_run_error.mp hrun with hrun | ⟨a, t₁, hrun, hrest⟩
    · cases hnot (guarded_statement label _ s e t hrun)
      exact absurd rfl hstore
    · obtain ⟨s₁, ⟨hlabel, hg⟩, rfl⟩ := (hwrite s a t₁).mp hrun
      rcases bind_run_error.mp hrest with hblock | ⟨b, t₂, -, hpure⟩
      · cases hnot (guarded_atomic enter leave back body s₁ e t hblock)
        obtain ⟨henter, hback, hfails⟩ := hbody.atomic_fails_iff.mp ⟨e, hblock⟩
        exact ⟨hlabel, henter, hback, s₁, hg, hstore, hfails⟩
      · cases hpure
  · rintro ⟨hlabel, henter, hback, s₁, hg, hne, hfails⟩
    have hrun := (hwrite s () ⟨s₁, false⟩).mpr ⟨s₁, ⟨hlabel, hg⟩, rfl⟩
    obtain ⟨e, hblock⟩ := hbody.atomic_fails_iff.mpr ⟨henter, hback, hfails⟩
    have hrest := bind_run_error (f := fun _ => pure c).mpr (.inl hblock)
    exact ⟨e, ⟨s₁, false⟩, bind_run_error.mpr (.inr ⟨(), ⟨s₁, false⟩, hrun, hrest⟩), rfl, hne⟩

end

end Program

end ComplyLayer.Theory
