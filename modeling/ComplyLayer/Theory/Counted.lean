/-!
# Computations that count their steps and may raise

`Counted ε α` is a computation over a step counter: it returns a value or raises an `ε`, and the
counter survives either ending. `Safe P x n` says that every exception `x` can raise from the
count `n` satisfies `P`; it is the weakest precondition of "no exception outside `P`", and
`safe_bind` computes it exactly through a bind, so a condition for safety can be read off a
program one construct at a time. `Within P limit k x y` says that `x` takes at most `k` steps and
does not notice a budget that leaves as many.
-/

namespace ComplyLayer.Theory

/-- A computation that threads a step count and may raise; the count is kept by an exception. -/
structure Counted (ε α : Type) where
  run : Nat → Except ε α × Nat

namespace Counted

variable {ε α β : Type}

instance : Monad (Counted ε) where
  pure a := ⟨fun n => (.ok a, n)⟩
  bind x f := ⟨fun n =>
    match x.run n with
    | (.ok a, k) => (f a).run k
    | (.error e, k) => (.error e, k)⟩

/-- Raise an exception without counting a step. -/
def raise (e : ε) : Counted ε α := ⟨fun n => (.error e, n)⟩

/-- Lift an outcome that takes no step. -/
def lift (r : Except ε α) : Counted ε α := ⟨fun n => (r, n)⟩

/-- Count one step, and raise `e` once more than `limit` have been counted. -/
def tick (limit : Nat) (e : ε) : Counted ε Unit :=
  ⟨fun n => if limit < n + 1 then (.error e, n + 1) else (.ok (), n + 1)⟩

@[simp] theorem run_lift (r : Except ε α) (n : Nat) : (lift r).run n = (r, n) := rfl

theorem run_tick_of_lt (e : ε) (h : n < limit) : (tick limit e).run n = (.ok (), n + 1) :=
  if_neg (by omega)

theorem run_tick_of_le (e : ε) (h : limit ≤ n) : (tick limit e).run n = (.error e, n + 1) :=
  if_pos (by omega)

theorem run_bind (x : Counted ε α) (f : α → Counted ε β) (n : Nat) :
    (x >>= f).run n = match x.run n with
      | (.ok a, k) => (f a).run k
      | (.error e, k) => (.error e, k) := rfl

theorem run_bind_of_ok {x : Counted ε α} {f : α → Counted ε β} (h : x.run n = (.ok a, k)) :
    (x >>= f).run n = (f a).run k := by
  rw [run_bind, h]

theorem run_bind_of_error {x : Counted ε α} {f : α → Counted ε β}
    (h : x.run n = (.error e, k)) : (x >>= f).run n = (.error e, k) := by
  rw [run_bind, h]

theorem ext {x y : Counted ε α} (h : ∀ n, x.run n = y.run n) : x = y := by
  cases x
  cases y
  exact congrArg Counted.mk (funext h)

theorem bind_pure_eq (x : Counted ε α) : (x >>= fun a => pure a) = x := ext fun n => by
  rw [run_bind]
  rcases x.run n with ⟨_ | _, _⟩ <;> rfl

theorem bind_bind_eq (x : Counted ε α) (f : α → Counted ε β) (g : β → Counted ε γ) :
    (x >>= f >>= g) = x >>= fun a => f a >>= g := ext fun n => by
  simp only [run_bind]
  rcases x.run n with ⟨_ | _, _⟩ <;> rfl

instance : LawfulMonad (Counted ε) :=
  LawfulMonad.mk' _ bind_pure_eq (fun _ _ => rfl) bind_bind_eq

/-- A sequence returns when its parts return one after the other. -/
theorem run_bind_eq_ok {x : Counted ε α} {f : α → Counted ε β} :
    (x >>= f).run n = (.ok b, m) ↔ ∃ a k, x.run n = (.ok a, k) ∧ (f a).run k = (.ok b, m) := by
  constructor
  · intro h
    cases hr : x.run n with
    | mk r j =>
      cases r with
      | ok a => exact ⟨a, j, rfl, by rwa [run_bind_of_ok hr] at h⟩
      | error e =>
        rw [run_bind_of_error hr] at h
        cases h
  · rintro ⟨a, k, hx, hf⟩
    rw [run_bind_of_ok hx, hf]

/-! ## Safety -/

/-- Every exception `x` raises from the count `n` satisfies `P`. -/
def Safe (P : ε → Prop) (x : Counted ε α) (n : Nat) : Prop :=
  ∀ e k, x.run n = (.error e, k) → P e

variable {P : ε → Prop}

@[simp] theorem safe_pure (a : α) (n : Nat) : Safe P (pure a : Counted ε α) n := by
  intro e k h
  cases h

@[simp] theorem safe_raise (e : ε) (n : Nat) : Safe P (raise e : Counted ε α) n ↔ P e := by
  constructor
  · intro h
    exact h e n rfl
  · intro h e' k heq
    cases heq
    exact h

@[simp] theorem safe_lift (r : Except ε α) (n : Nat) :
    Safe P (lift r) n ↔ ∀ e, r = .error e → P e := by
  constructor
  · intro h e hr
    exact h e n (by rw [run_lift, hr])
  · intro h e k heq
    cases heq
    exact h e rfl

/-- Safety of a sequence: the first part is safe, and the rest is safe from wherever the first
part returns. -/
theorem safe_bind (x : Counted ε α) (f : α → Counted ε β) (n : Nat) :
    Safe P (x >>= f) n ↔ Safe P x n ∧ ∀ a k, x.run n = (.ok a, k) → Safe P (f a) k := by
  constructor
  · intro h
    refine ⟨fun e k hx => h e k (run_bind_of_error hx), fun a k hx e k' hf => ?_⟩
    exact h e k' (by rw [run_bind_of_ok hx, hf])
  · rintro ⟨hx, hf⟩ e k heq
    cases hr : x.run n with
    | mk r j =>
      cases r with
      | ok a => exact hf a j hr e k (by rwa [run_bind_of_ok hr] at heq)
      | error e' =>
        rw [run_bind_of_error hr] at heq
        cases heq
        exact hx e _ hr

/-- Safety past a step: what follows is safe, if the budget lets it run. -/
theorem safe_tick_bind {e : ε} (h : P e) (f : Unit → Counted ε β) (n : Nat) :
    Safe P (tick limit e >>= f) n ↔ (n < limit → Safe P (f ()) (n + 1)) := by
  by_cases hlt : n < limit
  · simp only [hlt, true_implies]
    unfold Safe
    rw [run_bind_of_ok (run_tick_of_lt e hlt)]
  · have hrun := run_tick_of_le e (Nat.not_lt.mp hlt)
    simp only [hlt, false_implies, iff_true]
    intro e' k heq
    rw [run_bind_of_error hrun] at heq
    cases heq
    exact h

/-- A computation that is safe for `P` returns a value or raises an exception in `P`. -/
theorem Safe.ends {x : Counted ε α} (h : Safe P x n) :
    (∃ a k, x.run n = (.ok a, k)) ∨ ∃ e k, P e ∧ x.run n = (.error e, k) := by
  cases hr : x.run n with
  | mk r k =>
    cases r with
    | ok a => exact .inl ⟨a, k, rfl⟩
    | error e => exact .inr ⟨e, k, h e k hr, rfl⟩

/-! ## Budgets -/

/-- `x` takes at most `k` steps. Where the budget leaves as many, `y` runs as `x` does, and every
exception satisfies `P`. -/
structure Within (P : ε → Prop) (limit k : Nat) (x y : Counted ε α) : Prop where
  steps : ∀ n, (x.run n).2 ≤ n + k
  same : ∀ n, n + k ≤ limit → y.run n = x.run n
  raises : ∀ n, n + k ≤ limit → Safe P x n

theorem within_pure (a : α) : Within P limit 0 (pure a : Counted ε α) (pure a) :=
  ⟨fun _ => Nat.le_refl _, fun _ _ => rfl, fun n _ => safe_pure a n⟩

theorem within_lift {r : Except ε α} (h : ∀ e, r = .error e → P e) :
    Within P limit 0 (lift r) (lift r) :=
  ⟨fun _ => Nat.le_refl _, fun _ _ => rfl, fun n _ => (safe_lift r n).mpr h⟩

theorem within_raise {e : ε} (h : P e) : Within P limit 0 (raise e : Counted ε α) (raise e) :=
  ⟨fun _ => Nat.le_refl _, fun _ _ => rfl, fun n _ => (safe_raise e n).mpr h⟩

theorem within_tick (hle : limit ≤ limit') (e e' : ε) :
    Within P limit 1 (tick limit e) (tick limit' e') where
  steps n := by
    rcases Nat.lt_or_ge n limit with hlt | hge
    · exact Nat.le_of_eq (congrArg Prod.snd (run_tick_of_lt e hlt))
    · exact Nat.le_of_eq (congrArg Prod.snd (run_tick_of_le e hge))
  same n h := by
    rw [run_tick_of_lt e (by omega), run_tick_of_lt e' (by omega)]
  raises n h := by
    intro e'' k heq
    rw [run_tick_of_lt e (by omega)] at heq
    cases heq

/-- The steps of a sequence are those of its parts. -/
theorem Within.bind {x y : Counted ε α} {f g : α → Counted ε β} (hx : Within P limit k x y)
    (hf : ∀ a n m, x.run n = (.ok a, m) → Within P limit j (f a) (g a)) :
    Within P limit (k + j) (x >>= f) (y >>= g) where
  steps n := by
    have hk := hx.steps n
    cases hr : x.run n with
    | mk r m =>
      rw [hr] at hk
      cases r with
      | ok a =>
        rw [run_bind_of_ok hr]
        have hj := (hf a n m hr).steps m
        omega
      | error e =>
        rw [run_bind_of_error hr]
        exact Nat.le_trans hk (by omega)
  same n h := by
    have hk := hx.steps n
    have hsame := hx.same n (by omega)
    cases hr : x.run n with
    | mk r m =>
      rw [hr] at hk hsame
      cases r with
      | ok a =>
        rw [run_bind_of_ok hr, run_bind_of_ok hsame]
        exact (hf a n m hr).same m (by omega)
      | error e => rw [run_bind_of_error hr, run_bind_of_error hsame]
  raises n h := by
    refine (safe_bind x f n).mpr ⟨hx.raises n (by omega), fun a m hr => ?_⟩
    have hk := hx.steps n
    rw [hr] at hk
    exact (hf a n m hr).raises m (by omega)

theorem Within.mono {x y : Counted ε α} (h : Within P limit k x y) (hle : k ≤ j) :
    Within P limit j x y where
  steps n := Nat.le_trans (h.steps n) (by omega)
  same n hn := h.same n (by omega)
  raises n hn := h.raises n (by omega)

end Counted

end ComplyLayer.Theory
