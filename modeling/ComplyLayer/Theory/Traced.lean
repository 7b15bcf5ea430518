import ComplyLayer.Theory.Counted

/-!
# Computations that log where they have been

`Traced ω ε α` is a computation of `Counted ε α` that also logs the marks of type `ω` it passes,
and keeps the log when it raises. `erase` forgets the log. A program written twice, plainly and
with marks, is one program when the second erases to the first; `Passes P x` then says that every
mark the program can pass satisfies `P`.
-/

namespace ComplyLayer.Theory

/-- A computation that threads a step count, may raise, and logs marks as it goes. -/
structure Traced (ω ε α : Type) where
  run : Nat → (Except ε α × Nat) × List ω

namespace Traced

variable {ω ε α β : Type}

instance : Monad (Traced ω ε) where
  pure a := ⟨fun n => ((.ok a, n), [])⟩
  bind x f := ⟨fun n =>
    match x.run n with
    | ((.ok a, k), marks) => (((f a).run k).1, marks ++ ((f a).run k).2)
    | ((.error e, k), marks) => ((.error e, k), marks)⟩

/-- A computation that passes no mark. -/
def lift (x : Counted ε α) : Traced ω ε α := ⟨fun n => (x.run n, [])⟩

/-- Pass the given marks. -/
def passing (marks : List ω) : Traced ω ε Unit := ⟨fun n => ((.ok (), n), marks)⟩

theorem run_bind (x : Traced ω ε α) (f : α → Traced ω ε β) (n : Nat) :
    (x >>= f).run n = match x.run n with
      | ((.ok a, k), marks) => (((f a).run k).1, marks ++ ((f a).run k).2)
      | ((.error e, k), marks) => ((.error e, k), marks) := rfl

theorem run_bind_of_ok {x : Traced ω ε α} {f : α → Traced ω ε β}
    (h : x.run n = ((.ok a, k), marks)) :
    (x >>= f).run n = (((f a).run k).1, marks ++ ((f a).run k).2) := by
  rw [run_bind, h]

theorem run_bind_of_error {x : Traced ω ε α} {f : α → Traced ω ε β}
    (h : x.run n = ((.error e, k), marks)) : (x >>= f).run n = ((.error e, k), marks) := by
  rw [run_bind, h]

/-! ## Forgetting the log -/

/-- The computation without its log. -/
def erase (x : Traced ω ε α) : Counted ε α := ⟨fun n => (x.run n).1⟩

@[simp] theorem erase_pure (a : α) : (pure a : Traced ω ε α).erase = pure a := rfl

@[simp] theorem erase_lift (x : Counted ε α) : (lift x : Traced ω ε α).erase = x := rfl

@[simp] theorem erase_passing (marks : List ω) :
    (passing marks : Traced ω ε Unit).erase = pure () := rfl

@[simp] theorem erase_bind (x : Traced ω ε α) (f : α → Traced ω ε β) :
    (x >>= f).erase = x.erase >>= fun a => (f a).erase := by
  apply Counted.ext
  intro n
  change ((x >>= f).run n).1 = _
  cases hr : x.run n with
  | mk r marks =>
    obtain ⟨r, k⟩ := r
    have hx : x.erase.run n = (r, k) := congrArg Prod.fst hr
    cases r with
    | ok a =>
      rw [run_bind_of_ok hr, Counted.run_bind_of_ok hx]
      rfl
    | error e =>
      rw [run_bind_of_error hr, Counted.run_bind_of_error hx]

/-! ## What a computation can pass -/

variable {P : ω → Prop}

/-- Every mark `x` passes, from any count, satisfies `P`. -/
def Passes (P : ω → Prop) (x : Traced ω ε α) : Prop := ∀ n, ∀ m ∈ (x.run n).2, P m

theorem passes_pure (a : α) : Passes P (pure a : Traced ω ε α) := fun _ _ => nofun

theorem passes_lift (x : Counted ε α) : Passes P (lift x : Traced ω ε α) := fun _ _ => nofun

theorem passes_passing {marks : List ω} (h : ∀ m ∈ marks, P m) :
    Passes P (passing marks : Traced ω ε Unit) := fun _ => h

/-- The rest of a sequence is asked only for what the first part can return. -/
theorem Passes.bind_of_ok {x : Traced ω ε α} {f : α → Traced ω ε β} (h : Passes P x)
    (hf : ∀ n a k, x.erase.run n = (.ok a, k) → Passes P (f a)) : Passes P (x >>= f) := by
  intro n m hm
  have hx := h n
  cases hr : x.run n with
  | mk r marks =>
    obtain ⟨r, k⟩ := r
    rw [hr] at hx
    cases r with
    | ok a =>
      rw [run_bind_of_ok hr] at hm
      rcases List.mem_append.mp hm with hm | hm
      · exact hx m hm
      · exact hf n a k (congrArg Prod.fst hr) k m hm
    | error e =>
      rw [run_bind_of_error hr] at hm
      exact hx m hm

theorem Passes.bind {x : Traced ω ε α} {f : α → Traced ω ε β} (h : Passes P x)
    (hf : ∀ a, Passes P (f a)) : Passes P (x >>= f) :=
  h.bind_of_ok fun _ a _ _ => hf a

end Traced

end ComplyLayer.Theory
