import Mathlib.Data.List.Forall2

/-!
# Outcomes of checks in sequence

When a sequence of fallible steps succeeds, each of its steps did.
-/

namespace ComplyLayer.Theory

variable {ε ε' α β : Type}

theorem bind_eq_ok {x : Except ε α} {f : α → Except ε β} :
    (x >>= f) = .ok b ↔ ∃ a, x = .ok a ∧ f a = .ok b := by
  constructor
  · intro h
    cases x with
    | ok a => exact ⟨a, rfl, h⟩
    | error e => cases h
  · rintro ⟨a, rfl, h⟩
    exact h

theorem seq_eq_ok {x : Except ε Unit} {y : Except ε β} :
    (x >>= fun _ => y) = .ok b ↔ x = .ok () ∧ y = .ok b := by
  rw [bind_eq_ok]
  constructor
  · rintro ⟨_, hx, hy⟩
    exact ⟨hx, hy⟩
  · rintro ⟨hx, hy⟩
    exact ⟨(), hx, hy⟩

theorem pure_eq_ok {a b : α} : (pure a : Except ε α) = .ok b ↔ a = b :=
  ⟨Except.ok.inj, congrArg _⟩

theorem toOption_eq_some {x : Except ε α} : x.toOption = some a ↔ x = .ok a := by
  cases x with
  | ok b => exact ⟨fun h => congrArg _ (Option.some.inj h), fun h => congrArg _ (Except.ok.inj h)⟩
  | error e => exact ⟨fun h => (by cases h), fun h => (by cases h)⟩

theorem mapError_eq_ok {x : Except ε α} {f : ε → ε'} : x.mapError f = .ok a ↔ x = .ok a := by
  cases x with
  | ok b => exact ⟨fun h => congrArg _ (Except.ok.inj h), fun h => congrArg _ (Except.ok.inj h)⟩
  | error e => exact ⟨fun h => (by cases h), fun h => (by cases h)⟩

/-- A list of fallible steps that succeeds, step by step. -/
theorem mapM_eq_ok_iff {f : α → Except ε β} {l : List α} {bs : List β} :
    l.mapM f = .ok bs ↔ List.Forall₂ (fun a b => f a = .ok b) l bs := by
  induction l generalizing bs with
  | nil =>
    rw [List.mapM_nil, pure_eq_ok, List.forall₂_nil_left_iff]
    exact eq_comm
  | cons a l ih =>
    rw [List.mapM_cons, bind_eq_ok]
    constructor
    · rintro ⟨b, hb, h⟩
      obtain ⟨bs', hbs, h⟩ := bind_eq_ok.mp h
      cases pure_eq_ok.mp h
      exact .cons hb (ih.mp hbs)
    · intro h
      cases h with
      | cons hb hbs => exact ⟨_, hb, bind_eq_ok.mpr ⟨_, ih.mpr hbs, rfl⟩⟩

/-- Every element of the one list has its counterpart in the other. -/
theorem exists_mem_of_forall₂ {R : α → β → Prop} (h : List.Forall₂ R l m) (ha : a ∈ l) :
    ∃ b ∈ m, R a b := by
  induction h with
  | nil => cases ha
  | cons hab _ ih =>
    rcases List.mem_cons.mp ha with rfl | ha
    · exact ⟨_, List.mem_cons_self, hab⟩
    · obtain ⟨b, hb, hR⟩ := ih ha
      exact ⟨b, List.mem_cons_of_mem _ hb, hR⟩

theorem mapM_eq_some_iff {f : α → Option β} {l : List α} {bs : List β} :
    l.mapM f = some bs ↔ List.Forall₂ (fun a b => f a = some b) l bs := by
  induction l generalizing bs with
  | nil =>
    rw [List.mapM_nil, List.forall₂_nil_left_iff]
    exact ⟨fun h => (Option.some.inj h).symm, fun h => congrArg some h.symm⟩
  | cons a l ih =>
    rw [List.mapM_cons, List.forall₂_cons_left_iff]
    constructor
    · intro h
      obtain ⟨b, hb, h⟩ := Option.bind_eq_some_iff.mp h
      obtain ⟨bs', hbs, h⟩ := Option.bind_eq_some_iff.mp h
      exact ⟨b, bs', hb, ih.mp hbs, (Option.some.inj h).symm⟩
    · rintro ⟨b, bs', hb, hbs, rfl⟩
      rw [hb, ih.mpr hbs]
      rfl

/-- A list of fallible steps succeeds exactly when every one of them does. -/
theorem exists_mapM_ok_iff {f : α → Except ε β} {l : List α} :
    (∃ bs, l.mapM f = .ok bs) ↔ ∀ a ∈ l, ∃ b, f a = .ok b := by
  simp only [mapM_eq_ok_iff]
  induction l with
  | nil =>
    constructor
    · intro _ a ha
      cases ha
    · intro _
      exact ⟨[], .nil⟩
  | cons a l ih =>
    rw [List.forall_mem_cons, ← ih]
    constructor
    · rintro ⟨bs, h⟩
      cases h with
      | cons hb hbs => exact ⟨⟨_, hb⟩, _, hbs⟩
    · rintro ⟨⟨b, hb⟩, bs, hbs⟩
      exact ⟨b :: bs, .cons hb hbs⟩

theorem bind_eq_error {x : Except ε α} {f : α → Except ε β} {e : ε} :
    (x >>= f) = .error e ↔ x = .error e ∨ ∃ a, x = .ok a ∧ f a = .error e := by
  cases x with
  | ok a =>
    constructor
    · intro h
      exact .inr ⟨a, rfl, h⟩
    · rintro (h | ⟨b, hb, h⟩)
      · cases h
      · cases hb
        exact h
  | error e' =>
    constructor
    · intro h
      cases h
      exact .inl rfl
    · rintro (h | ⟨b, hb, h⟩)
      · cases h
        rfl
      · cases hb

theorem seq_eq_error {x : Except ε Unit} {y : Except ε β} {e : ε} :
    (x >>= fun _ => y) = .error e ↔ x = .error e ∨ x = .ok () ∧ y = .error e := by
  rw [bind_eq_error]
  exact or_congr_right ⟨fun ⟨_, hx, hy⟩ => ⟨hx, hy⟩, fun ⟨hx, hy⟩ => ⟨(), hx, hy⟩⟩

/-- A list of fallible steps fails as the first of them that fails. -/
theorem mapM_eq_error_iff {f : α → Except ε β} {l : List α} {e : ε} :
    l.mapM f = .error e ↔ ∃ before a after, l = before ++ a :: after ∧
      (∀ b ∈ before, ∃ c, f b = .ok c) ∧ f a = .error e := by
  induction l with
  | nil =>
    constructor
    · intro h
      cases h
    · rintro ⟨before, a, after, h, -⟩
      simp at h
  | cons x l ih =>
    rw [List.mapM_cons, bind_eq_error]
    constructor
    · rintro (hx | ⟨b, hx, h⟩)
      · exact ⟨[], x, l, rfl, List.forall_mem_nil _, hx⟩
      · rcases bind_eq_error.mp h with h | ⟨bs, -, h⟩
        · obtain ⟨before, a, after, rfl, hbefore, ha⟩ := ih.mp h
          exact ⟨x :: before, a, after, rfl, List.forall_mem_cons.mpr ⟨⟨b, hx⟩, hbefore⟩, ha⟩
        · cases h
    · rintro ⟨before, a, after, h, hbefore, ha⟩
      cases before with
      | nil =>
        cases h
        exact .inl ha
      | cons y before =>
        cases h
        obtain ⟨⟨b, hx⟩, hbefore⟩ := List.forall_mem_cons.mp hbefore
        exact .inr ⟨b, hx, bind_eq_error.mpr (.inl (ih.mpr ⟨before, a, after, rfl, hbefore, ha⟩))⟩

end ComplyLayer.Theory
