import Mathlib.Data.List.Forall2

/-!
# Parsers over a list of tokens

A parser takes tokens off the front of a list. `Parses p follow ts a` says that `p` takes exactly
`ts`, and reads it as `a`, whenever what comes after starts with a token of `follow` or is nothing.
Every way to combine parsers has a rule for `Parses`.
-/

namespace ComplyLayer.Theory

variable {τ α β γ : Type}

abbrev Parser (τ α : Type) := List τ → Option (α × List τ)

/-- What comes after starts with a token of `follow`, or is nothing. -/
def Follows (follow : τ → Prop) (rest : List τ) : Prop := ∀ t ∈ rest.head?, follow t

theorem follows_nil {follow : τ → Prop} : Follows follow [] := nofun

theorem follows_cons {follow : τ → Prop} (h : follow t) (rest : List τ) :
    Follows follow (t :: rest) := by
  intro u hu
  cases hu
  exact h

theorem Follows.imp {follow follow' : τ → Prop} (himp : ∀ t, follow t → follow' t)
    (h : Follows follow rest) : Follows follow' rest :=
  fun t ht => himp t (h t ht)

/-- A scan of characters that satisfy `p` goes to the first one that does not. -/
theorem takeWhile_append_follows {p : α → Bool} {cs rest : List α} (h : ∀ c ∈ cs, p c = true)
    (hrest : Follows (fun c => p c = false) rest) : (cs ++ rest).takeWhile p = cs := by
  rw [List.takeWhile_append_of_pos h]
  cases rest with
  | nil => exact List.append_nil _
  | cons c rest => rw [List.takeWhile_cons_of_neg (by simp [hrest c rfl]), List.append_nil]

theorem dropWhile_append_follows {p : α → Bool} {cs rest : List α} (h : ∀ c ∈ cs, p c = true)
    (hrest : Follows (fun c => p c = false) rest) : (cs ++ rest).dropWhile p = rest := by
  rw [List.dropWhile_append_of_pos h]
  cases rest with
  | nil => rfl
  | cons c rest => exact List.dropWhile_cons_of_neg (by simp [hrest c rfl])

theorem forall₂_imp_of_mem {R S : α → β → Prop} {l : List α} {m : List β}
    (himp : ∀ a ∈ l, ∀ b, R a b → S a b) (h : List.Forall₂ R l m) : List.Forall₂ S l m := by
  induction h with
  | nil => exact .nil
  | cons hab _ ih =>
    obtain ⟨ha, hl⟩ := List.forall_mem_cons.mp himp
    exact .cons (ha _ hab) (ih hl)

/-- Two lists that both go along with a third go along with each other. -/
theorem forall₂_of_common {R : γ → α → Prop} {S : γ → β → Prop} {T : α → β → Prop}
    (himp : ∀ c a, ∀ b ∈ bs, R c a → S c b → T a b) (hR : List.Forall₂ R l as)
    (hS : List.Forall₂ S l bs) : List.Forall₂ T as bs := by
  induction hR generalizing bs with
  | nil =>
    cases hS
    exact .nil
  | cons ha _ ih =>
    cases hS with
    | cons hb hbs =>
      have hmore := ih (fun c a b hmem => himp c a b (List.mem_cons_of_mem _ hmem)) hbs
      exact .cons (himp _ _ _ List.mem_cons_self ha hb) hmore

namespace Parser

/-- `p` reads exactly `ts` as `a`. -/
def Parses (p : Parser τ α) (follow : τ → Prop) (ts : List τ) (a : α) : Prop :=
  ∀ rest, Follows follow rest → p (ts ++ rest) = some (a, rest)

variable {p : Parser τ α} {follow follow' : τ → Prop}

theorem Parses.imp (h : Parses p follow ts a) (himp : ∀ t, follow' t → follow t) :
    Parses p follow' ts a :=
  fun rest hrest => h rest (hrest.imp himp)

/-- Change what is read. -/
def map (f : α → β) (p : Parser τ α) : Parser τ β := fun ts => do
  let (a, ts) ← p ts
  some (f a, ts)

theorem Parses.map (h : Parses p follow ts a) (f : α → β) : Parses (map f p) follow ts (f a) := by
  intro rest hrest
  rw [Parser.map, h rest hrest]
  rfl

/-! ## Sequences with a separator -/

section
variable [DecidableEq τ]

/-- `sep item` as often as the separator is there, at most as often as the fuel allows. -/
def moreBy (sep : τ) (item : Parser τ α) : Nat → Parser τ (List α)
  | 0, ts => some ([], ts)
  | _ + 1, [] => some ([], [])
  | fuel + 1, t :: ts =>
    if t = sep then do
      let (a, ts) ← item ts
      let (as, ts) ← moreBy sep item fuel ts
      some (a :: as, ts)
    else some ([], t :: ts)

/-- One item or more, with the separator between them. -/
def sepBy (sep : τ) (item : Parser τ α) : Parser τ (List α) := fun ts => do
  let (a, ts) ← item ts
  let (as, ts) ← moreBy sep item ts.length ts
  some (a :: as, ts)

/-- The tokens of the items after the first one. -/
def afterSep (sep : τ) (tss : List (List τ)) : List τ := tss.flatMap (sep :: ·)

omit [DecidableEq τ] in
theorem length_le_length_afterSep (sep : τ) (tss : List (List τ)) :
    tss.length ≤ (afterSep sep tss).length := by
  induction tss with
  | nil => exact Nat.le_refl _
  | cons ts tss ih =>
    rw [afterSep, List.flatMap_cons, List.length_append, List.length_cons]
    rw [afterSep] at ih
    simp only [List.length_cons]
    omega

omit [DecidableEq τ] in
theorem length_le_of_mem_afterSep (sep : τ) {tss : List (List τ)} (h : ts ∈ tss) :
    ts.length < (afterSep sep tss).length := by
  induction tss with
  | nil => cases h
  | cons us tss ih =>
    rw [afterSep, List.flatMap_cons, List.length_append, List.length_cons]
    rcases List.mem_cons.mp h with rfl | h
    · omega
    · have hlt := ih h
      rw [afterSep] at hlt
      omega

/-- The tokens of the items, with the separator between them. -/
def separated (sep : τ) : List (List τ) → List τ
  | [] => []
  | ts :: tss => ts ++ afterSep sep tss

omit [DecidableEq τ] in
theorem separated_singleton (sep : τ) (ts : List τ) : separated sep [ts] = ts :=
  List.append_nil ts

omit [DecidableEq τ] in
theorem length_le_of_mem_separated (sep : τ) {tss : List (List τ)} (h : ts ∈ tss) :
    ts.length ≤ (separated sep tss).length := by
  cases tss with
  | nil => cases h
  | cons us tss =>
    rw [separated, List.length_append]
    rcases List.mem_cons.mp h with rfl | h
    · omega
    · have hlt := length_le_of_mem_afterSep sep h
      omega

variable {sep : τ} {item : Parser τ α}

/-- The items after the first, when each is followed by a separator or by what follows the last. -/
theorem moreBy_afterSep (hsep : ¬ follow sep)
    (h : List.Forall₂ (Parses item fun t => t = sep ∨ follow t) tss as) (hfuel : tss.length ≤ fuel)
    (hrest : Follows follow rest) :
    moreBy sep item fuel (afterSep sep tss ++ rest) = some (as, rest) := by
  induction h generalizing fuel with
  | nil =>
    cases fuel with
    | zero => rfl
    | succ fuel =>
      cases rest with
      | nil => rfl
      | cons t rest =>
        have hne : t ≠ sep := fun heq => hsep (heq ▸ hrest t rfl)
        exact if_neg hne
  | @cons ts a tss as hitem _ ih =>
    cases fuel with
    | zero => cases hfuel
    | succ fuel =>
      have hnext : Follows (fun t => t = sep ∨ follow t) (afterSep sep tss ++ rest) := by
        cases tss with
        | nil => exact hrest.imp fun _ => .inr
        | cons ts' tss => exact follows_cons (.inl rfl) _
      have hread := hitem _ hnext
      have hmore := ih (Nat.le_of_succ_le_succ hfuel)
      change moreBy sep item (fuel + 1) (sep :: (ts ++ afterSep sep tss) ++ rest) = _
      rw [List.cons_append, List.append_assoc, moreBy, if_pos rfl, hread]
      change (do
        let (as, ts) ← moreBy sep item fuel (afterSep sep tss ++ rest)
        some (a :: as, ts)) = _
      rw [hmore]
      rfl

/-- A sequence of items, each of which is read where a separator or the end of all follows. -/
theorem parses_sepBy (hsep : ¬ follow sep)
    (h : List.Forall₂ (Parses item fun t => t = sep ∨ follow t) tss as) (hne : tss ≠ []) :
    Parses (sepBy sep item) follow (separated sep tss) as := by
  cases h with
  | nil => exact absurd rfl hne
  | @cons ts a tss as h hmore =>
  intro rest hrest
  have hnext : Follows (fun t => t = sep ∨ follow t) (afterSep sep tss ++ rest) := by
    cases tss with
    | nil => exact hrest.imp fun _ => .inr
    | cons ts' tss => exact follows_cons (.inl rfl) _
  have hfuel : tss.length ≤ (afterSep sep tss ++ rest).length := by
    have := length_le_length_afterSep sep tss
    rw [List.length_append]
    omega
  rw [sepBy, separated, List.append_assoc, h _ hnext]
  change (do
    let (as, ts) ← moreBy sep item _ (afterSep sep tss ++ rest)
    some (a :: as, ts)) = _
  rw [moreBy_afterSep hsep hmore hfuel hrest]
  rfl

end

end Parser

end ComplyLayer.Theory
