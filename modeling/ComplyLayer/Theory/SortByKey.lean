import Mathlib.Data.List.Sort

/-!
# Sorting by a key

`sortBy key l` is Python's `sorted(l, key=key)`: stable, by a linearly ordered key. When the key
separates the elements of the list, the result depends on the list only up to a permutation.
-/

namespace ComplyLayer.Theory

variable {α β : Type} [LinearOrder β]

def sortBy (key : α → β) (l : List α) : List α := l.insertionSort fun a b => key a ≤ key b

/-- The key separates the elements of the list. -/
def Separates (key : α → β) (l : List α) : Prop := ∀ a ∈ l, ∀ b ∈ l, key a = key b → a = b

variable {key : α → β} {l m : List α}

theorem perm_sortBy (key : α → β) (l : List α) : (sortBy key l).Perm l :=
  List.perm_insertionSort _ l

@[simp] theorem mem_sortBy : a ∈ sortBy key l ↔ a ∈ l := (perm_sortBy key l).mem_iff

/-- Sorting what a function that keeps the key maps the list to. -/
theorem map_sortBy {γ : Type} (f : α → γ) (key : α → β) (key' : γ → β)
    (hkey : ∀ a, key' (f a) = key a) (l : List α) :
    (sortBy key l).map f = sortBy key' (l.map f) := by
  refine List.map_insertionSort _ _ f l fun a _ b _ => ?_
  rw [hkey, hkey]

theorem pairwise_sortBy (key : α → β) (l : List α) :
    (sortBy key l).Pairwise fun a b => key a ≤ key b := by
  have : Std.Total fun a b : α => key a ≤ key b := ⟨fun a b => le_total (key a) (key b)⟩
  have : IsTrans α fun a b => key a ≤ key b := ⟨fun _ _ _ hab hbc => le_trans hab hbc⟩
  exact List.pairwise_insertionSort _ l

omit [LinearOrder β] in
theorem Separates.of_subset (h : Separates key l) (hm : ∀ a ∈ m, a ∈ l) : Separates key m :=
  fun a ha b hb hab => h a (hm a ha) b (hm b hb) hab

omit [LinearOrder β] in
theorem Separates.perm (h : Separates key l) (hp : m.Perm l) : Separates key m :=
  h.of_subset fun _ ha => hp.mem_iff.mp ha

/-- Two sorted lists with the same elements are equal when the key separates them. -/
theorem eq_of_perm_of_pairwise (hl : Separates key l) (hp : l.Perm m)
    (h₁ : l.Pairwise fun a b => key a ≤ key b) (h₂ : m.Pairwise fun a b => key a ≤ key b) :
    l = m :=
  List.Perm.eq_of_pairwise
    (fun a b ha hb hab hba => hl a ha b (hp.mem_iff.mpr hb) (le_antisymm hab hba)) h₁ h₂ hp

theorem sortBy_eq_of_perm (hl : Separates key l) (hp : l.Perm m) :
    sortBy key l = sortBy key m := by
  have hp' : (sortBy key l).Perm (sortBy key m) :=
    ((perm_sortBy key l).trans hp).trans (perm_sortBy key m).symm
  exact eq_of_perm_of_pairwise (hl.perm (perm_sortBy key l)) hp' (pairwise_sortBy key l)
    (pairwise_sortBy key m)

theorem sortBy_eq_self (h : l.Pairwise fun a b => key a ≤ key b) : sortBy key l = l :=
  List.Pairwise.insertionSort_eq h

/-- The first record in falling order of the key is the last one in rising order. -/
theorem head?_sortBy_toDual_eq (h : Separates key l) :
    (sortBy (fun a => OrderDual.toDual (key a)) l).head? = (sortBy key l).getLast? := by
  have hreverse : (sortBy key l).reverse.Pairwise
      fun a b => OrderDual.toDual (key a) ≤ OrderDual.toDual (key b) := by
    rw [List.pairwise_reverse]
    exact pairwise_sortBy key l
  have hseparates : Separates (fun a => OrderDual.toDual (key a)) l := h
  have hperm : l.Perm (sortBy key l).reverse :=
    (perm_sortBy key l).symm.trans (List.reverse_perm _).symm
  rw [sortBy_eq_of_perm hseparates hperm, sortBy_eq_self hreverse, List.head?_reverse]

/-- The first record in falling order of the key is the last one of a list in rising order. -/
theorem head?_sortBy_toDual (h : l.Pairwise fun a b => key a < key b) :
    (sortBy (fun a => OrderDual.toDual (key a)) l).head? = l.getLast? := by
  have hnodup : (l.map key).Nodup := List.pairwise_map.mpr (h.imp fun hab => hab.ne)
  rw [head?_sortBy_toDual_eq fun a ha b hb hab => List.inj_on_of_nodup_map hnodup ha hb hab,
    sortBy_eq_self (h.imp le_of_lt)]

/-- The first record in falling order of the key is one with the greatest. -/
theorem le_of_head?_sortBy_toDual (h : (sortBy (fun a => OrderDual.toDual (key a)) l).head? = some a) :
    a ∈ l ∧ ∀ b ∈ l, key b ≤ key a := by
  obtain ⟨as, has⟩ := List.head?_eq_some_iff.mp h
  have hsorted := pairwise_sortBy (fun a => OrderDual.toDual (key a)) l
  rw [has, List.pairwise_cons] at hsorted
  refine ⟨mem_sortBy.mp (has ▸ List.mem_cons_self), fun b hb => ?_⟩
  have hb : b ∈ a :: as := has ▸ mem_sortBy.mpr hb
  rcases List.mem_cons.mp hb with rfl | hb
  · exact le_rfl
  · exact hsorted.1 b hb

end ComplyLayer.Theory
