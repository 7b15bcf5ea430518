import ComplyLayer.Theory.Dict
import Mathlib.Algebra.Ring.Nat

/-!
# Counting under keys

A dictionary of counts. After it has counted a list of keys, a key has what it had and its number
in the list (`countOf_bumpAll`), and the counts sum up to the keys there were.
-/

namespace ComplyLayer.Theory.Dict

variable {κ : Type} [DecidableEq κ] {k : κ} {ks : List κ}

/-- `counts.get(k, 0)`. -/
def countOf (counts : Dict κ Nat) (k : κ) : Nat := (counts.get? k).getD 0

/-- `counts[k] = counts.get(k, 0) + 1`. -/
def bump (counts : Dict κ Nat) (k : κ) : Dict κ Nat := counts.set k (counts.countOf k + 1)

def bumpAll (counts : Dict κ Nat) (ks : List κ) : Dict κ Nat := ks.foldl bump counts

@[simp] theorem countOf_empty (k : κ) : (∅ : Dict κ Nat).countOf k = 0 := rfl

theorem countOf_of_mem {counts : Dict κ Nat} (h : (k, n) ∈ counts.entries) :
    counts.countOf k = n := by
  rw [countOf, (get?_eq_some_iff counts).mpr h, Option.getD_some]

theorem countOf_bump (counts : Dict κ Nat) (k k' : κ) :
    (counts.bump k).countOf k' = counts.countOf k' + if k = k' then 1 else 0 := by
  rw [countOf, bump]
  by_cases h : k = k'
  · subst h
    rw [get?_set_self, Option.getD_some, if_pos rfl]
  · rw [get?_set_of_ne (Ne.symm h), if_neg h]
    rfl

theorem bumpAll_cons (counts : Dict κ Nat) (k : κ) (ks : List κ) :
    counts.bumpAll (k :: ks) = (counts.bump k).bumpAll ks := rfl

theorem bumpAll_append (counts : Dict κ Nat) (ks ks' : List κ) :
    counts.bumpAll (ks ++ ks') = (counts.bumpAll ks).bumpAll ks' :=
  List.foldl_append

theorem countOf_bumpAll (counts : Dict κ Nat) (ks : List κ) (k : κ) :
    (counts.bumpAll ks).countOf k = counts.countOf k + ks.count k := by
  induction ks generalizing counts with
  | nil => rfl
  | cons k' ks ih =>
    rw [bumpAll_cons, ih, countOf_bump, List.count_cons, Nat.add_assoc]
    congr 1
    rw [Nat.add_comm]
    simp only [beq_iff_eq]

theorem mem_keys_bumpAll {counts : Dict κ Nat} :
    k ∈ (counts.bumpAll ks).keys ↔ k ∈ counts.keys ∨ k ∈ ks := by
  induction ks generalizing counts with
  | nil => simp [bumpAll]
  | cons k' ks ih =>
    rw [bumpAll_cons, ih, bump, mem_keys_set, List.mem_cons, or_assoc]
    exact or_left_comm

/-- The value of a key that is put anew. -/
theorem sum_put_add (k : κ) (n : Nat) (l : List (κ × Nat)) :
    ((put k ((find k l).getD 0 + n) l).map Prod.snd).sum = (l.map Prod.snd).sum + n := by
  induction l with
  | nil => simp [put, find]
  | cons entry l ih =>
    obtain ⟨k', m⟩ := entry
    by_cases h : k = k'
    · simp only [put, find, h, if_true, Option.getD_some, List.map_cons, List.sum_cons]
      omega
    · simp only [put, find, h, if_false, List.map_cons, List.sum_cons, ih]
      omega

theorem sum_values_bumpAll (counts : Dict κ Nat) (ks : List κ) :
    (counts.bumpAll ks).values.sum = counts.values.sum + ks.length := by
  induction ks generalizing counts with
  | nil => rfl
  | cons k ks ih =>
    have hone : (counts.bump k).values.sum = counts.values.sum + 1 := sum_put_add k 1 counts.entries
    rw [bumpAll_cons, ih, hone, List.length_cons, Nat.add_assoc, Nat.add_comm 1]

end ComplyLayer.Theory.Dict
