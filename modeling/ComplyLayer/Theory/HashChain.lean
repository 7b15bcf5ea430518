import Mathlib.Data.List.Forall2
import Mathlib.Data.List.Induction

/-!
# Chains of hashes

A record names the hash of the one before it. `Linked prev hash b` says that a list of records is
such a chain from `b` on, `linked_concat` what a further record has to name, and
`forall₂_of_linked` that the last hash pins all records.
-/

namespace ComplyLayer.Theory

variable {α β : Type}

/-- Each record names the hash of the one before it, and the first one names `b`. -/
def Linked (prev hash : α → β) (b : β) : List α → Prop
  | [] => True
  | a :: as => prev a = b ∧ Linked prev hash (hash a) as

variable {prev hash : α → β}

/-- The hash a further record has to name. -/
def lastHash (hash : α → β) (b : β) (l : List α) : β := (l.getLast?).elim b hash

@[simp] theorem lastHash_nil (b : β) : lastHash hash b [] = b := rfl

theorem lastHash_cons (b : β) (a : α) (l : List α) :
    lastHash hash b (a :: l) = lastHash hash (hash a) l := by
  cases l with
  | nil => rfl
  | cons c l =>
    rw [lastHash, lastHash, List.getLast?_cons_cons, List.getLast?_eq_some_getLast (by simp)]
    rfl

theorem linked_concat {b : β} : Linked prev hash b (l ++ [a]) ↔
    Linked prev hash b l ∧ prev a = lastHash hash b l := by
  induction l generalizing b with
  | nil => simp [Linked]
  | cons c l ih => rw [List.cons_append, Linked, Linked, ih, lastHash_cons, and_assoc]

theorem linked_left {b : β} (h : Linked prev hash b (l ++ m)) : Linked prev hash b l := by
  induction l generalizing b with
  | nil => trivial
  | cons a l ih => exact ⟨h.1, ih h.2⟩

theorem lastHash_concat (b : β) (l : List α) (a : α) : lastHash hash b (l ++ [a]) = hash a := by
  rw [lastHash, List.getLast?_concat]
  rfl

/-- Two chains of one length with the same last hash agree everywhere, where records with the same
hash agree. -/
theorem forall₂_of_linked {agree : α → α → Prop} {b : β} {l m : List α}
    (hagree : ∀ a ∈ l, ∀ c ∈ m, hash a = hash c → prev a = prev c ∧ agree a c)
    (hl : Linked prev hash b l) (hm : Linked prev hash b m) (hlength : l.length = m.length)
    (hlast : lastHash hash b l = lastHash hash b m) : List.Forall₂ agree l m := by
  induction l using List.reverseRecOn generalizing m with
  | nil =>
    cases List.eq_nil_of_length_eq_zero hlength.symm
    exact .nil
  | append_singleton l a ih =>
    induction m using List.reverseRecOn with
    | nil => simp at hlength
    | append_singleton m c _ =>
      rw [List.forall_mem_append] at hagree
      obtain ⟨hbefore, ha⟩ := hagree
      rw [lastHash_concat, lastHash_concat] at hlast
      obtain ⟨hl, hprev⟩ := linked_concat.mp hl
      obtain ⟨hm, hprev'⟩ := linked_concat.mp hm
      obtain ⟨heq, hac⟩ := ha a (List.mem_singleton_self a) c
        (List.mem_append_right _ (List.mem_singleton_self c)) hlast
      have hlength : l.length = m.length := by simpa using hlength
      have hlast : lastHash hash b l = lastHash hash b m := by rw [← hprev, heq, hprev']
      have hforall := ih (fun a ha c hc => hbefore a ha c (List.mem_append_left _ hc)) hl hm
        hlength hlast
      exact List.rel_append hforall (.cons hac .nil)

end ComplyLayer.Theory
