import Mathlib.Data.List.Nodup

/-!
# Tables with a unique key

A table holds rows in the order they were inserted, no two with the same key. Inserting a row
whose key is taken is refused, as a unique constraint refuses it, and a row is updated where it
stands.
-/

namespace ComplyLayer.Theory

structure Table {α κ : Type} (key : α → κ) where
  rows : List α
  nodup : (rows.map key).Nodup

namespace Table

variable {α κ : Type} {key : α → κ}

theorem ext {t u : Table key} (h : t.rows = u.rows) : t = u := by
  cases t
  cases u
  cases h
  rfl

def empty : Table key := ⟨[], List.nodup_nil⟩

instance : EmptyCollection (Table key) := ⟨empty⟩
instance : Inhabited (Table key) := ⟨empty⟩

variable [DecidableEq κ]

def find? (t : Table key) (k : κ) : Option α := t.rows.find? fun row => key row = k

/-- Insert a row, unless its key is taken. -/
def insert? (t : Table key) (row : α) : Option (Table key) :=
  if h : key row ∈ t.rows.map key then none
  else some
    { rows := t.rows ++ [row]
      nodup := by
        rw [List.map_append]
        refine List.nodup_append.mpr ⟨t.nodup, List.nodup_singleton _, ?_⟩
        rintro a ha b hb rfl
        exact h (List.mem_singleton.mp hb ▸ ha) }

/-- `get_or_create`: the table with this row in it, unless its key is taken. -/
def getOrCreate (t : Table key) (row : α) : Table key := (t.insert? row).getD t

/-- Replace the row that has this row's key. -/
def put (t : Table key) (row : α) : Table key where
  rows := t.rows.map fun r => if key r = key row then row else r
  nodup := by
    have hkeys : (t.rows.map fun r => if key r = key row then row else r).map key =
        t.rows.map key := by
      rw [List.map_map]
      refine List.map_congr_left fun r _ => ?_
      by_cases h : key r = key row <;> simp [h]
    rw [hkeys]
    exact t.nodup

/-- Delete the row with a key. -/
def erase (t : Table key) (k : κ) : Table key where
  rows := t.rows.filter fun row => key row ≠ k
  nodup := t.nodup.sublist (List.filter_sublist.map _)

variable {t u : Table key}

theorem find?_eq_some_iff : t.find? k = some row ↔ row ∈ t.rows ∧ key row = k := by
  constructor
  · intro h
    exact ⟨List.mem_of_find?_eq_some h, by simpa using List.find?_some h⟩
  · rintro ⟨hmem, rfl⟩
    cases hf : t.find? (key row) with
    | none =>
      have := List.find?_eq_none.mp hf row hmem
      simp at this
    | some r =>
      have hr : r ∈ t.rows := List.mem_of_find?_eq_some hf
      have hk : key r = key row := by simpa using List.find?_some hf
      rw [List.inj_on_of_nodup_map t.nodup hr hmem hk]

theorem find?_eq_none_iff : t.find? k = none ↔ k ∉ t.rows.map key := by
  rw [find?, List.find?_eq_none]
  simp

theorem insert?_eq_some_iff : t.insert? row = some u ↔
    key row ∉ t.rows.map key ∧ u.rows = t.rows ++ [row] := by
  unfold insert?
  split
  · rename_i h
    simp [h]
  · rename_i h
    constructor
    · intro heq
      cases heq
      exact ⟨h, rfl⟩
    · rintro ⟨-, hrows⟩
      cases u
      cases hrows
      rfl

theorem insert?_eq_none_iff : t.insert? row = none ↔ (t.find? (key row)).isSome := by
  rw [← not_iff_not, Option.not_isSome_iff_eq_none, find?_eq_none_iff]
  unfold insert?
  split <;> simp_all

theorem find?_insert? (h : t.insert? row = some u) (k : κ) :
    u.find? k = if key row = k then some row else t.find? k := by
  obtain ⟨hnew, hrows⟩ := insert?_eq_some_iff.mp h
  split
  · rename_i hk
    exact find?_eq_some_iff.mpr ⟨by rw [hrows]; simp, hk⟩
  · rename_i hk
    rw [find?, hrows, List.find?_append]
    simp [find?, hk]

/-- A row that is there stays. -/
theorem find?_insert?_of_some (h : t.insert? row = some u) (hfound : t.find? k = some r) :
    u.find? k = some r := by
  rw [find?_insert? h, if_neg]
  · exact hfound
  · rintro rfl
    rw [find?_eq_none_iff.mpr (insert?_eq_some_iff.mp h).1] at hfound
    cases hfound

/-- After `get_or_create` the row with the key is the one that was there, or the new one. -/
theorem find?_getOrCreate (t : Table key) (row : α) (k : κ) :
    (t.getOrCreate row).find? k =
      if key row = k then some ((t.find? k).getD row) else t.find? k := by
  unfold getOrCreate
  cases h : t.insert? row with
  | some u =>
    rw [Option.getD_some, find?_insert? h]
    split
    · rename_i hk
      subst hk
      have hnone : t.find? (key row) = none :=
        find?_eq_none_iff.mpr (insert?_eq_some_iff.mp h).1
      rw [hnone, Option.getD_none]
    · rfl
  | none =>
    obtain ⟨r, hr⟩ := Option.isSome_iff_exists.mp (insert?_eq_none_iff.mp h)
    rw [Option.getD_none]
    split
    · rename_i hk
      rw [← hk, hr, Option.getD_some]
    · rfl

theorem mem_rows_put : r ∈ (t.put row).rows ↔
    (r = row ∧ ∃ r' ∈ t.rows, key r' = key row) ∨ (r ∈ t.rows ∧ key r ≠ key row) := by
  simp only [put, List.mem_map]
  constructor
  · rintro ⟨r', hr', rfl⟩
    by_cases h : key r' = key row
    · rw [if_pos h]
      exact .inl ⟨rfl, r', hr', h⟩
    · rw [if_neg h]
      exact .inr ⟨hr', h⟩
  · rintro (⟨rfl, r', hr', hk⟩ | ⟨hr, hk⟩)
    · exact ⟨r', hr', by simp [hk]⟩
    · exact ⟨r, hr, by simp [hk]⟩

theorem find?_put_self (h : (t.find? (key row)).isSome) : (t.put row).find? (key row) = some row := by
  obtain ⟨r, hr⟩ := Option.isSome_iff_exists.mp h
  obtain ⟨hmem, hk⟩ := find?_eq_some_iff.mp hr
  exact find?_eq_some_iff.mpr ⟨mem_rows_put.mpr (.inl ⟨rfl, r, hmem, hk⟩), rfl⟩

theorem find?_put_of_ne (h : k ≠ key row) : (t.put row).find? k = t.find? k := by
  apply Option.ext
  intro r
  rw [find?_eq_some_iff, find?_eq_some_iff, mem_rows_put]
  constructor
  · rintro ⟨⟨rfl, -⟩ | ⟨hr, -⟩, hk⟩
    · exact absurd hk.symm h
    · exact ⟨hr, hk⟩
  · rintro ⟨hr, rfl⟩
    exact ⟨.inr ⟨hr, h⟩, rfl⟩

/-- Putting a row over one that is there. -/
theorem find?_put (h : (t.find? (key row)).isSome) (k : κ) :
    (t.put row).find? k = if k = key row then some row else t.find? k := by
  split
  · rename_i hk
    rw [hk, find?_put_self h]
  · rename_i hk
    exact find?_put_of_ne hk

/-- Putting a row where it is already. -/
theorem put_eq_self (h : t.find? (key row) = some row) : t.put row = t := by
  have hrows : (t.put row).rows = t.rows := by
    refine (List.map_congr_left fun r hr => ?_).trans (List.map_id t.rows)
    split
    · rename_i hk
      exact Option.some.inj (h.symm.trans (find?_eq_some_iff.mpr ⟨hr, hk⟩))
    · rfl
  exact ext hrows

/-- A lookup that shows only the rows of one owner. -/
theorem find?_filter_eq_some_iff {τ : Type} [DecidableEq τ] {owner : α → τ} {o : τ} :
    ((t.find? k).filter fun row => owner row = o) = some row ↔
      t.find? k = some row ∧ owner row = o := by
  rw [Option.filter_eq_some_iff, decide_eq_true_iff]

/-- Putting a row over one that a selection does not tell from it. -/
theorem map_filter_rows_put {β : Type} {p : α → Bool} {f : α → β}
    (hp : ∀ r ∈ t.rows, key r = key row → p r = p row)
    (hf : ∀ r ∈ t.rows, key r = key row → p row → f r = f row) :
    ((t.put row).rows.filter p).map f = (t.rows.filter p).map f := by
  have hmap : ∀ rows : List α, (∀ r ∈ rows, r ∈ t.rows) →
      ((rows.map fun r => if key r = key row then row else r).filter p).map f =
        (rows.filter p).map f := by
    intro rows hrows
    induction rows with
    | nil => rfl
    | cons r rows ih =>
      have ih := ih fun r hr => hrows r (List.mem_cons_of_mem _ hr)
      have hr : r ∈ t.rows := hrows r List.mem_cons_self
      rw [List.map_cons]
      by_cases hk : key r = key row
      · rw [if_pos hk, List.filter_cons, List.filter_cons, hp r hr hk]
        split
        · rename_i hrow
          rw [List.map_cons, List.map_cons, ih, hf r hr hk hrow]
        · exact ih
      · rw [if_neg hk, List.filter_cons, List.filter_cons]
        split
        · rw [List.map_cons, List.map_cons, ih]
        · exact ih
  exact hmap t.rows fun _ hr => hr

/-- Putting a row that a selection leaves out, over one that it leaves out. -/
theorem filter_rows_put {p : α → Bool} (hrow : p row = false)
    (hold : ∀ r ∈ t.rows, key r = key row → p r = false) :
    (t.put row).rows.filter p = t.rows.filter p := by
  have h := map_filter_rows_put (f := fun r : α => r)
    (fun r hr hk => (hold r hr hk).trans hrow.symm) fun r hr hk hp => by simp [hrow] at hp
  simpa using h

theorem find?_put_of_found (h : t.find? (key row) = some old) (k : κ) :
    (t.put row).find? k = if k = key row then some row else t.find? k :=
  find?_put (by rw [h]; rfl) k

end Table

end ComplyLayer.Theory
