import Mathlib.Data.List.Nodup
import Mathlib.Data.List.Perm.Basic

/-!
# Insertion-ordered dictionaries

`Dict κ β` is a finite map that remembers the order in which its keys were first set, the order
in which iteration visits them. Setting a present key rewrites its value where it stands, and a
new key goes to the end. Each key occurs once, by the field `nodup`.
-/

namespace ComplyLayer.Theory

structure Dict (κ β : Type) where
  entries : List (κ × β)
  nodup : (entries.map Prod.fst).Nodup

namespace Dict

variable {κ β : Type}

@[ext] theorem ext {d e : Dict κ β} (h : d.entries = e.entries) : d = e := by
  cases d
  cases e
  cases h
  rfl

instance [DecidableEq κ] [DecidableEq β] : DecidableEq (Dict κ β) := fun d e =>
  decidable_of_iff (d.entries = e.entries) ⟨Dict.ext, fun h => by rw [h]⟩

def empty : Dict κ β := ⟨[], List.nodup_nil⟩

instance : EmptyCollection (Dict κ β) := ⟨empty⟩
instance : Inhabited (Dict κ β) := ⟨empty⟩

def keys (d : Dict κ β) : List κ := d.entries.map Prod.fst

def values (d : Dict κ β) : List β := d.entries.map Prod.snd

/-- Apply a function to every value. -/
def map {γ : Type} (f : β → γ) (d : Dict κ β) : Dict κ γ where
  entries := d.entries.map fun e => (e.1, f e.2)
  nodup := by
    rw [List.map_map]
    exact d.nodup

/-- Apply a function to every value, and drop those it has none for. -/
def filterMap {γ : Type} (f : β → Option γ) (d : Dict κ β) : Dict κ γ where
  entries := d.entries.filterMap fun e => (f e.2).map (e.1, ·)
  nodup := by
    have hsub : ∀ l : List (κ × β),
        ((l.filterMap fun e => (f e.2).map (e.1, ·)).map Prod.fst).Sublist (l.map Prod.fst) := by
      intro l
      induction l with
      | nil => exact List.Sublist.slnil
      | cons e rest ih =>
        cases hf : f e.2 with
        | none => simpa [List.filterMap_cons, hf] using ih.cons e.1
        | some v => simpa [List.filterMap_cons, hf] using ih
    exact d.nodup.sublist (hsub d.entries)

variable [DecidableEq κ]

/-- `lookup` by propositional equality, so that it unfolds without a `BEq` instance. -/
def find (k : κ) : List (κ × β) → Option β
  | [] => none
  | (k', v) :: rest => if k = k' then some v else find k rest

/-- Rewrite the value of `k`, or add it at the end. -/
def put (k : κ) (v : β) : List (κ × β) → List (κ × β)
  | [] => [(k, v)]
  | (k', v') :: rest => if k = k' then (k, v) :: rest else (k', v') :: put k v rest

theorem map_fst_put (k : κ) (v : β) (l : List (κ × β)) :
    (put k v l).map Prod.fst = if k ∈ l.map Prod.fst then l.map Prod.fst
      else l.map Prod.fst ++ [k] := by
  induction l with
  | nil => rfl
  | cons p rest ih =>
    obtain ⟨k', v'⟩ := p
    by_cases h : k = k'
    · subst h
      simp [put]
    · rw [put, if_neg h, List.map_cons, ih, List.map_cons]
      simp only [List.mem_cons, h, false_or]
      split <;> rfl

def get? (d : Dict κ β) (k : κ) : Option β := find k d.entries

def contains (d : Dict κ β) (k : κ) : Bool := (d.get? k).isSome

def set (d : Dict κ β) (k : κ) (v : β) : Dict κ β where
  entries := put k v d.entries
  nodup := by
    rw [map_fst_put]
    split
    · exact d.nodup
    · rename_i h
      refine List.nodup_append.mpr ⟨d.nodup, List.nodup_singleton k, ?_⟩
      intro a ha b hb hab
      rw [List.mem_singleton.mp hb] at hab
      exact h (hab ▸ ha)

/-- Set every pair of a list in turn, later pairs over earlier ones. -/
def update (d : Dict κ β) (l : List (κ × β)) : Dict κ β := l.foldl (fun e p => e.set p.1 p.2) d

def ofList (l : List (κ × β)) : Dict κ β := (∅ : Dict κ β).update l

/-- Keep the entries whose key satisfies `p`, in order. -/
def filterKeys (d : Dict κ β) (p : κ → Bool) : Dict κ β where
  entries := d.entries.filter (fun e => p e.1)
  nodup := d.nodup.sublist (List.filter_sublist.map _)

/-- Keep the entries that satisfy `p`, in order. -/
def filter (d : Dict κ β) (p : κ × β → Bool) : Dict κ β where
  entries := d.entries.filter p
  nodup := d.nodup.sublist (List.filter_sublist.map _)

omit [DecidableEq κ] in
theorem filter_eq_self {d : Dict κ β} {p : κ × β → Bool} (h : ∀ e ∈ d.entries, p e) :
    d.filter p = d :=
  ext (List.filter_eq_self.mpr h)

theorem put_of_not_mem {l : List (κ × β)} (h : k ∉ l.map Prod.fst) (v : β) :
    put k v l = l ++ [(k, v)] := by
  induction l with
  | nil => rfl
  | cons p rest ih =>
    rw [List.map_cons, List.mem_cons, not_or] at h
    obtain ⟨hne, hrest⟩ := h
    rw [put, if_neg hne, ih hrest, List.cons_append]

/-- A new key goes to the end. -/
theorem entries_set_of_not_mem {d : Dict κ β} (h : k ∉ d.keys) (v : β) :
    (d.set k v).entries = d.entries ++ [(k, v)] :=
  put_of_not_mem h v

theorem mem_keys_set (d : Dict κ β) (k : κ) (v : β) :
    k' ∈ (d.set k v).keys ↔ k' = k ∨ k' ∈ d.keys := by
  rw [keys, set, map_fst_put]
  split
  · rename_i hmem
    exact ⟨.inr, fun h => h.elim (fun hk => hk ▸ hmem) id⟩
  · rw [List.mem_append, List.mem_singleton, or_comm]
    rfl

theorem length_entries_set (d : Dict κ β) (k : κ) (v : β) :
    (d.set k v).entries.length = d.entries.length + if k ∈ d.keys then 0 else 1 := by
  have hkeys := congrArg List.length (map_fst_put k v d.entries)
  rw [List.length_map] at hkeys
  rw [set, hkeys, keys]
  split
  · rw [List.length_map, Nat.add_zero]
  · rw [List.length_append, List.length_map, List.length_singleton]

/-! ## Lookup -/

@[simp] theorem get?_empty (k : κ) : (∅ : Dict κ β).get? k = none := rfl

theorem find_put_self (k : κ) (v : β) (l : List (κ × β)) : find k (put k v l) = some v := by
  induction l with
  | nil => simp [put, find]
  | cons p rest ih =>
    by_cases h : k = p.1
    · simp [put, find, h]
    · simp [put, find, h, ih]

theorem find_put_of_ne {k k' : κ} (h : k' ≠ k) (v : β) (l : List (κ × β)) :
    find k' (put k v l) = find k' l := by
  induction l with
  | nil => simp [put, find, h]
  | cons p rest ih =>
    by_cases hk : k = p.1
    · subst hk
      simp [put, find, h]
    · by_cases hk' : k' = p.1
      · simp [put, find, hk, hk']
      · simp [put, find, hk, hk', ih]

@[simp] theorem get?_set_self (d : Dict κ β) (k : κ) (v : β) : (d.set k v).get? k = some v :=
  find_put_self k v d.entries

theorem get?_set_of_ne {k k' : κ} (h : k' ≠ k) (d : Dict κ β) (v : β) :
    (d.set k v).get? k' = d.get? k' :=
  find_put_of_ne h v d.entries

theorem get?_set (d : Dict κ β) (k k' : κ) (v : β) :
    (d.set k v).get? k' = if k' = k then some v else d.get? k' := by
  split
  · rename_i h
    rw [h, get?_set_self]
  · rename_i h
    exact get?_set_of_ne h d v

theorem find_eq_some_of_mem {l : List (κ × β)} (hnd : (l.map Prod.fst).Nodup)
    (h : (k, v) ∈ l) : find k l = some v := by
  induction l with
  | nil => cases h
  | cons p rest ih =>
    obtain ⟨hp, hrest⟩ := List.nodup_cons.mp hnd
    rcases List.mem_cons.mp h with rfl | hmem
    · simp [find]
    · have hne : k ≠ p.1 := by
        rintro rfl
        exact hp (List.mem_map.mpr ⟨_, hmem, rfl⟩)
      simp [find, hne, ih hrest hmem]

theorem mem_of_find_eq_some {l : List (κ × β)} (h : find k l = some v) : (k, v) ∈ l := by
  induction l with
  | nil => cases h
  | cons p rest ih =>
    by_cases hk : k = p.1
    · simp only [find, if_pos hk, Option.some.injEq] at h
      subst hk h
      exact List.mem_cons_self
    · simp only [find, if_neg hk] at h
      exact List.mem_cons_of_mem _ (ih h)

theorem get?_eq_some_iff (d : Dict κ β) : d.get? k = some v ↔ (k, v) ∈ d.entries :=
  ⟨mem_of_find_eq_some, find_eq_some_of_mem d.nodup⟩

theorem mem_keys_iff (d : Dict κ β) : k ∈ d.keys ↔ ∃ v, d.get? k = some v := by
  constructor
  · intro h
    obtain ⟨⟨_, v⟩, hmem, rfl⟩ := List.mem_map.mp h
    exact ⟨v, (d.get?_eq_some_iff).mpr hmem⟩
  · rintro ⟨v, h⟩
    exact List.mem_map_of_mem ((d.get?_eq_some_iff).mp h)

theorem mem_values_iff (d : Dict κ β) : v ∈ d.values ↔ ∃ k, d.get? k = some v := by
  constructor
  · intro h
    obtain ⟨⟨k, w⟩, hmem, rfl⟩ := List.mem_map.mp h
    exact ⟨k, d.get?_eq_some_iff.mpr hmem⟩
  · rintro ⟨k, h⟩
    exact List.mem_map.mpr ⟨_, d.get?_eq_some_iff.mp h, rfl⟩

theorem get?_filterKeys (d : Dict κ β) (p : κ → Bool) (k : κ) :
    (d.filterKeys p).get? k = if p k then d.get? k else none := by
  obtain ⟨l, hnd⟩ := d
  simp only [get?, filterKeys]
  clear hnd
  induction l with
  | nil => simp [find]
  | cons e rest ih =>
    obtain ⟨k', v⟩ := e
    by_cases hp : p k'
    · by_cases hk : k = k'
      · subst hk
        simp [find, hp]
      · simp [hp, find, hk, ih]
    · by_cases hk : k = k'
      · subst hk
        simp [hp, ih]
      · simp [hp, find, hk, ih]

theorem get?_map {γ : Type} (f : β → γ) (d : Dict κ β) (k : κ) :
    (d.map f).get? k = (d.get? k).map f := by
  obtain ⟨l, hnd⟩ := d
  simp only [get?, map]
  clear hnd
  induction l with
  | nil => rfl
  | cons e rest ih =>
    by_cases hk : k = e.1
    · simp [find, hk]
    · simp [find, hk, ih]

theorem find_eq_none_of_not_mem {l : List (κ × β)} (h : k ∉ l.map Prod.fst) : find k l = none := by
  cases hfind : find k l with
  | none => rfl
  | some v => exact absurd (List.mem_map_of_mem (mem_of_find_eq_some hfind)) h

theorem get?_filterMap {γ : Type} (f : β → Option γ) (d : Dict κ β) (k : κ) :
    (d.filterMap f).get? k = (d.get? k).bind f := by
  obtain ⟨l, hnd⟩ := d
  simp only [get?, filterMap]
  induction l with
  | nil => rfl
  | cons e rest ih =>
    obtain ⟨k', v⟩ := e
    obtain ⟨hnew, hrest⟩ := List.nodup_cons.mp hnd
    by_cases hk : k = k'
    · subst hk
      cases hf : f v with
      | none =>
        have hnone : find k rest = none := find_eq_none_of_not_mem hnew
        simpa [List.filterMap_cons, hf, find, hnone] using ih hrest
      | some w => simp [hf, find]
    · cases hf : f v with
      | none => simpa [List.filterMap_cons, hf, find, hk] using ih hrest
      | some w => simpa [List.filterMap_cons, hf, find, hk] using ih hrest

/-! ## Building from a list -/

@[simp] theorem update_cons (d : Dict κ β) (p : κ × β) (l : List (κ × β)) :
    d.update (p :: l) = (d.set p.1 p.2).update l := rfl

theorem get?_update_of_not_mem {d : Dict κ β} {l : List (κ × β)} (h : k ∉ l.map Prod.fst) :
    (d.update l).get? k = d.get? k := by
  induction l generalizing d with
  | nil => rfl
  | cons p rest ih =>
    simp only [List.map_cons, List.mem_cons, not_or] at h
    rw [update_cons, ih h.2, get?_set_of_ne h.1]

/-- Of pairs with distinct keys, each is set over what was there. -/
theorem get?_update_of_nodup {d : Dict κ β} {l : List (κ × β)} (h : (l.map Prod.fst).Nodup) (k : κ) :
    (d.update l).get? k = (find k l).or (d.get? k) := by
  induction l generalizing d with
  | nil => rfl
  | cons p rest ih =>
    obtain ⟨hp, hrest⟩ := List.nodup_cons.mp h
    rw [update_cons, find]
    by_cases hk : k = p.1
    · rw [if_pos hk, get?_update_of_not_mem (hk ▸ hp), hk, get?_set_self]
      rfl
    · rw [if_neg hk, ih hrest, get?_set_of_ne hk]

theorem mem_of_get?_update {d : Dict κ β} {l : List (κ × β)} (h : (d.update l).get? k = some v) :
    (k, v) ∈ l ∨ d.get? k = some v := by
  induction l generalizing d with
  | nil => exact .inr h
  | cons p rest ih =>
    rcases ih h with h' | h'
    · exact .inl (List.mem_cons_of_mem _ h')
    · rw [get?_set] at h'
      split at h'
      · rename_i hk
        cases h'
        subst hk
        exact .inl List.mem_cons_self
      · exact .inr h'

theorem isSome_get?_update {d : Dict κ β} {l : List (κ × β)} (h : k ∈ l.map Prod.fst) :
    ((d.update l).get? k).isSome := by
  induction l generalizing d with
  | nil => cases h
  | cons p rest ih =>
    rw [update_cons]
    by_cases hrest : k ∈ rest.map Prod.fst
    · exact ih hrest
    · have hk : k = p.1 := (List.mem_cons.mp h).resolve_right hrest
      rw [get?_update_of_not_mem hrest, hk, get?_set_self]
      rfl

/-- Pairs with new and distinct keys go to the end in turn. -/
theorem entries_update {d : Dict κ β} {l : List (κ × β)}
    (h : (d.keys ++ l.map Prod.fst).Nodup) : (d.update l).entries = d.entries ++ l := by
  induction l generalizing d with
  | nil => exact (List.append_nil _).symm
  | cons p rest ih =>
    have hnew : p.1 ∉ d.keys := fun hmem =>
      (List.nodup_append.mp h).2.2 _ hmem _ List.mem_cons_self rfl
    have hentries := entries_set_of_not_mem hnew p.2
    have hkeys : (d.set p.1 p.2).keys = d.keys ++ [p.1] := by
      rw [keys, hentries, List.map_append]
      rfl
    rw [update_cons, ih, hentries, List.append_assoc]
    · rfl
    · rw [hkeys, List.append_assoc]
      exact h

/-- Pairs with distinct keys are the entries of the dictionary they make. -/
theorem entries_ofList {l : List (κ × β)} (h : (l.map Prod.fst).Nodup) : (ofList l).entries = l :=
  entries_update h

theorem mem_of_get?_ofList {l : List (κ × β)} (h : (ofList l).get? k = some v) : (k, v) ∈ l :=
  (mem_of_get?_update h).resolve_right (by simp)

/-! ## Indexing by a key -/

section
variable {f : β → κ} {l : List β}

theorem get?_index (h : (ofList (l.map fun v => (f v, v))).get? k = some v) : v ∈ l ∧ f v = k := by
  obtain ⟨w, hw, heq⟩ := List.mem_map.mp (mem_of_get?_ofList h)
  cases heq
  exact ⟨hw, rfl⟩

theorem mem_of_mem_values_index (h : v ∈ (ofList (l.map fun v => (f v, v))).values) : v ∈ l := by
  obtain ⟨k, hk⟩ := (mem_values_iff _).mp h
  exact (get?_index hk).1

/-- Every value indexed is there under its key, or another value with that key is. -/
theorem exists_mem_values_index (h : v ∈ l) :
    ∃ w ∈ (ofList (l.map fun v => (f v, v))).values, f w = f v := by
  have hkey : f v ∈ (l.map fun v => (f v, v)).map Prod.fst :=
    List.mem_map.mpr ⟨_, List.mem_map.mpr ⟨v, h, rfl⟩, rfl⟩
  obtain ⟨w, hw⟩ := Option.isSome_iff_exists.mp (isSome_get?_update (d := ∅) hkey)
  exact ⟨w, (mem_values_iff _).mpr ⟨_, hw⟩, (get?_index hw).2⟩

theorem mem_values_index (hf : ∀ a ∈ l, ∀ b ∈ l, f a = f b → a = b) :
    v ∈ (ofList (l.map fun v => (f v, v))).values ↔ v ∈ l := by
  refine ⟨mem_of_mem_values_index, fun h => ?_⟩
  obtain ⟨w, hw, hwv⟩ := exists_mem_values_index (f := f) h
  exact hf w (mem_of_mem_values_index hw) v h hwv ▸ hw

/-- No two values of an index share a key. -/
theorem nodup_map_values_index : ((ofList (l.map fun v => (f v, v))).values.map f).Nodup := by
  have hkeys : (ofList (l.map fun v => (f v, v))).values.map f =
      (ofList (l.map fun v => (f v, v))).entries.map Prod.fst := by
    rw [values, List.map_map]
    exact List.map_congr_left fun e he => (get?_index ((get?_eq_some_iff _).mpr he)).2
  rw [hkeys]
  exact (ofList _).nodup

end

end Dict

end ComplyLayer.Theory
