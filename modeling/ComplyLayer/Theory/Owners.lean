import ComplyLayer.Theory.Runs
import ComplyLayer.Theory.Table

/-!
# Steps and rows with owners

What one owner sees of a run of a system that several share. A table is restricted to rows of one
kind (`Table.select`), and a run to the steps of one owner: where a step of the owner depends on
what the owner sees alone, and a step of another leaves that as it is, the owner sees the run of the
own steps alone (`run_alone`).
-/

namespace ComplyLayer.Theory

/-! ## Tables -/

namespace Table

variable {α κ : Type} {key : α → κ} {p : α → Bool} {t u : Table key} {row : α}

/-- The rows that satisfy `p`. -/
def select (p : α → Bool) (t : Table key) : Table key where
  rows := t.rows.filter p
  nodup := t.nodup.sublist (List.filter_sublist.map _)

variable [DecidableEq κ]

theorem find?_select (h : ∀ row ∈ t.rows, key row = k → p row = true) :
    (t.select p).find? k = t.find? k := by
  apply Option.ext
  intro row
  rw [find?_eq_some_iff, find?_eq_some_iff, select, List.mem_filter]
  exact ⟨fun hrow => ⟨hrow.1.1, hrow.2⟩, fun hrow => ⟨⟨hrow.1, h row hrow.1 hrow.2⟩, hrow.2⟩⟩

theorem select_insert?_of_not (hrow : p row = false) (h : t.insert? row = some u) :
    u.select p = t.select p := by
  have hrows : u.rows.filter p = t.rows.filter p := by
    rw [(insert?_eq_some_iff.mp h).2, List.filter_append, List.filter_singleton, hrow]
    exact List.append_nil _
  exact ext hrows

/-- A row of the kind is inserted among the rows of the kind, where no other row has its key. -/
theorem insert?_select (hrow : p row = true)
    (h : ∀ other ∈ t.rows, key other = key row → p other = true) :
    (t.select p).insert? row = (t.insert? row).map (select p) := by
  cases hinsert : t.insert? row with
  | none =>
    rw [insert?_eq_none_iff] at hinsert
    rw [← find?_select h] at hinsert
    exact insert?_eq_none_iff.mpr hinsert
  | some u =>
    obtain ⟨hnew, hrows⟩ := insert?_eq_some_iff.mp hinsert
    refine insert?_eq_some_iff.mpr ⟨fun hmem => hnew ?_, ?_⟩
    · exact (List.filter_sublist.map key).subset hmem
    · change u.rows.filter p = t.rows.filter p ++ [row]
      rw [hrows, List.filter_append, List.filter_singleton, hrow]
      rfl

theorem getOrCreate_select (hrow : p row = true)
    (h : ∀ other ∈ t.rows, key other = key row → p other = true) :
    (t.select p).getOrCreate row = (t.getOrCreate row).select p := by
  rw [getOrCreate, getOrCreate, insert?_select hrow h]
  cases t.insert? row <;> rfl

theorem select_getOrCreate_of_not (hrow : p row = false) :
    (t.getOrCreate row).select p = t.select p := by
  rw [getOrCreate]
  cases h : t.insert? row with
  | none => rfl
  | some u => exact select_insert?_of_not hrow h

end Table

/-! ## Runs -/

section
variable {σ τ α : Type} {step : σ → α → Option σ} {alone : τ → α → Option τ} {G : σ → α → Prop}
  {as : List α}

/-- The owner sees the run of the own steps alone. -/
theorem run_alone (view : σ → τ) (own : α → Bool)
    (hown : ∀ s a t, G s a → own a = true → step s a = some t → alone (view s) a = some (view t))
    (hother : ∀ s a t, own a = false → step s a = some t → view t = view s)
    (hguard : Along step G s as) (hrun : run step s as = some u) :
    run alone (view s) (as.filter own) = some (view u) := by
  induction as generalizing s with
  | nil =>
    cases hrun
    rfl
  | cons a as ih =>
    obtain ⟨t, hstep, hrest⟩ := run_cons_eq_some.mp hrun
    have hmore := ih (hguard.2 t hstep) hrest
    cases ha : own a with
    | true =>
      rw [List.filter_cons_of_pos ha]
      exact run_cons_eq_some.mpr ⟨view t, hown s a t hguard.1 ha hstep, hmore⟩
    | false =>
      rw [List.filter_cons_of_neg (by simp [ha]), ← hother s a t ha hstep]
      exact hmore

end

end ComplyLayer.Theory
