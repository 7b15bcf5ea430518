import ComplyLayer.Backtest.Export

/-!
# What a reader of an export gets

A reader of comma separated values gets the header and a row for each rule or record, in order. None
of its cells starts a formula, and each has its value, which only a quote may stand before.
-/

namespace ComplyLayer

open Theory

/-- What is read for a value: its text, or that after a quote where it would start a formula. -/
structure ReadAs (value : Option String) (cell : Csv.Cell) : Prop where
  defused : ¬StartsFormula (String.ofList cell)
  kept : String.ofList cell = value.getD "" ∨
    StartsFormula (value.getD "") ∧ String.ofList cell = "'" ++ value.getD ""

/-- The rows a reader of the text gets, below the header. -/
def Exports (text : String) (header : List String) (values : List (List (Option String))) : Prop :=
  ∃ rows, Csv.read text.toList = some (header.map String.toList :: rows) ∧
    List.Forall₂ (List.Forall₂ ReadAs) values rows

theorem not_startsFormula_quote (text : String) : ¬StartsFormula ("'" ++ text) := by
  have hhead : ("'" ++ text).toList.head? = some '\'' := by simp
  rw [StartsFormula, hhead]
  decide

theorem readAs_safe (value : Option String) : ReadAs value (safe value).toList := by
  by_cases hformula : StartsFormula (value.getD "")
  · have hsafe : safe value = "'" ++ value.getD "" := by
      unfold safe
      rw [if_pos hformula]
    refine ⟨?_, .inr ⟨hformula, ?_⟩⟩
    · rw [String.ofList_toList, hsafe]
      exact not_startsFormula_quote _
    · rw [String.ofList_toList, hsafe]
  · have hsafe : safe value = value.getD "" := by
      unfold safe
      rw [if_neg hformula]
    refine ⟨?_, .inl ?_⟩
    · rw [String.ofList_toList, hsafe]
      exact hformula
    · rw [String.ofList_toList, hsafe]

theorem readAs_safe_all (values : List (Option String)) :
    List.Forall₂ ReadAs values (values.map safe |>.map String.toList) := by
  induction values with
  | nil => exact .nil
  | cons value values ih => exact .cons (readAs_safe value) ih

theorem exports_csvText (header : List String) (values : List (List (Option String))) :
    Exports (csvText (header :: values.map (·.map safe))) header values := by
  refine ⟨values.map fun cells => (cells.map safe).map String.toList, ?_, ?_⟩
  · rw [csvText, String.toList_ofList, Csv.read_write, List.map_cons, List.map_map]
    rfl
  · rw [List.forall₂_map_right_iff]
    exact List.forall₂_same.mpr fun cells _ => readAs_safe_all cells

theorem exports_read_back (rt : ExportRuntime) (rules : List Rule) (records : List AuditRecord) :
    Exports (rulesCsv rt rules) rulesHeader (rules.map (ruleValues rt)) ∧
      Exports (historyCsv rt records) historyHeader (records.map (recordValues rt)) := by
  have hrules := exports_csvText rulesHeader (rules.map (ruleValues rt))
  have hrecords := exports_csvText historyHeader (records.map (recordValues rt))
  rw [List.map_map] at hrules hrecords
  exact ⟨hrules, hrecords⟩

/-- A name with a comma in it is read back whole, and one that is a formula is a text. -/
example : Csv.read (csvText [[safe "a, \"b\"", safe "=1+1"]]).toList =
    some [["a, \"b\"".toList, "'=1+1".toList]] := by
  decide

end ComplyLayer
