import ComplyLayer.Dashboard.Builder

/-!
# When the preview answers

The view hands to `int` whatever `isdigit` takes for digits after hyphens. It answers exactly when
`int` takes it too (`preview_answers_iff`): a superscript, a second hyphen or too many digits raise
`ValueError`, which the view does not catch.
-/

namespace ComplyLayer

open Theory

namespace DigitTables

variable {tables : DigitTables}

/-- A text of digits after hyphens has one hyphen at most, only decimal digits, and no more of them
than `int` converts. -/
def Converts (tables : DigitTables) (text : String) : Prop :=
  tables.looksNumeric text = true →
    ¬ ['-', '-'] <+: text.toList ∧
      (∀ c ∈ lstripHyphens text, (tables.decimal c).isSome = true) ∧
      (lstripHyphens text).length ≤ maxStrDigits

theorem decimal_hyphen (tables : DigitTables) : tables.decimal '-' = none := by
  cases h : tables.decimal '-' with
  | none => rfl
  | some n => exact absurd (tables.isdigit_of_decimal h) (by rw [tables.hyphen]; decide)

theorem isSome_mapM_decimal (ds : List Char) :
    (ds.mapM tables.decimal).isSome = true ↔ ∀ c ∈ ds, (tables.decimal c).isSome = true := by
  induction ds with
  | nil => exact iff_of_true rfl fun _ h => absurd h List.not_mem_nil
  | cons c ds ih =>
    rw [List.forall_mem_cons, ← ih, List.mapM_cons]
    cases tables.decimal c with
    | none => exact iff_of_false Bool.false_ne_true fun h => Bool.false_ne_true h.1
    | some n =>
      refine Iff.trans ?_ (and_iff_right rfl).symm
      cases ds.mapM tables.decimal with
      | none => exact Iff.rfl
      | some values => exact Iff.rfl

theorem isSome_natOfDecimals (ds : List Char) : (tables.natOfDecimals ds).isSome = true ↔
    (∀ c ∈ ds, (tables.decimal c).isSome = true) ∧ ds.length ≤ maxStrDigits := by
  rw [natOfDecimals]
  split
  · rename_i hlength
    rw [Option.isSome_map, isSome_mapM_decimal, and_iff_left hlength]
  · rename_i hlength
    exact iff_of_false Bool.false_ne_true fun h => hlength h.2

/-- `int` takes what looks numeric exactly when it converts. -/
theorem isSome_int?_iff {text : String} (h : tables.looksNumeric text = true) :
    (tables.int? text).isSome = true ↔ tables.Converts text := by
  rw [Converts, looksNumeric, lstripHyphens] at *
  refine Iff.trans ?_ (forall_prop_of_true h).symm
  rw [int?]
  split
  · rename_i ds htext
    rw [htext, Option.isSome_map, isSome_natOfDecimals]
    cases ds with
    | nil =>
      rw [htext] at h
      cases h
    | cons d ds =>
      by_cases hd : d = '-'
      · -- The second hyphen is no decimal digit.
        subst hd
        refine iff_of_false (fun hall => ?_) fun hall => hall.1 ⟨ds, rfl⟩
        have hsome := hall.1 '-' List.mem_cons_self
        rw [decimal_hyphen] at hsome
        cases hsome
      · have hdrop : ('-' :: d :: ds).dropWhile (fun c => c == '-') = d :: ds := by
          simp [hd]
        have hone : ¬ ['-', '-'] <+: '-' :: d :: ds := by
          rw [List.prefix_cons_iff]
          simp [Ne.symm hd]
        rw [hdrop, and_iff_right hone]
  · rename_i hhyphen
    rw [Option.isSome_map, isSome_natOfDecimals]
    have hdrop : text.toList.dropWhile (fun c => c == '-') = text.toList := by
      cases htext : text.toList with
      | nil => rfl
      | cons c cs =>
        have hc : c ≠ '-' := fun heq => hhyphen cs (heq ▸ htext)
        simp [hc]
    have hone : ¬ ['-', '-'] <+: text.toList := by
      rintro ⟨rest, hrest⟩
      exact hhyphen ('-' :: rest) hrest.symm
    rw [hdrop, and_iff_right hone]

end DigitTables

section
variable {py : Python} {tables : DigitTables} {post : String → Option String}

theorem exists_postedValue_iff (raw : String) :
    (∃ value, postedValue tables raw = .ok value) ↔ tables.Converts raw := by
  unfold postedValue
  split
  · rename_i hnumeric
    rw [← DigitTables.isSome_int?_iff hnumeric]
    cases tables.int? raw with
    | none => exact iff_of_false (fun ⟨_, h⟩ => by cases h) Bool.false_ne_true
    | some n => exact iff_of_true ⟨_, rfl⟩ rfl
  · rename_i htext
    exact iff_of_true ⟨_, rfl⟩ fun hnumeric => absurd hnumeric htext

/-- The loop comes to its end exactly when every control converts. -/
theorem exists_postedValues_iff (inputs : List Input) (values : Answered) :
    (∃ posted, postedValues tables post inputs values = .ok posted) ↔
      ∀ input ∈ inputs, tables.Converts (strip ((post input.key).getD "")) := by
  induction inputs generalizing values with
  | nil => exact iff_of_true ⟨_, rfl⟩ fun _ h => absurd h List.not_mem_nil
  | cons input inputs ih =>
    rw [List.forall_mem_cons, postedValues]
    split
    · rename_i hblank
      have hconverts : tables.Converts (strip ((post input.key).getD "")) := by
        rw [hblank]
        exact fun h => Bool.noConfusion h
      rw [ih, and_iff_right hconverts]
    · rw [← exists_postedValue_iff]
      constructor
      · rintro ⟨posted, h⟩
        obtain ⟨value, hvalue, hrest⟩ := bind_eq_ok.mp h
        exact ⟨⟨value, hvalue⟩, (ih _).mp ⟨posted, hrest⟩⟩
      · rintro ⟨⟨value, hvalue⟩, hrest⟩
        obtain ⟨posted, hposted⟩ := (ih (values.set input.key value)).mpr hrest
        exact ⟨posted, bind_eq_ok.mpr ⟨value, hvalue, hposted⟩⟩

end

/-- `ast.parse` has the room for what `to_expression` writes, which nests no deeper than twenty
levels and has no f-string. -/
def Python.HasRoom (py : Python) : Prop :=
  ∀ rule text, Structured.toExpression py rule = .ok text → py.astParse (strip text) ≠ .memoryError

/-- What is written is refused, or read, with no `MemoryError`. -/
theorem validateSource_ne_memoryError {py : Python} (hroom : py.HasRoom)
    (htext : Structured.toExpression py rule = .ok text) :
    validateSource py text ≠ .error .memoryError := by
  intro h
  rcases bind_eq_error.mp h with h | ⟨body, -, h⟩
  · rcases bind_eq_error.mp h with h | ⟨guarded, hguarded, h⟩
    · cases hguarded : guardSource py text <;> rw [hguarded] at h <;> cases h
    · cases guardSource_eq_ok (mapError_eq_ok.mp hguarded)
      split at h
      · split at h <;> cases h
      · cases h
      · rename_i hmemory
        exact hroom rule text htext hmemory
      · dsimp only at h
        split at h <;> cases h
  · cases hvalidate : validate py body <;> rw [hvalidate] at h <;> cases h

/-- Building a shape ends in a result, or in an answer that is missing. -/
theorem Shape.build_ne_memoryError {py : Python} (hroom : py.HasRoom) (shape : Shape)
    (values : Answered) : shape.build py values ≠ .error .memoryError := by
  intro h
  unfold Shape.build at h
  split at h
  · cases h
  · rename_i structured hconstruct
    dsimp only at h
    split at h
    · cases h
    · cases h
    · rename_i hwritten
      rcases bind_eq_error.mp hwritten with hwritten | ⟨text, htext, hwritten⟩
      · cases hrender : Structured.toExpression py structured <;> rw [hrender] at hwritten <;>
          cases hwritten
      · rcases bind_eq_error.mp hwritten with hwritten | ⟨tree, -, hwritten⟩
        · exact validateSource_ne_memoryError hroom (mapError_eq_ok.mp htext) hwritten
        · cases hwritten

/-- The preview of a shape returns a response, whose expression validates where it is called valid,
exactly when every control that reads as digits after hyphens converts. -/
theorem preview_answers_iff {py : Python} {tables : DigitTables} {post : String → Option String}
    {shape : Shape} (hroom : py.HasRoom)
    (hshape : (post "shape").bind shapesByKey = some shape) :
    (∃ response, preview py tables post = .ok response ∧
      ∀ expression, response = .valid expression →
        ∃ tree, validateSource py expression = .ok tree) ↔
      ∀ input ∈ shape.inputs, tables.Converts (strip ((post input.key).getD "")) := by
  rw [← exists_postedValues_iff shape.inputs ∅]
  unfold preview
  rw [hshape]
  constructor
  · rintro ⟨response, h, -⟩
    obtain ⟨values, hvalues, -⟩ := bind_eq_ok.mp h
    exact ⟨values, hvalues⟩
  · rintro ⟨values, hvalues⟩
    cases hbuild : shape.build py values with
    | error raised =>
      cases raised with
      | missing =>
        refine ⟨.incomplete "Some answers are still missing." "Fill in every field marked required.",
          bind_eq_ok.mpr ⟨values, hvalues, ?_⟩, fun expression h => by cases h⟩
        simp only [hbuild]
        rfl
      | memoryError => exact absurd hbuild (shape.build_ne_memoryError hroom values)
    | ok result =>
      cases herror : result.error with
      | some e =>
        refine ⟨.invalid e, bind_eq_ok.mpr ⟨values, hvalues, ?_⟩, fun expression h => by cases h⟩
        simp only [hbuild, herror]
        rfl
      | none =>
        refine ⟨.valid result.expression, bind_eq_ok.mpr ⟨values, hvalues, ?_⟩, ?_⟩
        · simp only [hbuild, herror]
          rfl
        · intro expression h
          cases h
          exact Shape.validateSource_of_build hbuild herror

/-! ## A superscript, and a second hyphen -/

/-- The ASCII digits, and a superscript that is a digit and no decimal one. -/
def asciiDigits : DigitTables where
  isdigit c := c.isDigit || c == '²'
  decimal c := if c.isDigit then some (c.toNat - 48) else none
  isdigit_of_decimal {c n} h := by
    split at h
    · rename_i hdigit
      rw [hdigit]
      rfl
    · cases h
  hyphen := rfl

/-- A form of the velocity shape with an hour and a count. -/
def velocityForm (count : String) (key : String) : Option String :=
  [("shape", "velocity_count"), ("window", "1h"), ("count", count)].lookup key

def refusingPython : Python := .reading "" (.constant .none)

theorem preview_answers_iff_five :
    ∃ response, preview refusingPython asciiDigits (velocityForm " 5 ") = .ok response ∧
      ∀ expression, response = .valid expression →
        ∃ tree, validateSource refusingPython expression = .ok tree := by
  have hshape : (velocityForm " 5 " "shape").bind shapesByKey = some .velocityCount := rfl
  have hfive : asciiDigits.Converts "5" :=
    fun _ => ⟨by decide, List.forall_mem_singleton.mpr rfl, by decide⟩
  have hwindow : asciiDigits.Converts "1h" := fun h => Bool.noConfusion h
  have hblank : asciiDigits.Converts "" := fun h => Bool.noConfusion h
  have hroom : refusingPython.HasRoom := by
    intro rule text _ hmemory
    unfold refusingPython Python.reading at hmemory
    dsimp only at hmemory
    split at hmemory <;> cases hmemory
  refine (preview_answers_iff hroom hshape).mpr ?_
  rw [Shape.velocityCount, List.forall_mem_cons, List.forall_mem_cons, List.forall_mem_singleton]
  exact ⟨hwindow, hfive, hblank⟩

/-- A count of `²`, and one of `--5`. -/
theorem preview_raises :
    preview refusingPython asciiDigits (velocityForm "²") = .error .valueError ∧
      preview refusingPython asciiDigits (velocityForm "--5") = .error .valueError :=
  ⟨rfl, rfl⟩

end ComplyLayer
