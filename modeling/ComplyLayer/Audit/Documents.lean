import ComplyLayer.Audit.Chain
import ComplyLayer.Theory.Decimal
import ComplyLayer.Theory.Json
import ComplyLayer.Theory.SortByKey
import Mathlib.Data.String.Basic

/-!
# The text of a document

`json.dumps(document, sort_keys=True, separators=(",", ":"), default=str)`. Documents of values
that JSON has are equal, but for the order of their keys, when their texts are.
-/

namespace ComplyLayer

open Theory

namespace Value

/-- The values right below a value. -/
def children : Value → List Value
  | list xs | tuple xs => xs
  | dict entries => entries.map Prod.snd
  | _ => []

/-- Induction on a value: what holds of one whenever it holds of the values right below it holds of
every value. -/
theorem induction {motive : Value → Prop}
    (h : ∀ v : Value, (∀ c ∈ v.children, motive c) → motive v) (v : Value) : motive v := by
  have hleaf {v : Value} (hv : v.children = []) : motive v := h v (by simp [hv])
  refine @Value.rec motive (fun xs => ∀ c ∈ xs, motive c)
    (fun entries => ∀ c ∈ entries.map Prod.snd, motive c) (fun entry => motive entry.2)
    (hleaf rfl) (fun _ => hleaf rfl) (fun _ => hleaf rfl) (fun _ => hleaf rfl) (hleaf rfl)
    (fun _ _ => hleaf rfl) (fun _ => hleaf rfl) (fun _ => hleaf rfl) (hleaf rfl)
    (fun _ ih => h _ ih) (fun _ ih => h _ ih) (fun _ ih => h _ ih) (fun _ => hleaf rfl)
    ?_ ?_ ?_ ?_ (fun _ _ ih => ih) v
  · exact fun _ hc => absurd hc List.not_mem_nil
  · exact fun _ _ h hs => List.forall_mem_cons.mpr ⟨h, hs⟩
  · exact fun _ hc => absurd hc List.not_mem_nil
  · exact fun _ _ h hs => List.forall_mem_cons.mpr ⟨h, hs⟩

mutual
/-- The value is one that JSON has. -/
def isNative : Value → Bool
  | none | bool _ | int _ | float _ | negativeZero | str _ => true
  | list xs => isNativeAll xs
  | dict entries => isNativeEntries entries
  | _ => false

def isNativeAll : List Value → Bool
  | [] => true
  | x :: xs => x.isNative && isNativeAll xs

def isNativeEntries : List (String × Value) → Bool
  | [] => true
  | (_, v) :: entries => v.isNative && isNativeEntries entries
end

mutual
/-- The value with the keys of every dictionary in order. -/
def sortKeys : Value → Value
  | list xs => list (sortKeysAll xs)
  | tuple xs => tuple (sortKeysAll xs)
  | dict entries => dict (sortBy Prod.fst (sortKeysEntries entries))
  | v => v

def sortKeysAll : List Value → List Value
  | [] => []
  | x :: xs => x.sortKeys :: sortKeysAll xs

def sortKeysEntries : List (String × Value) → List (String × Value)
  | [] => []
  | (k, v) :: entries => (k, v.sortKeys) :: sortKeysEntries entries
end

end Value

/-- `int.__repr__`. -/
def intNumber (n : Int) : JsonNumber where
  text := (toString n).toList
  ne_nil := by
    intro h
    have hdecimal := decimal?_toString n
    rw [String.toList_eq_nil_iff.mp h] at hdecimal
    cases hdecimal
  isNumber c hc := by
    rcases mem_toString n hc with h | rfl
    · simp [isNumberChar, h]
    · rfl

/-- What the encoder leaves to the values themselves. -/
structure JsonEncoder where
  /-- `float.__repr__`. -/
  float : ℚ → JsonNumber
  /-- `repr(-0.0)`. -/
  negativeZero : JsonNumber
  /-- `str`, of a value that JSON does not have. -/
  str : Value → String

namespace JsonEncoder

variable (encoder : JsonEncoder)

mutual
/-- The document a value is written as. -/
def json : Value → Json
  | .none => .null
  | .bool b => .bool b
  | .int n => .number (intNumber n)
  | .float q => .number (encoder.float q)
  | .negativeZero => .number encoder.negativeZero
  | .str s => .string s
  | .list xs | .tuple xs => .array (jsonAll xs)
  | .dict entries => .object (sortBy Prod.fst (jsonEntries entries))
  | v => .string (encoder.str v)

def jsonAll : List Value → List Json
  | [] => []
  | x :: xs => json x :: jsonAll xs

def jsonEntries : List (String × Value) → List (String × Json)
  | [] => []
  | (k, v) :: entries => (k, json v) :: jsonEntries entries
end

def dumps (document : List (String × Value)) : String :=
  String.ofList (encoder.json (.dict document)).print

theorem jsonAll_eq (xs : List Value) : encoder.jsonAll xs = xs.map encoder.json := by
  induction xs with
  | nil => rfl
  | cons x xs ih => rw [jsonAll, ih, List.map_cons]

theorem jsonEntries_eq (entries : List (String × Value)) :
    encoder.jsonEntries entries = entries.map fun entry => (entry.1, encoder.json entry.2) := by
  induction entries with
  | nil => rfl
  | cons entry entries ih => rw [jsonEntries, ih, List.map_cons]

theorem json_dict (entries : List (String × Value)) : encoder.json (.dict entries) =
    .object ((sortBy Prod.fst entries).map fun entry => (entry.1, encoder.json entry.2)) := by
  rw [json, jsonEntries_eq]
  exact congrArg Json.object (map_sortBy (fun entry : String × Value =>
    (entry.1, encoder.json entry.2)) Prod.fst Prod.fst (fun _ => rfl) entries).symm

end JsonEncoder

namespace Value

theorem sortKeysAll_eq (xs : List Value) : sortKeysAll xs = xs.map sortKeys := by
  induction xs with
  | nil => rfl
  | cons x xs ih => rw [sortKeysAll, ih, List.map_cons]

theorem sortKeysEntries_eq (entries : List (String × Value)) :
    sortKeysEntries entries = entries.map fun entry => (entry.1, entry.2.sortKeys) := by
  induction entries with
  | nil => rfl
  | cons entry entries ih => rw [sortKeysEntries, ih, List.map_cons]

theorem sortKeys_dict (entries : List (String × Value)) : (dict entries).sortKeys =
    dict ((sortBy Prod.fst entries).map fun entry => (entry.1, entry.2.sortKeys)) := by
  rw [sortKeys, sortKeysEntries_eq]
  exact congrArg dict (map_sortBy (fun entry : String × Value => (entry.1, entry.2.sortKeys))
    Prod.fst Prod.fst (fun _ => rfl) entries).symm

theorem isNativeAll_iff {xs : List Value} :
    isNativeAll xs = true ↔ ∀ x ∈ xs, x.isNative = true := by
  induction xs with
  | nil => simp [isNativeAll]
  | cons x xs ih => rw [isNativeAll, Bool.and_eq_true, ih, List.forall_mem_cons]

theorem isNativeEntries_iff {entries : List (String × Value)} :
    isNativeEntries entries = true ↔ ∀ entry ∈ entries, entry.2.isNative = true := by
  induction entries with
  | nil => simp [isNativeEntries]
  | cons entry entries ih => rw [isNativeEntries, Bool.and_eq_true, ih, List.forall_mem_cons]

end Value

/-- Dictionaries that are equal but for the order of keys have equal values under each key. -/
theorem exists_mem_of_sortKeys_eq {d e : List (String × Value)}
    (h : (Value.dict d).sortKeys = (Value.dict e).sortKeys) (hmem : (k, v) ∈ d) :
    ∃ w, (k, w) ∈ e ∧ v.sortKeys = w.sortKeys := by
  rw [Value.sortKeys_dict, Value.sortKeys_dict] at h
  have hsorted : (k, v.sortKeys) ∈
      (sortBy Prod.fst d).map fun entry => (entry.1, entry.2.sortKeys) :=
    List.mem_map.mpr ⟨(k, v), mem_sortBy.mpr hmem, rfl⟩
  rw [Value.dict.inj h] at hsorted
  obtain ⟨⟨k', w⟩, hw, heq⟩ := List.mem_map.mp hsorted
  obtain ⟨rfl, hvalue⟩ := Prod.ext_iff.mp heq
  exact ⟨w, mem_sortBy.mp hw, hvalue.symm⟩

/-- Equal images are equal elements, one by one. -/
theorem map_eq_map_of_forall {α β γ : Type} {f : α → β} {g : α → γ} {l m : List α}
    (h : l.map f = m.map f) (hfg : ∀ a ∈ l, ∀ b ∈ m, f a = f b → g a = g b) :
    l.map g = m.map g := by
  induction l generalizing m with
  | nil =>
    rw [List.map_nil] at h
    rw [List.map_eq_nil_iff.mp h.symm]
  | cons a l ih =>
    cases m with
    | nil => cases h
    | cons b m =>
      obtain ⟨hab, hlm⟩ := List.cons.inj h
      rw [List.map_cons, List.map_cons, hfg a List.mem_cons_self b List.mem_cons_self hab,
        ih hlm fun a ha b hb => hfg a (List.mem_cons_of_mem _ ha) b (List.mem_cons_of_mem _ hb)]

/-- What the encoder relies on: different floats are written differently, the two zeros too, and not
as integers. -/
structure JsonEncoder.Faithful (encoder : JsonEncoder) : Prop where
  float_injective : Function.Injective encoder.float
  float_ne_int : encoder.float q ≠ intNumber n
  negativeZero_ne_float : encoder.negativeZero ≠ encoder.float q
  negativeZero_ne_int : encoder.negativeZero ≠ intNumber n

theorem intNumber_injective : Function.Injective intNumber := by
  intro n m h
  have htext : toString n = toString m := String.toList_injective (congrArg JsonNumber.text h)
  have hdecimal := decimal?_toString n
  rw [htext, decimal?_toString] at hdecimal
  exact (Option.some.inj hdecimal).symm

/-- Values that JSON has, written as the same document, are equal but for the order of keys. -/
theorem sortKeys_eq_of_json {encoder : JsonEncoder} (henc : encoder.Faithful) {v w : Value}
    (hv : v.isNative = true) (hw : w.isNative = true) (h : encoder.json v = encoder.json w) :
    v.sortKeys = w.sortKeys := by
  induction v using Value.induction generalizing w with
  | h v ih =>
    cases v with
    | list xs =>
      cases w with
      | list ys =>
        have hitems := Json.array.inj h
        rw [JsonEncoder.jsonAll_eq, JsonEncoder.jsonAll_eq] at hitems
        rw [Value.isNative, Value.isNativeAll_iff] at hv hw
        rw [Value.sortKeys, Value.sortKeys, Value.sortKeysAll_eq, Value.sortKeysAll_eq]
        refine congrArg Value.list (map_eq_map_of_forall hitems fun x hx y hy heq => ?_)
        exact ih x hx (hv x hx) (hw y hy) heq
      | tuple _ => cases hw
      | _ => cases h
    | dict entries =>
      cases w with
      | dict entries' =>
        rw [JsonEncoder.json_dict, JsonEncoder.json_dict] at h
        rw [Value.isNative, Value.isNativeEntries_iff] at hv hw
        rw [Value.sortKeys_dict, Value.sortKeys_dict]
        refine congrArg Value.dict
          (map_eq_map_of_forall (Json.object.inj h) fun e he e' he' heq => ?_)
        rw [mem_sortBy] at he he'
        obtain ⟨hkey, hjson⟩ := Prod.ext_iff.mp heq
        exact Prod.ext hkey (ih e.2 (List.mem_map_of_mem he) (hv e he) (hw e' he') hjson)
      | _ => cases h
    | int n =>
      cases w with
      | int m => rw [intNumber_injective (Json.number.inj h)]
      | float q => exact absurd (Json.number.inj h).symm henc.float_ne_int
      | negativeZero => exact absurd (Json.number.inj h).symm henc.negativeZero_ne_int
      | _ => cases h
    | float q =>
      cases w with
      | float q' => rw [henc.float_injective (Json.number.inj h)]
      | negativeZero => exact absurd (Json.number.inj h).symm henc.negativeZero_ne_float
      | int n => exact absurd (Json.number.inj h) henc.float_ne_int
      | _ => cases h
    | negativeZero =>
      cases w with
      | negativeZero => rfl
      | float q => exact absurd (Json.number.inj h) henc.negativeZero_ne_float
      | int n => exact absurd (Json.number.inj h) henc.negativeZero_ne_int
      | _ => cases h
    | none =>
      cases w with
      | none => rfl
      | _ => cases h
    | bool b =>
      cases w with
      | bool b' => rw [Json.bool.inj h]
      | _ => cases h
    | str s =>
      cases w with
      | str s' => rw [Json.string.inj h]
      | bytes _ | complex _ _ | ellipsis | datetime _ => cases hw
      | _ => cases h
    | _ => cases hv

/-- The order of keys does not show in what a value is written as. -/
theorem JsonEncoder.json_sortKeys (encoder : JsonEncoder) (v : Value) :
    encoder.json v.sortKeys = encoder.json v := by
  induction v using Value.induction with
  | h v ih =>
    have hall {xs : List Value} (hxs : ∀ x ∈ xs, encoder.json x.sortKeys = encoder.json x) :
        (xs.map Value.sortKeys).map encoder.json = xs.map encoder.json := by
      rw [List.map_map]
      exact List.map_congr_left hxs
    cases v with
    | list xs =>
      rw [Value.sortKeys, json, json, jsonAll_eq, jsonAll_eq, Value.sortKeysAll_eq]
      exact congrArg Json.array (hall ih)
    | tuple xs =>
      rw [Value.sortKeys, json, json, jsonAll_eq, jsonAll_eq, Value.sortKeysAll_eq]
      exact congrArg Json.array (hall ih)
    | dict entries =>
      have hsorted : ((sortBy Prod.fst entries).map fun entry => (entry.1, entry.2.sortKeys))
          |>.Pairwise fun a b => a.1 ≤ b.1 :=
        List.pairwise_map.mpr (pairwise_sortBy Prod.fst entries)
      rw [Value.sortKeys_dict, json_dict, json_dict, sortBy_eq_self hsorted, List.map_map]
      refine congrArg Json.object (List.map_congr_left fun entry hentry => ?_)
      exact Prod.ext rfl (ih entry.2 (List.mem_map_of_mem (mem_sortBy.mp hentry)))
    | _ => rfl

/-- Values that JSON has are written as the same document exactly when they are equal but for the
order of keys. -/
theorem JsonEncoder.Faithful.json_eq_iff {encoder : JsonEncoder} (henc : encoder.Faithful)
    {v w : Value} (hv : v.isNative = true) (hw : w.isNative = true) :
    encoder.json v = encoder.json w ↔ v.sortKeys = w.sortKeys := by
  refine ⟨sortKeys_eq_of_json henc hv hw, fun h => ?_⟩
  rw [← encoder.json_sortKeys v, h, encoder.json_sortKeys]

/-- Documents of values that JSON has are equal, but for the order of keys, when their texts
are. -/
theorem sortKeys_eq_of_dumps {encoder : JsonEncoder} (henc : encoder.Faithful)
    {d e : List (String × Value)} (hd : (Value.dict d).isNative = true)
    (he : (Value.dict e).isNative = true) (h : encoder.dumps d = encoder.dumps e) :
    (Value.dict d).sortKeys = (Value.dict e).sortKeys :=
  sortKeys_eq_of_json henc hd he (Json.print_injective (String.ofList_injective h))

/-- Documents of values that JSON has with the same text have the same under each key, but for the
order of keys. -/
theorem sortKeys_eq_of_key {encoder : JsonEncoder} (henc : encoder.Faithful)
    {d e : List (String × Value)} (hd : (Value.dict d).isNative = true)
    (he : (Value.dict e).isNative = true) (h : encoder.dumps d = encoder.dumps e)
    (hv : (key, v) ∈ d) (hw : ∀ u, (key, u) ∈ e → u = w) : v.sortKeys = w.sortKeys := by
  obtain ⟨u, hu, heq⟩ := exists_mem_of_sortKeys_eq (sortKeys_eq_of_dumps henc hd he h) hv
  rw [heq, hw u hu]

end ComplyLayer
