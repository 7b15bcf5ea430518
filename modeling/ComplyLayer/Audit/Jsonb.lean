import ComplyLayer.Audit.Documents
import Mathlib.Data.Prod.Lex

/-!
# Documents in a `jsonb` column

A `jsonb` column gives a document back as an equal one. It orders the keys its own way, and a
number comes back as the exact decimal it is, written out: a float whose decimal has no point comes
back as an integer, and a negative zero as zero.
-/

namespace ComplyLayer

open Theory

namespace Value

mutual
/-- The value and every value in it. -/
def parts : Value → List Value
  | list xs => list xs :: partsAll xs
  | tuple xs => tuple xs :: partsAll xs
  | dict entries => dict entries :: partsEntries entries
  | v => [v]

def partsAll : List Value → List Value
  | [] => []
  | x :: xs => x.parts ++ partsAll xs

def partsEntries : List (String × Value) → List Value
  | [] => []
  | (_, v) :: entries => v.parts ++ partsEntries entries
end

theorem partsAll_eq (xs : List Value) : partsAll xs = xs.flatMap parts := by
  induction xs with
  | nil => rfl
  | cons x xs ih => rw [partsAll, ih, List.flatMap_cons]

theorem partsEntries_eq (entries : List (String × Value)) :
    partsEntries entries = (entries.map Prod.snd).flatMap parts := by
  induction entries with
  | nil => rfl
  | cons entry entries ih => rw [partsEntries, ih, List.map_cons, List.flatMap_cons]

theorem parts_eq (v : Value) : v.parts = v :: v.children.flatMap parts := by
  cases v with
  | list xs => rw [parts, partsAll_eq, children]
  | tuple xs => rw [parts, partsAll_eq, children]
  | dict entries => rw [parts, partsEntries_eq, children]
  | _ => rfl

theorem forall_parts_iff {p : Value → Prop} {v : Value} :
    (∀ u ∈ v.parts, p u) ↔ p v ∧ ∀ c ∈ v.children, ∀ u ∈ c.parts, p u := by
  rw [parts_eq, List.forall_mem_cons]
  simp only [List.mem_flatMap, forall_exists_index, and_imp]
  exact and_congr_right fun _ => ⟨fun h c hc u hu => h u c hc hu, fun h u c hc hu => h c hc u hu⟩

/-- A dictionary has no key twice. -/
def keysDistinct : Value → Prop
  | dict entries => (entries.map Prod.fst).Nodup
  | _ => True

instance : DecidablePred keysDistinct
  | dict entries => inferInstanceAs (Decidable (entries.map Prod.fst).Nodup)
  | .none | bool _ | int _ | float _ | negativeZero | complex _ _ | str _ | bytes _ | ellipsis
  | list _ | tuple _ | datetime _ => .isTrue trivial

/-- The value is one that JSON has, and no dictionary in it has a key twice. -/
structure IsJson (v : Value) : Prop where
  native : v.isNative = true
  distinct : ∀ u ∈ v.parts, u.keysDistinct

theorem IsJson.child {v c : Value} (h : v.IsJson) (hc : c ∈ v.children) : c.IsJson := by
  refine ⟨?_, (forall_parts_iff.mp h.distinct).2 c hc⟩
  have hnative := h.native
  cases v with
  | list xs =>
    rw [isNative, isNativeAll_iff] at hnative
    exact hnative c hc
  | dict entries =>
    rw [isNative, isNativeEntries_iff] at hnative
    obtain ⟨entry, hentry, rfl⟩ := List.mem_map.mp hc
    exact hnative entry hentry
  | tuple _ => cases hnative
  | _ => cases hc

end Value

/-- How a `jsonb` column spells what it holds. -/
structure JsonbColumn where
  /-- The integer a float's decimal is, where it has no point once it is written out. -/
  integer : ℚ → Option Int
  /-- The order the keys of an object come back in. -/
  order : List (String × Value) → List (String × Value)
  perm_order : (order entries).Perm entries

namespace JsonbColumn

variable (column : JsonbColumn)

def readFloat (q : ℚ) : Value := (column.integer q).elim (.float q) .int

mutual
/-- A value as it is read back. -/
def readBack : Value → Value
  | .float q => column.readFloat q
  | .negativeZero => column.readFloat 0
  | .list xs => .list (readBackAll xs)
  | .dict entries => .dict (column.order (readBackEntries entries))
  | v => v

def readBackAll : List Value → List Value
  | [] => []
  | x :: xs => readBack x :: readBackAll xs

def readBackEntries : List (String × Value) → List (String × Value)
  | [] => []
  | (k, v) :: entries => (k, readBack v) :: readBackEntries entries
end

theorem readBackAll_eq (xs : List Value) : column.readBackAll xs = xs.map column.readBack := by
  induction xs with
  | nil => rfl
  | cons x xs ih => rw [readBackAll, ih, List.map_cons]

theorem readBackEntries_eq (entries : List (String × Value)) : column.readBackEntries entries =
    entries.map fun entry => (entry.1, column.readBack entry.2) := by
  induction entries with
  | nil => rfl
  | cons entry entries ih => rw [readBackEntries, ih, List.map_cons]

/-- The keys of an object are those it was written with. -/
theorem nodup_readBackEntries {entries : List (String × Value)}
    (h : (entries.map Prod.fst).Nodup) :
    ((column.order (column.readBackEntries entries)).map Prod.fst).Nodup := by
  refine (column.perm_order.map Prod.fst).nodup_iff.mpr ?_
  rw [readBackEntries_eq, List.map_map]
  exact h

/-- A document as it is read back. -/
def document (d : Dict String Value) : Dict String Value where
  entries := column.order (column.readBackEntries d.entries)
  nodup := column.nodup_readBackEntries d.nodup

theorem dict_document (d : Dict String Value) :
    .dict (column.document d).entries = column.readBack (.dict d.entries) := by
  rw [readBack]
  rfl

/-- The value is no float that comes back as an integer, and no negative zero. -/
def Keeps : Value → Prop
  | .float q => column.integer q = none
  | .negativeZero => False
  | _ => True

instance : DecidablePred column.Keeps
  | .float q => inferInstanceAs (Decidable (column.integer q = none))
  | .negativeZero => .isFalse fun h => h
  | .none | .bool _ | .int _ | .complex _ _ | .str _ | .bytes _ | .ellipsis | .list _ | .tuple _
  | .dict _ | .datetime _ => .isTrue trivial

/-- The value comes back as it was, but for the order of keys. -/
def Returns (v : Value) : Prop := (column.readBack v).sortKeys = v.sortKeys

end JsonbColumn

/-- Sorted by keys, entries come in one order however they are given. -/
theorem sortBy_fst_eq_of_perm {β : Type} {l m : List (String × β)} (hl : (l.map Prod.fst).Nodup)
    (hp : l.Perm m) : sortBy Prod.fst l = sortBy Prod.fst m :=
  sortBy_eq_of_perm (fun _ ha _ hb hab => List.inj_on_of_nodup_map hl ha hb hab) hp

namespace JsonbColumn

variable {column : JsonbColumn}

theorem isNative_readBack {v : Value} (hv : v.isNative = true) :
    (column.readBack v).isNative = true := by
  induction v using Value.induction with
  | h v ih =>
    have hfloat (q : ℚ) : (column.readFloat q).isNative = true := by
      rw [readFloat]
      cases column.integer q <;> rfl
    cases v with
    | float q => exact hfloat q
    | negativeZero => exact hfloat 0
    | list xs =>
      rw [Value.isNative, Value.isNativeAll_iff] at hv
      rw [readBack, readBackAll_eq, Value.isNative, Value.isNativeAll_iff, List.forall_mem_map]
      exact fun x hx => ih x hx (hv x hx)
    | dict entries =>
      rw [Value.isNative, Value.isNativeEntries_iff] at hv
      rw [readBack, readBackEntries_eq, Value.isNative, Value.isNativeEntries_iff]
      intro entry hentry
      obtain ⟨entry, hmem, rfl⟩ := List.mem_map.mp (column.perm_order.mem_iff.mp hentry)
      exact ih entry.2 (List.mem_map_of_mem hmem) (hv entry hmem)
    | _ => exact hv

/-- A document comes back as it was exactly when every float in it comes back as that float. -/
theorem returns_iff {v : Value} (hv : v.IsJson) :
    column.Returns v ↔ ∀ u ∈ v.parts, column.Keeps u := by
  induction v using Value.induction with
  | h v ih =>
    rw [Value.forall_parts_iff]
    have hchild (c : Value) (hc : c ∈ v.children) := ih c hc (hv.child hc)
    cases v with
    | float q =>
      have hleaf : ∀ c ∈ (Value.float q).children, ∀ u ∈ c.parts, column.Keeps u :=
        fun _ hc => absurd hc List.not_mem_nil
      rw [and_iff_left hleaf, Returns, readBack, readFloat, Keeps]
      cases column.integer q with
      | none => exact iff_of_true rfl rfl
      | some n => exact iff_of_false (fun h => by cases h) fun h => by cases h
    | negativeZero =>
      refine iff_of_false (fun h => ?_) fun h => h.1
      rw [Returns, readBack, readFloat] at h
      cases hzero : column.integer 0 <;> rw [hzero] at h <;> cases h
    | list xs =>
      rw [Returns, readBack, readBackAll_eq, Value.sortKeys, Value.sortKeys, Value.sortKeysAll_eq,
        Value.sortKeysAll_eq, List.map_map, Value.list.injEq, List.map_inj_left]
      exact ⟨fun h => ⟨trivial, fun c hc => (hchild c hc).mp (h c hc)⟩,
        fun h c hc => (hchild c hc).mpr (h.2 c hc)⟩
    | dict entries =>
      have hnodup : (entries.map Prod.fst).Nodup := (Value.forall_parts_iff.mp hv.distinct).1
      rw [Returns, readBack, Value.sortKeys_dict, Value.sortKeys_dict,
        sortBy_fst_eq_of_perm (column.nodup_readBackEntries hnodup) column.perm_order,
        readBackEntries_eq,
        ← map_sortBy (fun entry : String × Value => (entry.1, column.readBack entry.2)) Prod.fst
          Prod.fst (fun _ => rfl), List.map_map, Value.dict.injEq, List.map_inj_left]
      constructor
      · refine fun h => ⟨trivial, fun c hc => (hchild c hc).mp ?_⟩
        obtain ⟨entry, hentry, rfl⟩ := List.mem_map.mp hc
        exact (Prod.ext_iff.mp (h entry (mem_sortBy.mpr hentry))).2
      · refine fun h entry hentry => Prod.ext rfl ?_
        have hc : entry.2 ∈ (Value.dict entries).children :=
          List.mem_map_of_mem (mem_sortBy.mp hentry)
        exact (hchild _ hc).mpr (h.2 _ hc)
    | tuple _ => cases hv.native
    | _ => exact iff_of_true rfl ⟨trivial, fun _ hc => absurd hc List.not_mem_nil⟩

/-- A value is written as it was, once read back, exactly when every float in it comes back as that
float. -/
theorem json_readBack_iff {encoder : JsonEncoder} (henc : encoder.Faithful) {v : Value}
    (hv : v.IsJson) :
    encoder.json (column.readBack v) = encoder.json v ↔ ∀ u ∈ v.parts, column.Keeps u :=
  (henc.json_eq_iff (isNative_readBack hv.native) hv.native).trans (returns_iff hv)

end JsonbColumn

/-- Postgres orders keys by their length first, and a float is written with an exponent, and so
comes back without a point, from `1e16` on. The decimal is taken to be the float itself, as that of
`1e16` is. -/
def postgresJsonb : JsonbColumn where
  integer q := if q.den = 1 ∧ 10 ^ 16 ≤ q.num.natAbs then some q.num else none
  order := sortBy fun entry => toLex (entry.1.length, entry.1)
  perm_order := perm_sortBy _ _

end ComplyLayer
