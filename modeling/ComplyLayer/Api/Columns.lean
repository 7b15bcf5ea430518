import ComplyLayer.Api.Validation
import ComplyLayer.Audit.Jsonb
import Mathlib.Algebra.Group.Int.Defs

/-!
# The columns of the decision path

The column types of `CREATE_DECISION` in `migrations/0001_initial.py`, by what each takes. No text
of Postgres has a NUL, nor has a string or a key of a `jsonb` document. A value of another type than
its column's is not stored as it is, if it is stored at all, so no column takes one here.
-/

namespace ComplyLayer

open Theory

namespace Column

def nul : Char := Char.ofNat 0

def text (s : String) : Prop := nul ∉ s.toList

instance : Decidable (text s) := inferInstanceAs (Decidable (nul ∉ s.toList))

def varchar (n : Nat) (s : String) : Prop := s.length ≤ n ∧ text s

instance (n : Nat) (s : String) : Decidable (varchar n s) := inferInstanceAs (Decidable (_ ∧ _))

def bigint (n : Int) : Prop := -2 ^ 63 ≤ n ∧ n < 2 ^ 63

instance (n : Int) : Decidable (bigint n) := inferInstanceAs (Decidable (_ ∧ _))

/-- `integer` with a check that it is not negative. -/
def positiveInteger (n : Int) : Prop := 0 ≤ n ∧ n < 2 ^ 31

instance (n : Int) : Decidable (positiveInteger n) := inferInstanceAs (Decidable (_ ∧ _))

/-- The string, or the keys of the object, have no NUL. -/
def NoNul : Value → Prop
  | .str s => text s
  | .dict entries => ∀ entry ∈ entries, text entry.1
  | _ => True

instance : DecidablePred NoNul
  | .str s => inferInstanceAs (Decidable (text s))
  | .dict entries => inferInstanceAs (Decidable (∀ entry ∈ entries, text entry.1))
  | .none | .bool _ | .int _ | .float _ | .negativeZero | .complex _ _ | .bytes _ | .ellipsis
  | .list _ | .tuple _ | .datetime _ => .isTrue trivial

def jsonb (v : Value) : Prop := v.isNative = true ∧ ∀ u ∈ v.parts, NoNul u

instance : DecidablePred jsonb := fun _ => inferInstanceAs (Decidable (_ ∧ _))

/-! ## Documents without a NUL -/

theorem jsonb_dict_iff {entries : List (String × Value)} : jsonb (.dict entries) ↔
    ∀ entry ∈ entries, text entry.1 ∧ jsonb entry.2 := by
  rw [jsonb, Value.isNative, Value.isNativeEntries_iff, Value.forall_parts_iff]
  constructor
  · rintro ⟨hnative, hkeys, hparts⟩ entry hentry
    exact ⟨hkeys entry hentry, hnative entry hentry, hparts _ (List.mem_map_of_mem hentry)⟩
  · intro h
    refine ⟨fun entry hentry => (h entry hentry).2.1, fun entry hentry => (h entry hentry).1, ?_⟩
    intro c hc
    obtain ⟨entry, hentry, rfl⟩ := List.mem_map.mp hc
    exact (h entry hentry).2.2

@[simp] theorem jsonb_str {s : String} : jsonb (.str s) ↔ text s := by
  rw [jsonb, Value.forall_parts_iff]
  exact ⟨fun h => h.2.1, fun h => ⟨rfl, h, fun _ hc => absurd hc List.not_mem_nil⟩⟩

@[simp] theorem jsonb_int (n : Int) : jsonb (.int n) := by
  rw [jsonb, Value.forall_parts_iff]
  exact ⟨rfl, trivial, fun _ hc => absurd hc List.not_mem_nil⟩

/-! ## The values of a type -/

instance (v : Value) (p : String → Prop) [DecidablePred p] : Decidable (∃ s, v = .str s ∧ p s) :=
  match v with
  | .str s => decidable_of_iff (p s) (by simp)
  | .none | .bool _ | .int _ | .float _ | .negativeZero | .complex _ _ | .bytes _ | .ellipsis
  | .list _ | .tuple _ | .dict _ | .datetime _ => .isFalse nofun

instance (v : Value) (p : Int → Prop) [DecidablePred p] : Decidable (∃ n, v = .int n ∧ p n) :=
  match v with
  | .int n => decidable_of_iff (p n) (by simp)
  | .none | .bool _ | .str _ | .float _ | .negativeZero | .complex _ _ | .bytes _ | .ellipsis
  | .list _ | .tuple _ | .dict _ | .datetime _ => .isFalse nofun

instance (v : Value) : Decidable (∃ b, v = .bool b) :=
  match v with
  | .bool b => .isTrue ⟨b, rfl⟩
  | .none | .int _ | .str _ | .float _ | .negativeZero | .complex _ _ | .bytes _ | .ellipsis
  | .list _ | .tuple _ | .dict _ | .datetime _ => .isFalse nofun

end Column

open Column

/-- The table takes what the transaction puts into it. -/
structure Transaction.Fits (t : Transaction) : Prop where
  amountMinor : bigint t.amountMinor
  currency : t.currency.length = 3
  transactionRef : t.transactionRef.length ≤ 128
  /-- Its texts, and the strings and keys of its objects. -/
  context : jsonb (.dict t.asContext.entries)

end ComplyLayer
