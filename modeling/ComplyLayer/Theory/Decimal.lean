import Mathlib.Data.Int.Notation

/-!
# Decimal numerals

Reading back the text of an integer.
-/

namespace ComplyLayer.Theory

/-- The number a list of digits spells, `none` for the empty list and for any other character. -/
def natOfDigits? (digits : List Char) : Option Nat :=
  if digits ≠ [] ∧ digits.all Char.isDigit then some (Nat.ofDigitChars 10 digits 0) else none

/-- The integer a text spells in decimal. -/
def decimal? (text : String) : Option Int :=
  match text.toList with
  | '-' :: digits => (natOfDigits? digits).map fun n => -(n : Int)
  | digits => (natOfDigits? digits).map fun n => (n : Int)

/-- The digits of a number hold no other character. -/
theorem isDigit_of_mem_repr {c : Char} (n : Nat) (h : c ∈ n.repr.toList) : c.isDigit := by
  rw [Nat.toList_repr] at h
  exact Nat.isDigit_of_mem_toDigits (by omega) (by omega) h

theorem natOfDigits?_repr (n : Nat) : natOfDigits? n.repr.toList = some n := by
  have hdigits : n.repr.toList.all Char.isDigit :=
    List.all_eq_true.mpr fun c hc => isDigit_of_mem_repr n hc
  have hne : n.repr.toList ≠ [] := by
    rw [Nat.toList_repr]
    exact Nat.toDigits_ne_nil
  rw [natOfDigits?, if_pos ⟨hne, hdigits⟩, Nat.toList_repr,
    Nat.ofDigitChars_toDigits (by omega) (by omega)]

theorem toList_toString_negSucc (m : Nat) :
    (toString (Int.negSucc m)).toList = '-' :: (m + 1).repr.toList := by
  change ("-" ++ (m + 1).repr).toList = _
  simp

theorem decimal?_toString (n : Int) : decimal? (toString n) = some n := by
  cases n with
  | ofNat m =>
    have hdigits := natOfDigits?_repr m
    change decimal? m.repr = some (Int.ofNat m)
    unfold decimal?
    split
    · rename_i digits heq
      have hsign : '-' ∈ m.repr.toList := by simp [heq]
      cases isDigit_of_mem_repr m hsign
    · rw [hdigits]
      rfl
  | negSucc m =>
    rw [decimal?, toList_toString_negSucc]
    simp only [natOfDigits?_repr]
    rfl

/-- The text of an integer holds digits and a sign. -/
theorem mem_toString {c : Char} (n : Int) (h : c ∈ (toString n).toList) : c.isDigit ∨ c = '-' := by
  cases n with
  | ofNat m => exact .inl (isDigit_of_mem_repr m h)
  | negSucc m =>
    rw [toList_toString_negSucc] at h
    rcases List.mem_cons.mp h with rfl | h
    · exact .inr rfl
    · exact .inl (isDigit_of_mem_repr _ h)

end ComplyLayer.Theory
