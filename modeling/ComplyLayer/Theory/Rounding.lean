import Mathlib.Data.Int.Log
import Mathlib.Data.Rat.Floor
import Mathlib.Tactic.Linarith
import Mathlib.Tactic.NormNum
import Mathlib.Tactic.Positivity

/-!
# Decimal arithmetic under a context

Rounding to the nearest, ties to even: to an integer, to a number of decimal places, and to a
number of significant digits as every operation of a decimal context does.
-/

namespace ComplyLayer.Theory

/-- The nearest integer, the even one of two that are equally near. -/
def roundHalfEven (q : ℚ) : ℤ :=
  if q - ⌊q⌋ < 1 / 2 then ⌊q⌋
  else if 1 / 2 < q - ⌊q⌋ then ⌊q⌋ + 1
  else if ⌊q⌋ % 2 = 0 then ⌊q⌋
  else ⌊q⌋ + 1

/-- How many of the units of the last place a number has, to the nearest. -/
def roundPlaces (places : Nat) (q : ℚ) : ℤ := roundHalfEven (q * 10 ^ places)

/-- The exponent of the last of so many significant digits of a number. -/
def lastExponent (digits : Nat) (q : ℚ) : ℤ := Int.log 10 |q| - (digits - 1)

/-- A number to so many significant digits. -/
def roundDigits (digits : Nat) (q : ℚ) : ℚ :=
  roundHalfEven (q / 10 ^ lastExponent digits q) * 10 ^ lastExponent digits q

/-- `quantize`: the coefficient of a number with so many places, `none` where it has more digits
than the context holds. -/
def quantize (digits places : Nat) (q : ℚ) : Option ℤ :=
  if (roundPlaces places q).natAbs < 10 ^ digits then some (roundPlaces places q) else none

/-! ## To the nearest integer -/

theorem roundHalfEven_cases (q : ℚ) : roundHalfEven q = ⌊q⌋ ∨ roundHalfEven q = ⌊q⌋ + 1 := by
  unfold roundHalfEven
  repeat' split
  all_goals simp

@[simp] theorem roundHalfEven_intCast (n : ℤ) : roundHalfEven n = n := by
  rw [roundHalfEven, Int.floor_intCast, sub_self, if_pos (by norm_num)]

@[simp] theorem roundHalfEven_zero : roundHalfEven 0 = 0 := by
  exact_mod_cast roundHalfEven_intCast 0

theorem le_roundHalfEven {n : ℤ} {q : ℚ} (h : (n : ℚ) ≤ q) : n ≤ roundHalfEven q := by
  have hfloor : n ≤ ⌊q⌋ := Int.le_floor.mpr h
  obtain heq | heq := roundHalfEven_cases q
  · omega
  · omega

theorem roundHalfEven_le {n : ℤ} {q : ℚ} (h : q ≤ n) : roundHalfEven q ≤ n := by
  rcases lt_or_eq_of_le h with hlt | rfl
  · have hfloor : ⌊q⌋ < n := Int.floor_lt.mpr hlt
    obtain heq | heq := roundHalfEven_cases q
    · omega
    · omega
  · exact (roundHalfEven_intCast n).le

/-- A number that is half below an even integer, or nearer, is rounded up to it. -/
theorem roundHalfEven_lt_iff {n : ℤ} {q : ℚ} (hn : n % 2 = 0) :
    roundHalfEven q < n ↔ q < n - 1 / 2 := by
  rcases lt_or_ge q (n - 1 : ℤ) with hlow | hlow
  · have hround : roundHalfEven q ≤ n - 1 := roundHalfEven_le hlow.le
    refine iff_of_true (by omega) ?_
    push_cast at hlow
    linarith
  · rcases lt_or_ge q n with hhigh | hhigh
    · have hfloor : ⌊q⌋ = n - 1 := by
        refine Int.floor_eq_iff.mpr ⟨hlow, ?_⟩
        push_cast
        linarith
      unfold roundHalfEven
      rw [hfloor]
      push_cast at hlow ⊢
      split
      · exact iff_of_true (by omega) (by linarith)
      split
      · exact iff_of_false (by omega) (by linarith)
      split
      · omega
      · exact iff_of_false (by omega) (by linarith)
    · have hround : n ≤ roundHalfEven q := le_roundHalfEven hhigh
      exact iff_of_false (by omega) (by linarith)

theorem abs_sub_roundHalfEven_le (q : ℚ) : |q - roundHalfEven q| ≤ 1 / 2 := by
  have hlow := Int.floor_le q
  have hhigh := Int.lt_floor_add_one q
  rw [abs_le]
  unfold roundHalfEven
  split
  · constructor
    · linarith
    · linarith
  split
  · push_cast
    constructor
    · linarith
    · linarith
  split
  · constructor
    · linarith
    · linarith
  · push_cast
    constructor
    · linarith
    · linarith

theorem roundHalfEven_eq_of_lt {n : ℤ} {q : ℚ} (hlow : n - 1 / 2 < q) (hhigh : q < n + 1 / 2) :
    roundHalfEven q = n := by
  obtain ⟨hge, hle⟩ := abs_le.mp (abs_sub_roundHalfEven_le q)
  have hlt : (roundHalfEven q : ℚ) < n + 1 := by linarith
  have hgt : (n : ℚ) - 1 < roundHalfEven q := by linarith
  have : roundHalfEven q < n + 1 := by exact_mod_cast hlt
  have : n - 1 < roundHalfEven q := by exact_mod_cast hgt
  omega

/-- A tie goes to the even neighbour. -/
theorem roundHalfEven_tie (k : ℤ) : roundHalfEven (k + 1 / 2) = if k % 2 = 0 then k else k + 1 := by
  have hfloor : ⌊(k + 1 / 2 : ℚ)⌋ = k := by
    rw [Int.floor_intCast_add]
    norm_num
  rw [roundHalfEven, hfloor, add_sub_cancel_left, if_neg (lt_irrefl _), if_neg (lt_irrefl _)]

/-- A number is rounded twice and its first rounding `x` makes a tie of it that goes away from
where the number `y` lies. -/
def LostTie (x y : ℚ) : Prop :=
  ∃ k : ℤ, x = k + 1 / 2 ∧ if k % 2 = 0 then (k + 1 / 2 : ℚ) < y else y < k + 1 / 2

/-- Where the first rounding passes no tie, the second has the same outcome unless a tie is
lost. -/
theorem roundHalfEven_eq_iff {x y : ℚ} (hle : ∀ k : ℤ, y ≤ k + 1 / 2 → x ≤ k + 1 / 2)
    (hge : ∀ k : ℤ, (k + 1 / 2 : ℚ) ≤ y → k + 1 / 2 ≤ x) :
    roundHalfEven x = roundHalfEven y ↔ ¬ LostTie x y := by
  obtain ⟨hlow, hhigh⟩ := abs_le.mp (abs_sub_roundHalfEven_le y)
  constructor
  · rintro heq ⟨k, rfl, hside⟩
    rw [roundHalfEven_tie] at heq
    split at heq
    next heven =>
      rw [if_pos heven, heq] at hside
      linarith
    next hodd =>
      rw [if_neg hodd] at hside
      have hk : (roundHalfEven y : ℚ) = k + 1 := by exact_mod_cast heq.symm
      linarith
  · intro hkept
    generalize hn : roundHalfEven y = n at hlow hhigh ⊢
    have hbelow : x ≤ n + 1 / 2 := hle n (by linarith)
    have habove : (n : ℚ) - 1 / 2 ≤ x := by
      have := hge (n - 1) (by push_cast; linarith)
      push_cast at this
      linarith
    rcases hbelow.eq_or_lt with htie | hbelow
    · have heven : n % 2 = 0 := by
        by_contra hodd
        refine hkept ⟨n, htie, ?_⟩
        rw [if_neg hodd]
        refine lt_of_le_of_ne (by linarith) fun hy => ?_
        rw [hy, roundHalfEven_tie, if_neg hodd] at hn
        omega
      rw [htie, roundHalfEven_tie, if_pos heven]
    rcases habove.eq_or_lt with htie | habove
    · have hcast : ((n - 1 : ℤ) : ℚ) + 1 / 2 = n - 1 / 2 := by
        push_cast
        ring
      have hodd : (n - 1) % 2 ≠ 0 := by
        intro heven
        refine hkept ⟨n - 1, by rw [hcast, htie], ?_⟩
        rw [if_pos heven, hcast]
        refine lt_of_le_of_ne (by linarith) fun hy => ?_
        rw [← hy, ← hcast, roundHalfEven_tie, if_pos heven] at hn
        omega
      rw [← htie, ← hcast, roundHalfEven_tie, if_neg hodd]
      omega
    · exact roundHalfEven_eq_of_lt habove hbelow

/-! ## To significant digits -/

@[simp] theorem roundDigits_zero (digits : Nat) : roundDigits digits 0 = 0 := by
  simp [roundDigits]

theorem lastExponent_le_log (h : 0 < digits) (q : ℚ) : lastExponent digits q ≤ Int.log 10 |q| := by
  have : (1 : ℤ) ≤ digits := by exact_mod_cast h
  rw [lastExponent]
  omega

/-- A power of ten, in units of a digit that is not above it. -/
theorem zpow_sub_eq {e k : ℤ} (h : e ≤ k) : (10 : ℚ) ^ k = ((10 ^ (k - e).toNat : ℤ) : ℚ) * 10 ^ e := by
  have hk : k = ((k - e).toNat : ℤ) + e := by omega
  conv_lhs => rw [hk, zpow_add₀ (by norm_num), zpow_natCast]
  push_cast
  rfl

theorem log_ten_zpow (k : ℤ) : Int.log 10 ((10 : ℚ) ^ k) = k := by
  have hlog := Int.log_zpow (R := ℚ) (by norm_num : 1 < 10) k
  rwa [Nat.cast_ofNat] at hlog

theorem ten_zpow_pos (k : ℤ) : (0 : ℚ) < 10 ^ k := zpow_pos (by norm_num) k

/-- Rounding does not pass a power of ten. -/
theorem abs_roundDigits_le {k : ℤ} {q : ℚ} (hdigits : 0 < digits) (h : |q| ≤ 10 ^ k) :
    |roundDigits digits q| ≤ 10 ^ k := by
  rcases eq_or_ne q 0 with rfl | hne
  · rw [roundDigits_zero, abs_zero]
    exact (ten_zpow_pos k).le
  · have hpos : 0 < |q| := abs_pos.mpr hne
    have hlog : Int.log 10 |q| ≤ k := by
      have hmono := Int.log_mono_right (b := 10) hpos h
      rwa [log_ten_zpow] at hmono
    have he : lastExponent digits q ≤ k := (lastExponent_le_log hdigits q).trans hlog
    have hunit := ten_zpow_pos (lastExponent digits q)
    rw [zpow_sub_eq he] at h
    obtain ⟨hlow, hhigh⟩ := abs_le.mp h
    have hle : roundHalfEven (q / 10 ^ lastExponent digits q) ≤
        10 ^ (k - lastExponent digits q).toNat := by
      refine roundHalfEven_le ?_
      rwa [div_le_iff₀ hunit]
    have hge : -10 ^ (k - lastExponent digits q).toNat ≤
        roundHalfEven (q / 10 ^ lastExponent digits q) := by
      refine le_roundHalfEven ?_
      rwa [le_div_iff₀ hunit, Int.cast_neg, neg_mul]
    rw [roundDigits, abs_mul, abs_of_pos hunit, zpow_sub_eq he]
    refine mul_le_mul_of_nonneg_right ?_ hunit.le
    have habs := Int.cast_le (R := ℚ).mpr (abs_le.mpr ⟨hge, hle⟩)
    rwa [Int.cast_abs] at habs

theorem le_roundDigits {k : ℤ} {q : ℚ} (hdigits : 0 < digits) (h : 10 ^ k ≤ q) :
    10 ^ k ≤ roundDigits digits q := by
  have hpos : 0 < q := lt_of_lt_of_le (ten_zpow_pos k) h
  have hlog : k ≤ Int.log 10 q := by
    have hmono := Int.log_mono_right (b := 10) (ten_zpow_pos k) h
    rwa [log_ten_zpow] at hmono
  have hlast := lastExponent_le_log hdigits q
  rw [abs_of_pos hpos] at hlast
  have hunit := ten_zpow_pos (lastExponent digits q)
  have hself : (10 : ℚ) ^ Int.log 10 q ≤ q := by
    exact_mod_cast Int.zpow_log_le_self (by norm_num : 1 < 10) hpos
  calc (10 : ℚ) ^ k ≤ 10 ^ Int.log 10 q := zpow_le_zpow_right₀ (by norm_num) hlog
    _ ≤ roundDigits digits q := by
      rw [roundDigits, zpow_sub_eq hlast]
      have hround : 10 ^ (Int.log 10 q - lastExponent digits q).toNat ≤
          roundHalfEven (q / 10 ^ lastExponent digits q) := by
        refine le_roundHalfEven ?_
        rwa [le_div_iff₀ hunit, ← zpow_sub_eq hlast]
      exact mul_le_mul_of_nonneg_right (Int.cast_le.mpr hround) hunit.le

theorem roundDigits_nonneg {q : ℚ} (digits : Nat) (hq : 0 ≤ q) : 0 ≤ roundDigits digits q := by
  have hunit := ten_zpow_pos (lastExponent digits q)
  refine mul_nonneg ?_ hunit.le
  have hround : (0 : ℤ) ≤ roundHalfEven (q / 10 ^ lastExponent digits q) :=
    le_roundHalfEven (by simpa using div_nonneg hq hunit.le)
  exact_mod_cast hround

/-- Rounding to digits passes no multiple of the unit of the last digit. -/
theorem roundDigits_le {q m : ℚ} {c : ℤ} (hm : m = c * 10 ^ lastExponent digits q) (h : q ≤ m) :
    roundDigits digits q ≤ m := by
  have hunit := ten_zpow_pos (lastExponent digits q)
  rw [hm] at h ⊢
  refine mul_le_mul_of_nonneg_right (Int.cast_le.mpr (roundHalfEven_le ?_)) hunit.le
  rwa [div_le_iff₀ hunit]

theorem le_roundDigits_of_multiple {q m : ℚ} {c : ℤ} (hm : m = c * 10 ^ lastExponent digits q)
    (h : m ≤ q) : m ≤ roundDigits digits q := by
  have hunit := ten_zpow_pos (lastExponent digits q)
  rw [hm] at h ⊢
  refine mul_le_mul_of_nonneg_right (Int.cast_le.mpr (le_roundHalfEven ?_)) hunit.le
  rwa [le_div_iff₀ hunit]

/-- What has so many decimal places is a multiple of a unit that is not above the last. -/
theorem div_ten_pow_eq {e : ℤ} {places : Nat} (j : ℤ) (h : e ≤ -places) :
    ∃ c : ℤ, (j : ℚ) / 10 ^ places = c * 10 ^ e := by
  refine ⟨j * 10 ^ (-places - e).toNat, ?_⟩
  rw [Int.cast_mul, mul_assoc, ← zpow_sub_eq h, zpow_neg, zpow_natCast, div_eq_mul_inv]

/-- Where the last digit is a hundredth, the hundredths are those of the number itself. -/
theorem roundPlaces_roundDigits {places : Nat} (h : lastExponent digits q = -places) :
    roundPlaces places (roundDigits digits q) = roundPlaces places q := by
  have hpow : (10 : ℚ) ^ (-(places : ℤ)) * 10 ^ places = 1 := by
    rw [zpow_neg, zpow_natCast, inv_mul_cancel₀ (by positivity)]
  have hdiv : q / 10 ^ (-(places : ℤ)) = q * 10 ^ places := by
    rw [zpow_neg, zpow_natCast, div_inv_eq_mul]
  rw [roundPlaces, roundDigits, h, mul_assoc, hpow, mul_one, roundHalfEven_intCast, hdiv,
    roundPlaces]

end ComplyLayer.Theory
