import ComplyLayer.Dashboard.Diff
import Mathlib.Data.Int.Interval
import Mathlib.Tactic.FieldSimp

/-!
# The multiple the diff states

The diff divides in a decimal context of 28 digits, rounds to hundredths, and turns the rounded
ratio round where a threshold went down. It returns while the ratio fits the context, and the
multiple is the true one where neither rounding loses anything (`states_the_multiple_iff`).
-/

namespace ComplyLayer

open Theory Diff

/-- The hundredths of a number, once it is rounded to the digits of the context. -/
def hundredths (q : ℚ) : ℤ := roundPlaces 2 (roundDigits contextDigits q)

/-- Nothing raises; the direction is the one of the change; and a multiple is the ratio of the
larger to the smaller threshold, to the nearest hundredth. -/
structure ThresholdChange.StatesTheMultiple (t : ThresholdChange) : Prop where
  factor : ∃ factor, t.factor = .ok factor
  renderBefore : ∃ text, t.renderBefore = .ok text
  renderAfter : ∃ text, t.renderAfter = .ok text
  magnitude : ∃ magnitude, t.magnitude = .ok magnitude ∧
    (magnitude.higher = true ↔ t.before < t.after) ∧
    ∀ multiple higher, magnitude = .multiple multiple higher →
      multiple = roundPlaces 2 ((max t.before t.after : ℤ) / (min t.before t.after : ℤ))

/-- The ratio of two thresholds keeps its hundredths: it fits the context; a rise is less than
twofold, or its 28 digits make no tie that goes the wrong way; and a fall is to less than half a
percent or more than half, or the larger is as many times the smaller as for a whole percentage. -/
def KeepsHundredths (before after : ℤ) : Prop :=
  before = 0 ∨
    (after / before : ℚ) < 10 ^ 26 - 1 / 200 ∧
      (before < after → hundredths (after / before) < 200 ∨
        ¬ LostTie (roundDigits contextDigits (after / before) * 100) (after / before * 100)) ∧
      (after < before → hundredths (after / before) = 0 ∨ 50 < hundredths (after / before) ∨
        ∃ percent : ℤ, 1 ≤ percent ∧ percent ≤ 50 ∧
          roundPlaces 2 (before / after) = roundPlaces 2 (100 / percent))

theorem hundredths_nonneg {q : ℚ} (h : 0 ≤ q) : 0 ≤ hundredths q := by
  refine le_roundHalfEven ?_
  have := roundDigits_nonneg contextDigits h
  rw [Int.cast_zero]
  positivity

theorem le_hundredths {q : ℚ} {k : ℤ} (h : 10 ^ k ≤ q) (n : ℤ) (hn : (n : ℚ) = 10 ^ k * 100) :
    n ≤ hundredths q := by
  have hround := le_roundDigits (by decide : 0 < contextDigits) h
  refine le_roundHalfEven ?_
  rw [hn]
  linarith

theorem hundredths_le {q : ℚ} {k : ℤ} (h : |q| ≤ 10 ^ k) (n : ℤ) (hn : (n : ℚ) = 10 ^ k * 100) :
    hundredths q ≤ n := by
  have hround := (le_abs_self _).trans (abs_roundDigits_le (by decide : 0 < contextDigits) h)
  refine roundHalfEven_le ?_
  rw [hn]
  linarith

theorem lastExponent_lt {q : ℚ} {k : ℤ} (hq : 0 ≤ q) (hk : 0 < k) (h : q < 10 ^ k) :
    lastExponent contextDigits q ≤ k - contextDigits := by
  have hlog : Int.log 10 q < k := by
    rcases hq.eq_or_lt with rfl | hpos
    · rwa [Int.log_zero_right]
    · exact (Int.lt_zpow_iff_log_lt (by norm_num) hpos).mp (by exact_mod_cast h)
  rw [lastExponent, abs_of_nonneg hq]
  omega

/-- The largest ratios have two decimal places and no more. -/
theorem lastExponent_eq_of_full {q : ℚ} (hlow : 10 ^ (25 : ℤ) ≤ q) (hhigh : q < 10 ^ (26 : ℤ)) :
    lastExponent contextDigits q = -(2 : Nat) := by
  have hpos : 0 < q := lt_of_lt_of_le (ten_zpow_pos 25) hlow
  have hlt := lastExponent_lt hpos.le (by decide) hhigh
  have hge : (25 : ℤ) ≤ Int.log 10 q :=
    (Int.zpow_le_iff_le_log (by norm_num) hpos).mp (by exact_mod_cast hlow)
  rw [lastExponent, abs_of_pos hpos, contextDigits] at hlt ⊢
  push_cast at hlt ⊢
  omega

/-- The hundredths of a ratio fit the context where the ratio is below its bound. -/
theorem hundredths_lt_iff {q : ℚ} (h : 0 ≤ q) :
    hundredths q < 10 ^ contextDigits ↔ q < 10 ^ 26 - 1 / 200 := by
  rcases lt_or_ge q (10 ^ (25 : ℤ)) with hlow | hlow
  · have hle : hundredths q ≤ 10 ^ 27 := by
      refine hundredths_le ?_ _ (by norm_num : (((10 ^ 27 : ℤ)) : ℚ) = 10 ^ (25 : ℤ) * 100)
      rw [abs_of_nonneg h]
      exact hlow.le
    refine iff_of_true (lt_of_le_of_lt hle (by decide)) (hlow.trans ?_)
    norm_num
  rcases lt_or_ge q (10 ^ (26 : ℤ)) with hhigh | hhigh
  · rw [hundredths, roundPlaces_roundDigits (lastExponent_eq_of_full hlow hhigh), roundPlaces]
    have hiff := roundHalfEven_lt_iff (n := 10 ^ contextDigits) (q := q * 10 ^ 2) (by decide)
    rw [hiff, contextDigits]
    push_cast
    constructor
    · intro h
      linarith
    · intro h
      linarith
  · have hge : 10 ^ 28 ≤ hundredths q :=
      le_hundredths hhigh _ (by norm_num : (((10 ^ 28 : ℤ)) : ℚ) = 10 ^ (26 : ℤ) * 100)
    refine iff_of_false (not_lt.mpr hge) (not_lt.mpr ?_)
    refine le_trans ?_ hhigh
    norm_num

/-- Rounding to the digits of the context loses the hundredths only where it makes a tie that goes
the wrong way. -/
theorem hundredths_eq_iff {q : ℚ} (h : 0 ≤ q) (hfits : q < 10 ^ (26 : ℤ)) :
    hundredths q = roundPlaces 2 q ↔ ¬ LostTie (roundDigits contextDigits q * 100) (q * 100) := by
  rcases lt_or_ge q (10 ^ (25 : ℤ)) with hlow | hfull
  · have hlast : lastExponent contextDigits q ≤ -(3 : Nat) := lastExponent_lt h (by decide) hlow
    have htie (k : ℤ) : ∃ c : ℤ, ((k + 1 / 2) / 100 : ℚ) = c * 10 ^ lastExponent contextDigits q := by
      obtain ⟨c, hc⟩ := div_ten_pow_eq (10 * k + 5) hlast
      refine ⟨c, ?_⟩
      rw [← hc]
      push_cast
      ring
    have hsquare : (10 : ℚ) ^ 2 = 100 := by norm_num
    rw [hundredths, roundPlaces, roundPlaces, hsquare]
    refine roundHalfEven_eq_iff (fun k hk => ?_) fun k hk => ?_
    · obtain ⟨c, hc⟩ := htie k
      rw [← le_div_iff₀ (by norm_num)] at hk ⊢
      exact roundDigits_le hc hk
    · obtain ⟨c, hc⟩ := htie k
      rw [← div_le_iff₀ (by norm_num)] at hk ⊢
      exact le_roundDigits_of_multiple hc hk
  · have hlast := lastExponent_eq_of_full hfull hfits
    refine iff_of_true (roundPlaces_roundDigits hlast) ?_
    rintro ⟨k, hk, -⟩
    rw [roundDigits, hlast] at hk
    have hdouble : ((2 * roundHalfEven (q / 10 ^ (-(2 : Nat) : ℤ)) : ℤ) : ℚ) = (2 * k + 1 : ℤ) := by
      push_cast
      norm_num at hk ⊢
      linarith
    have := Int.cast_injective hdouble
    omega

/-- The inverses of the percentages that are stated as a multiple, and of those that are not. -/
theorem hundredths_inverse {f : ℤ} (h : 0 < f) (hle : f ≤ 100) :
    if f ≤ 50 then 200 ≤ hundredths (1 / (f / 100)) ∧
      hundredths (1 / (f / 100)) = roundPlaces 2 (100 / f)
    else hundredths (1 / (f / 100)) < 200 := by
  have hall : ∀ n ∈ Finset.Icc (1 : ℤ) 100, if n ≤ 50 then 200 ≤ hundredths (1 / (n / 100)) ∧
      hundredths (1 / (n / 100)) = roundPlaces 2 (100 / n)
      else hundredths (1 / (n / 100)) < 200 := by
    decide +kernel
  exact hall f (Finset.mem_Icc.mpr ⟨h, hle⟩)

/-- A number and a percentage whose inverses are near are near themselves. -/
theorem near_of_inverse {p n : ℚ} (hp : 0 < p) (hn : 1 ≤ n) (hle : n ≤ 50)
    (h : |10000 / p - 10000 / n| ≤ 1) : n - 2 / 5 ≤ p ∧ p ≤ n + 2 / 5 := by
  obtain ⟨hlow, hhigh⟩ := abs_le.mp h
  have hpos : 0 < n := by linarith
  rw [div_sub_div _ _ hp.ne' hpos.ne'] at hlow hhigh
  rw [div_le_iff₀ (by positivity)] at hhigh
  rw [le_div_iff₀ (by positivity)] at hlow
  constructor
  · by_contra hlt
    nlinarith
  · by_contra hlt
    nlinarith

/-- The inverse of a ratio, to hundredths, gives away which percentage the ratio is. -/
theorem hundredths_of_inverse {q : ℚ} {n : ℤ} (hq : 0 < q) (hfall : q < 1) (hone : 1 ≤ n)
    (hle : n ≤ 50) (h : roundPlaces 2 (1 / q) = roundPlaces 2 (100 / n)) : hundredths q = n := by
  have hn : (1 : ℚ) ≤ n := by exact_mod_cast hone
  have hnear : |10000 / (q * 100) - 10000 / (n : ℚ)| ≤ 1 := by
    have hinverse := abs_sub_roundHalfEven_le (1 / q * 10 ^ 2)
    have hpercent := abs_sub_roundHalfEven_le (100 / n * 10 ^ 2)
    rw [roundPlaces, roundPlaces] at h
    rw [h] at hinverse
    have hq' : 10000 / (q * 100) = 1 / q * 10 ^ 2 := by
      field_simp
      norm_num
    have hn' : (10000 / n : ℚ) = 100 / n * 10 ^ 2 := by ring
    rw [hq', hn']
    rw [abs_le] at *
    constructor
    · linarith
    · linarith
  obtain ⟨hge, hle⟩ := near_of_inverse (by positivity) hn (by exact_mod_cast hle) hnear
  have hlast : lastExponent contextDigits q ≤ -(3 : Nat) := by
    refine lastExponent_lt hq.le (k := 25) (by decide) (hfall.trans ?_)
    norm_num
  have hlow : (10 * n - 4 : ℤ) / 10 ^ 3 ≤ roundDigits contextDigits q := by
    obtain ⟨c, hc⟩ := div_ten_pow_eq (10 * n - 4) hlast
    refine le_roundDigits_of_multiple hc ?_
    push_cast
    linarith
  have hhigh : roundDigits contextDigits q ≤ (10 * n + 4 : ℤ) / 10 ^ 3 := by
    obtain ⟨c, hc⟩ := div_ten_pow_eq (10 * n + 4) hlast
    refine roundDigits_le hc ?_
    push_cast
    linarith
  push_cast at hlow hhigh
  refine roundHalfEven_eq_of_lt ?_ ?_
  · linarith
  · linarith

/-- What fits the context is quantised. -/
theorem quantized_eq_ok (h : (roundPlaces places q).natAbs < 10 ^ contextDigits) :
    quantized places q = .ok (roundPlaces places q) := by
  rw [quantized, quantize, if_pos h]

section
variable {t : ThresholdChange}

theorem factor_of_fits (hbefore : t.before ≠ 0) (hratio : (0 : ℚ) ≤ t.after / t.before)
    (h : hundredths (t.after / t.before) < 10 ^ contextDigits) :
    t.factor = .ok (some (hundredths (t.after / t.before))) := by
  have hnonneg := hundredths_nonneg hratio
  rw [ThresholdChange.factor, if_neg hbefore, decimalQuotient, quantized_eq_ok]
  · rfl
  · change (hundredths (t.after / t.before)).natAbs < 10 ^ contextDigits
    zify
    rwa [abs_of_nonneg hnonneg]

theorem factor_of_not_fits (hbefore : t.before ≠ 0) (hratio : (0 : ℚ) ≤ t.after / t.before)
    (h : ¬ hundredths (t.after / t.before) < 10 ^ contextDigits) (factor : Option ℤ) :
    t.factor ≠ .ok factor := by
  have hnonneg := hundredths_nonneg hratio
  rw [ThresholdChange.factor, if_neg hbefore, decimalQuotient, quantized, quantize, if_neg]
  · intro h
    cases h
  · intro hfits
    refine h ?_
    change (hundredths (t.after / t.before)).natAbs < 10 ^ contextDigits at hfits
    zify at hfits
    rwa [abs_of_nonneg hnonneg] at hfits

/-- The factor of a fall has an inverse that fits, as it is a hundredth or more, or nought. -/
theorem inverted_eq_ok (h : 0 ≤ f) :
    ThresholdChange.inverted f = .ok (hundredths (1 / (f / 100))) := by
  rcases h.eq_or_lt with rfl | hpos
  · decide +kernel
  have hone : (1 : ℚ) ≤ f := by exact_mod_cast hpos
  have hinverse : |1 / ((f : ℚ) / 100)| ≤ 10 ^ (2 : ℤ) := by
    rw [abs_of_nonneg (by positivity), one_div_div, div_le_iff₀ (by positivity)]
    norm_num
    linarith
  have hle : hundredths (1 / (f / 100)) ≤ 10000 := hundredths_le hinverse _ (by norm_num)
  have hge : 0 ≤ hundredths (1 / (f / 100)) := hundredths_nonneg (by positivity)
  rw [ThresholdChange.inverted, if_neg hpos.ne', decimalQuotient, quantized_eq_ok]
  · rfl
  · change (hundredths (1 / (f / 100))).natAbs < 10 ^ contextDigits
    have : (10000 : ℤ) < 10 ^ contextDigits := by decide
    zify
    rw [abs_of_nonneg hge]
    omega

/-- Showing a threshold rounds it, and never raises. -/
theorem ThresholdChange.render_eq_ok (t : ThresholdChange) (value : ℤ) :
    ∃ text, t.render value = .ok text := by
  rw [ThresholdChange.render]
  split
  · exact ⟨_, rfl⟩
  split
  · exact ⟨_, rfl⟩
  · exact ⟨_, rfl⟩

/-- The percentage of a change that is not tenfold fits the context. -/
theorem percent_eq_ok {q : ℚ} (h : |q| ≤ 10 ^ (1 : ℤ)) :
    ∃ share, quantized 0 |roundDigits contextDigits (roundDigits contextDigits q * 100)| =
      .ok share := by
  have hdigits : 0 < contextDigits := by decide
  have hshare := abs_roundDigits_le hdigits h
  have hpercent : |roundDigits contextDigits q * 100| ≤ 10 ^ (3 : ℤ) := by
    rw [abs_mul, abs_of_pos (by norm_num : (0 : ℚ) < 100)]
    calc |roundDigits contextDigits q| * 100 ≤ 10 ^ (1 : ℤ) * 100 := by gcongr
      _ = 10 ^ (3 : ℤ) := by norm_num
  have hround := abs_roundDigits_le hdigits hpercent
  refine ⟨_, quantized_eq_ok ?_⟩
  have hle : roundPlaces 0 |roundDigits contextDigits (roundDigits contextDigits q * 100)| ≤
      1000 := by
    refine roundHalfEven_le ?_
    rw [pow_zero, mul_one]
    refine hround.trans ?_
    norm_num
  have hge : 0 ≤ roundPlaces 0 |roundDigits contextDigits (roundDigits contextDigits q * 100)| := by
    refine le_roundHalfEven ?_
    rw [pow_zero, mul_one, Int.cast_zero]
    exact abs_nonneg _
  have : (1000 : ℤ) < 10 ^ contextDigits := by decide
  zify
  rw [abs_of_nonneg hge]
  omega

/-- What `magnitude` states, by the factor once it is turned round. -/
theorem magnitude_of_factor (hfactor : t.factor = .ok (some f))
    (hg : (if t.looser then .ok f else ThresholdChange.inverted f) = .ok g) : t.magnitude =
    if 200 ≤ g then .ok (.multiple g t.looser)
    else (quantized 0 |roundDigits contextDigits
      (decimalQuotient (t.after - t.before : ℤ) t.before * 100)|).map (.percent · t.looser) := by
  rw [ThresholdChange.magnitude, hfactor]
  cases hlooser : t.looser with
  | false =>
    rw [hlooser, if_neg Bool.false_ne_true] at hg
    simp only [hg, bind, Except.bind]
    rfl
  | true =>
    rw [hlooser, if_pos rfl, Except.ok.injEq] at hg
    subst hg
    rfl

/-- A multiple is stated from twofold on, and the direction always. -/
theorem magnitude_spec (hfactor : t.factor = .ok (some f))
    (hg : (if t.looser then .ok f else ThresholdChange.inverted f) = .ok g)
    (hshare : g < 200 → |((t.after - t.before : ℤ) : ℚ) / t.before| ≤ 10 ^ (1 : ℤ)) :
    ∃ m, t.magnitude = .ok m ∧ m.higher = t.looser ∧
      ∀ multiple higher, m = .multiple multiple higher ↔
        200 ≤ g ∧ multiple = g ∧ higher = t.looser := by
  rw [magnitude_of_factor hfactor hg]
  by_cases htwice : 200 ≤ g
  · refine ⟨.multiple g t.looser, if_pos htwice, rfl, fun multiple higher => ?_⟩
    simp only [Magnitude.multiple.injEq, htwice, true_and]
    exact ⟨fun h => ⟨h.1.symm, h.2.symm⟩, fun h => ⟨h.1.symm, h.2.symm⟩⟩
  · obtain ⟨share, hquantized⟩ := percent_eq_ok (hshare (not_le.mp htwice))
    refine ⟨.percent share t.looser, ?_, rfl, fun multiple higher => ?_⟩
    · rw [if_neg htwice, decimalQuotient, hquantized]
      rfl
    · exact iff_of_false (by simp) fun h => htwice h.1

/-- A threshold that was nought has no multiple. -/
theorem states_of_before_zero (h : t.before = 0) : t.StatesTheMultiple := by
  have hfactor : t.factor = .ok none := if_pos h
  have hmagnitude : t.magnitude = .ok (.bare t.looser) := by
    rw [ThresholdChange.magnitude, hfactor]
    rfl
  refine ⟨⟨none, hfactor⟩, t.render_eq_ok _, t.render_eq_ok _, .bare t.looser, hmagnitude, ?_, ?_⟩
  · exact decide_eq_true_iff
  · intro multiple higher h
    cases h

/-- With a factor that is turned round without raising, what is left is the multiple itself. -/
theorem states_iff_of_factor (hfactor : t.factor = .ok (some f))
    (hg : (if t.looser then .ok f else ThresholdChange.inverted f) = .ok g)
    (hshare : g < 200 → |((t.after - t.before : ℤ) : ℚ) / t.before| ≤ 10 ^ (1 : ℤ)) :
    t.StatesTheMultiple ↔
      (200 ≤ g → g = roundPlaces 2 ((max t.before t.after : ℤ) / (min t.before t.after : ℤ))) := by
  obtain ⟨m, hm, hhigher, hmultiple⟩ := magnitude_spec hfactor hg hshare
  constructor
  · intro h htwice
    obtain ⟨m', hm', -, htrue⟩ := h.magnitude
    cases hm.symm.trans hm'
    exact htrue g t.looser ((hmultiple g t.looser).mpr ⟨htwice, rfl, rfl⟩)
  · intro h
    refine ⟨⟨_, hfactor⟩, t.render_eq_ok _, t.render_eq_ok _, m, hm, ?_, ?_⟩
    · rw [hhigher]
      exact decide_eq_true_iff
    · intro multiple higher hstated
      obtain ⟨htwice, rfl, -⟩ := (hmultiple multiple higher).mp hstated
      exact h htwice

theorem states_iff_of_rise (hbefore : 0 < t.before) (h : t.before < t.after)
    (hfits : hundredths (t.after / t.before) < 10 ^ contextDigits) :
    t.StatesTheMultiple ↔ (200 ≤ hundredths (t.after / t.before) →
      hundredths (t.after / t.before) = roundPlaces 2 (t.after / t.before)) := by
  have hpos : (0 : ℚ) < t.before := by exact_mod_cast hbefore
  have hlt : (t.before : ℚ) < t.after := by exact_mod_cast h
  have hratio : (0 : ℚ) ≤ t.after / t.before := by
    have := hpos.trans hlt
    positivity
  have hlooser : t.looser = true := decide_eq_true h
  rw [states_iff_of_factor (factor_of_fits hbefore.ne' hratio hfits) (if_pos hlooser) ?_,
    max_eq_right h.le, min_eq_left h.le]
  intro hsmall
  have hten : (t.after / t.before : ℚ) < 10 ^ (1 : ℤ) := by
    by_contra hge
    have := le_hundredths (not_lt.mp hge) 1000 (by norm_num)
    omega
  rw [Int.cast_sub, sub_div, div_self hpos.ne', abs_of_nonneg]
  · linarith
  · rw [sub_nonneg, one_le_div hpos]
    exact hlt.le

theorem states_iff_of_fall (hafter : 0 ≤ t.after) (h : t.after < t.before)
    (hfits : hundredths (t.after / t.before) < 10 ^ contextDigits) :
    t.StatesTheMultiple ↔ (200 ≤ hundredths (1 / (hundredths (t.after / t.before) / 100)) →
      hundredths (1 / (hundredths (t.after / t.before) / 100)) =
        roundPlaces 2 (t.before / t.after)) := by
  have hnonneg : (0 : ℚ) ≤ t.after := by exact_mod_cast hafter
  have hlt : (t.after : ℚ) < t.before := by exact_mod_cast h
  have hpos : (0 : ℚ) < t.before := hnonneg.trans_lt hlt
  have hratio : (0 : ℚ) ≤ t.after / t.before := by positivity
  have hlooser : ¬ t.looser = true := fun hup => lt_asymm h (of_decide_eq_true hup)
  have hturned : (if t.looser then .ok (hundredths (t.after / t.before))
      else ThresholdChange.inverted (hundredths (t.after / t.before))) = _ :=
    (if_neg hlooser).trans (inverted_eq_ok (hundredths_nonneg hratio))
  have hbefore : t.before ≠ 0 := (hafter.trans_lt h).ne'
  rw [states_iff_of_factor (factor_of_fits hbefore hratio hfits) hturned ?_,
    max_eq_left h.le, min_eq_right h.le]
  intro _
  rw [Int.cast_sub, sub_div, div_self hpos.ne', abs_le]
  have hone := (div_lt_one hpos).mpr hlt
  norm_num
  constructor
  · linarith
  · linarith

/-- A fall has its hundredths where it is no multiple, or that of a whole percentage. -/
theorem fall_iff {before after : ℤ} (hafter : 0 ≤ after) (h : after < before) :
    (200 ≤ hundredths (1 / (hundredths (after / before) / 100)) →
        hundredths (1 / (hundredths (after / before) / 100)) = roundPlaces 2 (before / after)) ↔
      hundredths (after / before) = 0 ∨ 50 < hundredths (after / before) ∨
        ∃ percent : ℤ, 1 ≤ percent ∧ percent ≤ 50 ∧
          roundPlaces 2 (before / after) = roundPlaces 2 (100 / percent) := by
  have hnonneg : (0 : ℚ) ≤ after := by exact_mod_cast hafter
  have hlt : (after : ℚ) < before := by exact_mod_cast h
  have hpos : (0 : ℚ) < before := hnonneg.trans_lt hlt
  have hratio : (0 : ℚ) ≤ after / before := by positivity
  have hone : (after / before : ℚ) < 1 := (div_lt_one hpos).mpr hlt
  rcases (hundredths_nonneg hratio).eq_or_lt with hzero | hsome
  · rw [← hzero]
    have hnone : ¬ 200 ≤ hundredths (1 / (((0 : ℤ) : ℚ) / 100)) := by decide +kernel
    exact iff_of_true (fun htwice => (hnone htwice).elim) (.inl rfl)
  have hpercent : hundredths (after / before) ≤ 100 := by
    refine hundredths_le (k := 0) ?_ 100 (by norm_num)
    rw [abs_of_nonneg hratio]
    exact hone.le
  have hinverse := hundredths_inverse hsome hpercent
  rw [or_iff_right hsome.ne']
  split at hinverse
  next hhalf =>
    rw [forall_prop_of_true hinverse.1, hinverse.2, or_iff_right (not_lt.mpr hhalf)]
    constructor
    · intro heq
      exact ⟨_, hsome, hhalf, heq.symm⟩
    · rintro ⟨percent, hge, hle, heq⟩
      have hafter : 0 < (after : ℚ) := by
        refine lt_of_le_of_ne hnonneg fun hzero => ?_
        rw [← hzero, zero_div] at hsome
        exact absurd hsome (by decide +kernel)
      have hsame : hundredths (after / before) = percent := by
        refine hundredths_of_inverse (by positivity) hone hge hle ?_
        rwa [one_div_div]
      rw [hsame, heq]
  next hhalf =>
    exact iff_of_true (fun htwice => by omega) (.inl (not_le.mp hhalf))

/-- Nothing raises and the stated multiple is the true one exactly where the ratio keeps its
hundredths. -/
theorem states_the_multiple_iff (t : ThresholdChange) (hbefore : 0 ≤ t.before)
    (hafter : 0 ≤ t.after) (hne : t.before ≠ t.after) :
    t.StatesTheMultiple ↔ KeepsHundredths t.before t.after := by
  rcases hbefore.eq_or_lt with hzero | hpos
  · exact iff_of_true (states_of_before_zero hzero.symm) (.inl hzero.symm)
  have hratio : (0 : ℚ) ≤ t.after / t.before := by positivity
  rw [KeepsHundredths, or_iff_right hpos.ne']
  by_cases hfits : (t.after / t.before : ℚ) < 10 ^ 26 - 1 / 200
  · have hdigits := (hundredths_lt_iff hratio).mpr hfits
    rw [and_iff_right hfits]
    rcases lt_or_gt_of_ne hne with hrise | hfall
    · have hbound : (t.after / t.before : ℚ) < 10 ^ (26 : ℤ) := by
        refine hfits.trans ?_
        norm_num
      rw [states_iff_of_rise hpos hrise hdigits, and_iff_left fun h => (lt_asymm h hrise).elim,
        forall_prop_of_true hrise, ← not_lt, ← or_iff_not_imp_left,
        hundredths_eq_iff hratio hbound]
    · rw [states_iff_of_fall hafter hfall hdigits, and_iff_right fun h => (lt_asymm h hfall).elim,
        forall_prop_of_true hfall, fall_iff hafter hfall]
  · refine iff_of_false (fun h => ?_) fun h => hfits h.1
    obtain ⟨factor, hfactor⟩ := h.factor
    refine factor_of_not_fits hpos.ne' hratio (fun hdigits => hfits ?_) factor hfactor
    exact (hundredths_lt_iff hratio).mp hdigits

theorem states_the_multiple_tenfold :
    (⟨"amount_minor", 5000000, 50000000, "NGN"⟩ : ThresholdChange).StatesTheMultiple := by
  refine (states_the_multiple_iff _ (by decide) (by decide) (by decide)).mpr (.inr ?_)
  refine ⟨by norm_num, fun _ => .inr ?_, fun h => absurd h (by decide)⟩
  refine (hundredths_eq_iff ?_ ?_).mp ?_
  · norm_num
  · norm_num
  · decide +kernel

/-- Three thousand lowered to one thousand is stated as 3.03 times lower; and a limit that is
raised from 1 to a hundred septillion has no magnitude at all. -/
theorem three_thousand_stated_three_point_nought_three :
    (⟨"amount_minor", 3000, 1000, "NGN"⟩ : ThresholdChange).magnitude =
        .ok (.multiple 303 false) ∧
      ¬ (⟨"amount_minor", 3000, 1000, "NGN"⟩ : ThresholdChange).StatesTheMultiple ∧
      (⟨"amount_minor", 1, 10 ^ 26, "NGN"⟩ : ThresholdChange).magnitude =
        .error .invalidOperation := by
  have hstated : (⟨"amount_minor", 3000, 1000, "NGN"⟩ : ThresholdChange).magnitude =
      .ok (.multiple 303 false) := by
    decide +kernel
  refine ⟨hstated, fun h => ?_, by decide +kernel⟩
  obtain ⟨m, hm, -, htrue⟩ := h.magnitude
  cases hstated.symm.trans hm
  have := htrue 303 false rfl
  revert this
  decide +kernel

end

end ComplyLayer
