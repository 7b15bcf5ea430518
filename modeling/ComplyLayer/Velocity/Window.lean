import ComplyLayer.Dsl.Functions
import Mathlib.Data.Rat.Floor

/-!
# A fetched window

The read side of `velocity/redis_store.py`: one customer's recent transactions as one fetch
returned them, the counts and sums the rules ask of them, and the facts about the whole history.
Clock readings and scores are rationals; a double near the present holds every whole number of
seconds subtracted from it exactly.
-/

namespace ComplyLayer

/-- Facts about a customer's whole history. -/
structure Aggregates where
  lifetimeCount : Int := 0
  lifetimeVolumeMinor : Int := 0
  priorFlagCount : Int := 0
  firstSeenAt : ℚ := 0
  lastTransactionAt : ℚ := 0
  deriving DecidableEq

/-- `_whole_days`. -/
def wholeDays (seconds : ℚ) : Int := max 0 (Rat.floor (seconds / 86400))

/-- `Aggregates.as_facts`. -/
def Aggregates.asFacts (a : Aggregates) (now : ℚ) : List (String × Value) :=
  let average := if a.lifetimeCount = 0 then 0 else a.lifetimeVolumeMinor.fdiv a.lifetimeCount
  [("lifetime_transaction_count", .int a.lifetimeCount),
    ("lifetime_volume_minor", .int a.lifetimeVolumeMinor),
    ("average_transaction_minor", .int average),
    ("prior_flag_count", .int a.priorFlagCount),
    ("days_since_last_activity",
      .int (if a.lastTransactionAt = 0 then 0 else wholeDays (now - a.lastTransactionAt))),
    ("customer_known_days",
      .int (if a.firstSeenAt = 0 then 0 else wholeDays (now - a.firstSeenAt)))]

structure WindowEntry where
  member : String
  score : ℚ
  amount : Int
  kind : String
  deriving DecidableEq

/-- One customer's recent transactions, already fetched. -/
structure Window where
  now : ℚ
  entries : List WindowEntry := []
  truncated : Bool := false
  aggregates : Aggregates := {}
  deriving DecidableEq

namespace Window

/-- `bound is not None and amount < bound`. -/
def belowMin (amount : Int) (bound : Value) : Except Raised Bool :=
  match bound with
  | .none => .ok false
  | _ =>
    match Value.intLt? amount bound with
    | some below => .ok below
    | none => typeError

/-- `bound is not None and amount > bound`. -/
def aboveMax (amount : Int) (bound : Value) : Except Raised Bool :=
  match bound with
  | .none => .ok false
  | _ =>
    match Value.intGt? amount bound with
    | some above => .ok above
    | none => typeError

/-- `kind is not None and entry_kind != kind`. -/
def otherKind (kind : String) (wanted : Value) : Bool :=
  match wanted with
  | .none => false
  | _ => !(Value.str kind).pyEq wanted

/-- One turn of `_matching`: whether the entry is yielded. -/
def accepts (cutoff : ℚ) (filters : Filters) (entry : WindowEntry) : Except Raised Bool :=
  if entry.score < cutoff then .ok false
  else do
    if ← belowMin entry.amount filters.minAmountMinor then return false
    if ← aboveMax entry.amount filters.maxAmountMinor then return false
    return !otherKind entry.kind filters.transactionType

/-- The amounts `_matching` yields. -/
def matchingFrom (cutoff : ℚ) (filters : Filters) : List WindowEntry → Except Raised (List Int)
  | [] => .ok []
  | entry :: rest => do
    let accepted ← accepts cutoff filters entry
    let amounts ← matchingFrom cutoff filters rest
    pure (if accepted then entry.amount :: amounts else amounts)

def matching (window : Window) (seconds : Nat) (filters : Filters) : Except Raised (List Int) :=
  matchingFrom (window.now - seconds) filters window.entries

def count (window : Window) (seconds : Nat) (filters : Filters) : Except Raised Int := do
  let amounts ← window.matching seconds filters
  pure amounts.length

def total (window : Window) (seconds : Nat) (filters : Filters) : Except Raised Int := do
  let amounts ← window.matching seconds filters
  pure amounts.sum

/-- The interface the interpreter sees. -/
def provider (window : Window) : VelocityProvider := ⟨window.count, window.total⟩

/-! ## When a filter can be compared -/

/-- The filter is absent or a number. -/
def Comparable (bound : Value) : Prop := bound = .none ∨ (bound.real?).isSome

theorem belowMin_ok_iff (amount : Int) (bound : Value) :
    (∃ b, belowMin amount bound = .ok b) ↔ Comparable bound := by
  cases bound <;> simp [belowMin, Comparable, Value.intLt?, Value.real?, typeError]

theorem aboveMax_ok_iff (amount : Int) (bound : Value) :
    (∃ b, aboveMax amount bound = .ok b) ↔ Comparable bound := by
  cases bound <;> simp [aboveMax, Comparable, Value.intGt?, Value.real?, typeError]

/-- The comparisons `_matching` makes at an entry are between numbers: the minimum, and the
maximum if the minimum lets the entry through. -/
def EntryComparable (cutoff : ℚ) (filters : Filters) (entry : WindowEntry) : Prop :=
  cutoff ≤ entry.score → Comparable filters.minAmountMinor ∧
    (belowMin entry.amount filters.minAmountMinor = .ok false → Comparable filters.maxAmountMinor)

theorem accepts_ok_iff :
    (∃ b, accepts cutoff filters entry = .ok b) ↔ EntryComparable cutoff filters entry := by
  unfold accepts EntryComparable
  by_cases hscore : entry.score < cutoff
  · simp [hscore, not_le.mpr hscore]
  · rw [if_neg hscore]
    simp only [not_lt.mp hscore, true_implies]
    rw [← belowMin_ok_iff entry.amount, ← aboveMax_ok_iff entry.amount]
    cases hmin : belowMin entry.amount filters.minAmountMinor with
    | error e => simp [bind, Except.bind]
    | ok below =>
      cases below with
      | true => simp [bind, Except.bind, pure, Except.pure]
      | false =>
        cases hmax : aboveMax entry.amount filters.maxAmountMinor with
        | error e => simp [bind, Except.bind]
        | ok above => cases above <;> simp [bind, Except.bind, pure, Except.pure]

theorem matchingFrom_ok_iff {window : List WindowEntry} :
    (∃ amounts, matchingFrom cutoff filters window = .ok amounts) ↔
      ∀ entry ∈ window, EntryComparable cutoff filters entry := by
  induction window with
  | nil => simp [matchingFrom]
  | cons entry rest ih =>
    rw [List.forall_mem_cons, ← ih, ← accepts_ok_iff]
    cases ha : accepts cutoff filters entry with
    | error e => simp [matchingFrom, ha, bind, Except.bind]
    | ok b =>
      cases hr : matchingFrom cutoff filters rest <;>
        simp [matchingFrom, ha, hr, bind, Except.bind, pure, Except.pure]

/-! ## What a comparison with something else raises -/

theorem belowMin_error (h : belowMin amount bound = .error e) : e = .escaped .typeError := by
  cases bound <;> simp [belowMin, Value.intLt?, Value.real?, typeError] at h <;> exact h.symm

theorem aboveMax_error (h : aboveMax amount bound = .error e) : e = .escaped .typeError := by
  cases bound <;> simp [aboveMax, Value.intGt?, Value.real?, typeError] at h <;> exact h.symm

theorem accepts_error (h : accepts cutoff filters entry = .error e) :
    e = .escaped .typeError := by
  unfold accepts at h
  split at h
  · cases h
  · cases hmin : belowMin entry.amount filters.minAmountMinor with
    | error e' =>
      rw [hmin] at h
      cases h
      exact belowMin_error hmin
    | ok below =>
      rw [hmin] at h
      cases below with
      | true => cases h
      | false =>
        cases hmax : aboveMax entry.amount filters.maxAmountMinor with
        | error e' =>
          rw [hmax] at h
          cases h
          exact aboveMax_error hmax
        | ok above =>
          rw [hmax] at h
          cases above <;> cases h

theorem matchingFrom_error {window : List WindowEntry}
    (h : matchingFrom cutoff filters window = .error e) : e = .escaped .typeError := by
  induction window with
  | nil => cases h
  | cons entry rest ih =>
    cases ha : accepts cutoff filters entry with
    | error e' =>
      rw [matchingFrom, ha] at h
      cases h
      exact accepts_error ha
    | ok accepted =>
      cases hr : matchingFrom cutoff filters rest with
      | error e' =>
        rw [matchingFrom, ha, hr] at h
        cases h
        exact ih hr
      | ok amounts =>
        rw [matchingFrom, ha, hr] at h
        cases h

/-- `_matching` yields the entry's amount. -/
def yields (cutoff : ℚ) (filters : Filters) (entry : WindowEntry) : Bool :=
  match accepts cutoff filters entry with
  | .ok accepted => accepted
  | .error _ => false

theorem matchingFrom_eq_ok {entries : List WindowEntry}
    (h : ∀ entry ∈ entries, EntryComparable cutoff filters entry) :
    matchingFrom cutoff filters entries =
      .ok ((entries.filter (yields cutoff filters)).map WindowEntry.amount) := by
  induction entries with
  | nil => rfl
  | cons entry rest ih =>
    obtain ⟨hentry, hrest⟩ := List.forall_mem_cons.mp h
    obtain ⟨accepted, haccepts⟩ := accepts_ok_iff.mpr hentry
    have hyields : yields cutoff filters entry = accepted := by rw [yields, haccepts]
    rw [matchingFrom, haccepts, ih hrest, List.filter_cons, hyields]
    cases accepted <;> rfl

theorem matchingFrom_eq_typeError {entries : List WindowEntry}
    (h : ¬ ∀ entry ∈ entries, EntryComparable cutoff filters entry) :
    matchingFrom cutoff filters entries = typeError := by
  cases hm : matchingFrom cutoff filters entries with
  | ok amounts => exact absurd (matchingFrom_ok_iff.mp ⟨amounts, hm⟩) h
  | error e =>
    rw [matchingFrom_error hm]
    rfl

theorem yields_of_lt (h : entry.score < cutoff) : yields cutoff filters entry = false := by
  rw [yields, accepts, if_pos h]

theorem accepts_unfiltered (h : cutoff ≤ entry.score) : accepts cutoff {} entry = .ok true := by
  rw [accepts, if_neg (not_lt.mpr h)]
  rfl

/-- Without filters every entry from the cutoff on is yielded. -/
theorem matchingFrom_unfiltered {entries : List WindowEntry}
    (h : ∀ entry ∈ entries, cutoff ≤ entry.score) :
    matchingFrom cutoff {} entries = .ok (entries.map WindowEntry.amount) := by
  induction entries with
  | nil => rfl
  | cons entry rest ih =>
    obtain ⟨hentry, hrest⟩ := List.forall_mem_cons.mp h
    rw [matchingFrom, accepts_unfiltered hentry, ih hrest]
    rfl

end Window

end ComplyLayer
