/-!
# Dates and months

The dates of the years 1 to 9999, in order. Months are numbered in one sequence, and the dates of a
month are those from a first day up to the next one.
-/

namespace ComplyLayer.Theory

def isLeap (year : Nat) : Bool := year % 4 = 0 && (year % 100 ≠ 0 || year % 400 = 0)

def daysInMonth (year month : Nat) : Nat :=
  if month = 2 then if isLeap year then 29 else 28
  else if month ∈ [4, 6, 9, 11] then 30
  else 31

theorem one_le_daysInMonth (year month : Nat) : 1 ≤ daysInMonth year month := by
  unfold daysInMonth
  split
  · split <;> decide
  · split <;> decide

structure Date where
  year : Nat
  month : Nat
  day : Nat
  year_mem : 1 ≤ year ∧ year ≤ 9999
  month_mem : 1 ≤ month ∧ month ≤ 12
  day_mem : 1 ≤ day ∧ day ≤ daysInMonth year month
  deriving DecidableEq

namespace Date

/-- `date(year, month, day)`, `none` where it raises `ValueError`. -/
def new? (year month day : Nat) : Option Date :=
  if h : (1 ≤ year ∧ year ≤ 9999) ∧ (1 ≤ month ∧ month ≤ 12) ∧ 1 ≤ day ∧ day ≤ daysInMonth year month
  then some ⟨year, month, day, h.1, h.2.1, h.2.2⟩
  else none

instance : LE Date where
  le a b := a.year < b.year ∨
    a.year = b.year ∧ (a.month < b.month ∨ a.month = b.month ∧ a.day ≤ b.day)

instance : LT Date where
  lt a b := a.year < b.year ∨
    a.year = b.year ∧ (a.month < b.month ∨ a.month = b.month ∧ a.day < b.day)

instance (a b : Date) : Decidable (a ≤ b) := inferInstanceAs (Decidable (_ ∨ _))

instance (a b : Date) : Decidable (a < b) := inferInstanceAs (Decidable (_ ∨ _))

theorem le_def (a b : Date) : a ≤ b ↔ a.year < b.year ∨
    a.year = b.year ∧ (a.month < b.month ∨ a.month = b.month ∧ a.day ≤ b.day) := Iff.rfl

theorem lt_def (a b : Date) : a < b ↔ a.year < b.year ∨
    a.year = b.year ∧ (a.month < b.month ∨ a.month = b.month ∧ a.day < b.day) := Iff.rfl

/-- The months, numbered through the years. -/
def monthIndex (d : Date) : Nat := 12 * d.year + d.month - 1

/-- December of the year 9999. -/
def lastMonth : Nat := 12 * 9999 + 12 - 1

variable {s d : Date}

theorem monthIndex_le_lastMonth (d : Date) : d.monthIndex ≤ lastMonth := by
  have hyear := d.year_mem
  have hmonth := d.month_mem
  simp only [monthIndex, lastMonth]
  omega

theorem monthIndex_eq_iff : s.monthIndex = d.monthIndex ↔ s.year = d.year ∧ s.month = d.month := by
  have hs := s.month_mem
  have hd := d.month_mem
  simp only [monthIndex]
  omega

/-- A first day is no later than the dates of its month and of those after it. -/
theorem le_iff_of_first (h : s.day = 1) : s ≤ d ↔ s.monthIndex ≤ d.monthIndex := by
  have hs := s.month_mem
  have hd := d.month_mem
  have hday := d.day_mem
  rw [le_def, monthIndex, monthIndex]
  omega

/-- The dates before a first day are those of the months before. -/
theorem lt_iff_of_first (h : s.day = 1) : d < s ↔ d.monthIndex < s.monthIndex := by
  have hs := s.month_mem
  have hd := d.month_mem
  have hday := d.day_mem
  rw [lt_def, monthIndex, monthIndex]
  omega

theorem eq_of_first (hs : s.day = 1) (hd : d.day = 1) (h : s.monthIndex = d.monthIndex) : s = d := by
  obtain ⟨hyear, hmonth⟩ := monthIndex_eq_iff.mp h
  cases s
  cases d
  cases hyear
  cases hmonth
  cases hs
  cases hd
  rfl

theorem new?_eq_some_iff {year month day : Nat} : new? year month day = some d ↔
    d.year = year ∧ d.month = month ∧ d.day = day := by
  constructor
  · intro h
    unfold new? at h
    split at h
    · cases h
      exact ⟨rfl, rfl, rfl⟩
    · cases h
  · rintro ⟨rfl, rfl, rfl⟩
    exact dif_pos ⟨d.year_mem, d.month_mem, d.day_mem⟩

/-- There is a first day of each month of the years there are. -/
theorem exists_new?_first_iff {year month : Nat} : (∃ d, new? year month 1 = some d) ↔
    (1 ≤ year ∧ year ≤ 9999) ∧ 1 ≤ month ∧ month ≤ 12 := by
  constructor
  · rintro ⟨d, h⟩
    obtain ⟨rfl, rfl, -⟩ := new?_eq_some_iff.mp h
    exact ⟨d.year_mem, d.month_mem⟩
  · rintro ⟨hyear, hmonth⟩
    exact ⟨_, dif_pos ⟨hyear, hmonth, Nat.le_refl 1, one_le_daysInMonth year month⟩⟩

end Date

end ComplyLayer.Theory
