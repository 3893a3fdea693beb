import Mathlib.Order.Monotone.Basic

/-!
The proleptic Gregorian calendar.

The number of a day counts the days of the years and of the months before it. A later date has
a greater number, and a later time of day comes on top.
-/

namespace MarineDelivery.Calendar

def isLeap (year : ℕ) : Bool := year % 4 = 0 && (year % 100 ≠ 0 || year % 400 = 0)

/-- The months are counted from one. -/
def daysInMonth (year : ℕ) : ℕ → ℕ
  | 1 | 3 | 5 | 7 | 8 | 10 | 12 => 31
  | 4 | 6 | 9 | 11 => 30
  | 2 => if isLeap year then 29 else 28
  | _ => 0

def daysBeforeMonth (year : ℕ) : ℕ → ℕ
  | 0 => 0
  | month + 1 => daysBeforeMonth year month + daysInMonth year month

def daysInYear (year : ℕ) : ℕ := daysBeforeMonth year 13

example : daysInYear 1900 = 365 ∧ daysInYear 2024 = 366 := by decide

def daysBeforeYear : ℕ → ℕ
  | 0 => 0
  | year + 1 => daysBeforeYear year + daysInYear year

/-- The number of a day. -/
def ordinal (year month day : ℕ) : ℕ := daysBeforeYear year + daysBeforeMonth year month + day

lemma monotone_daysBeforeMonth (year : ℕ) : Monotone (daysBeforeMonth year) :=
  monotone_nat_of_le_succ fun _ => Nat.le_add_right _ _

lemma monotone_daysBeforeYear : Monotone daysBeforeYear :=
  monotone_nat_of_le_succ fun _ => Nat.le_add_right _ _

lemma ordinal_lt_of_year {y m d y' m' d' : ℕ} (hm : m ≤ 12) (hd : d ≤ daysInMonth y m)
    (hd' : 1 ≤ d') (h : y < y') : ordinal y m d < ordinal y' m' d' := by
  have hmonth : daysBeforeMonth y (m + 1) ≤ daysInYear y :=
    monotone_daysBeforeMonth y (Nat.succ_le_succ hm)
  have hyear : daysBeforeYear (y + 1) ≤ daysBeforeYear y' := monotone_daysBeforeYear h
  rw [daysBeforeMonth] at hmonth
  rw [daysBeforeYear] at hyear
  unfold ordinal
  omega

lemma ordinal_lt_of_month {y m d m' d' : ℕ} (hd : d ≤ daysInMonth y m) (hd' : 1 ≤ d')
    (h : m < m') : ordinal y m d < ordinal y m' d' := by
  have hmonth : daysBeforeMonth y (m + 1) ≤ daysBeforeMonth y m' := monotone_daysBeforeMonth y h
  rw [daysBeforeMonth] at hmonth
  unfold ordinal
  omega

/-- **Later dates have greater numbers.** -/
theorem ordinal_lt_iff {y m d y' m' d' : ℕ} (hm : m ≤ 12) (hd : 1 ≤ d)
    (hdays : d ≤ daysInMonth y m) (hm' : m' ≤ 12) (hd' : 1 ≤ d')
    (hdays' : d' ≤ daysInMonth y' m') :
    ordinal y m d < ordinal y' m' d' ↔ y < y' ∨ y = y' ∧ (m < m' ∨ m = m' ∧ d < d') := by
  rcases Nat.lt_trichotomy y y' with hy | rfl | hy
  · have hlt : ordinal y m d < ordinal y' m' d' := ordinal_lt_of_year hm hdays hd' hy
    omega
  · rcases Nat.lt_trichotomy m m' with hmonth | rfl | hmonth
    · have hlt : ordinal y m d < ordinal y m' d' := ordinal_lt_of_month hdays hd' hmonth
      omega
    · unfold ordinal
      omega
    · have hlt : ordinal y m' d' < ordinal y m d := ordinal_lt_of_month hdays' hd hmonth
      omega
  · have hlt : ordinal y' m' d' < ordinal y m d := ordinal_lt_of_year hm' hdays' hd hy
    omega

lemma ordinal_inj {y m d y' m' d' : ℕ} (hm : m ≤ 12) (hd : 1 ≤ d)
    (hdays : d ≤ daysInMonth y m) (hm' : m' ≤ 12) (hd' : 1 ≤ d')
    (hdays' : d' ≤ daysInMonth y' m') :
    ordinal y m d = ordinal y' m' d' ↔ y = y' ∧ m = m' ∧ d = d' := by
  have hlt := ordinal_lt_iff hm hd hdays hm' hd' hdays'
  have hgt := ordinal_lt_iff hm' hd' hdays' hm hd hdays
  omega

/-! ### Times of day -/

lemma mul_add_lt_iff {k x y u v : ℕ} (hu : u < k) (hv : v < k) :
    x * k + u < y * k + v ↔ x < y ∨ x = y ∧ u < v := by
  rcases Nat.lt_trichotomy x y with h | rfl | h
  · have hle := Nat.mul_le_mul_right k (Nat.succ_le_of_lt h)
    rw [Nat.succ_mul] at hle
    omega
  · omega
  · have hle := Nat.mul_le_mul_right k (Nat.succ_le_of_lt h)
    rw [Nat.succ_mul] at hle
    omega

lemma mul_add_inj {k x y u v : ℕ} (hu : u < k) (hv : v < k) :
    x * k + u = y * k + v ↔ x = y ∧ u = v := by
  have hlt := mul_add_lt_iff (x := x) (y := y) hu hv
  have hgt := mul_add_lt_iff (x := y) (y := x) hv hu
  omega

end MarineDelivery.Calendar
