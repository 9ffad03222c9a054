import Mathlib.Algebra.GroupWithZero.Nat
import Mathlib.Data.List.Basic
import Mathlib.Order.Lattice

/-!
# Dates of the Gregorian calendar

Units that are counted through blocks of given sizes fall into a block and have
a place in it, and both follow the order of the units.  The days of an era of
400 years are counted through its years, and the days of a year through its
months.
-/

namespace IqrfDaemon.Calendar

/-! ## Blocks -/

/-- The block that a unit falls into, and its place there. -/
def locate : List ℕ → ℕ → ℕ × ℕ
  | [], n => (0, n)
  | size :: sizes, n =>
      if n < size then (0, n)
      else ((locate sizes (n - size)).1 + 1, (locate sizes (n - size)).2)

theorem locate_of_lt {size n : ℕ} (h : n < size) (sizes : List ℕ) :
    locate (size :: sizes) n = (0, n) := if_pos h

theorem locate_of_le {size n : ℕ} (h : size ≤ n) (sizes : List ℕ) :
    locate (size :: sizes) n =
      ((locate sizes (n - size)).1 + 1, (locate sizes (n - size)).2) :=
  if_neg (Nat.not_lt.mpr h)

theorem locate_lt {n m : ℕ} (h : n < m) (sizes : List ℕ) :
    (locate sizes n).1 < (locate sizes m).1 ∨
      (locate sizes n).1 = (locate sizes m).1 ∧ (locate sizes n).2 < (locate sizes m).2 := by
  induction sizes generalizing n m with
  | nil => exact Or.inr ⟨rfl, h⟩
  | cons size sizes ih =>
      rcases Nat.lt_or_ge m size with hm | hm
      · rw [locate_of_lt hm, locate_of_lt (h.trans hm)]
        exact Or.inr ⟨rfl, h⟩
      · rcases Nat.lt_or_ge n size with hn | hn
        · rw [locate_of_lt hn, locate_of_le hm]
          exact Or.inl (Nat.succ_pos _)
        · rw [locate_of_le hn, locate_of_le hm]
          rcases ih (n := n - size) (m := m - size) (by omega) with hlt | ⟨heq, hlt⟩
          · exact Or.inl (Nat.succ_lt_succ hlt)
          · exact Or.inr ⟨congrArg Nat.succ heq, hlt⟩

/-- The place is one of the block. -/
theorem locate_bounds {sizes : List ℕ} {n : ℕ} (h : n < sizes.sum) :
    ∃ size, sizes[(locate sizes n).1]? = some size ∧ (locate sizes n).2 < size := by
  induction sizes generalizing n with
  | nil => exact absurd h (Nat.not_lt_zero n)
  | cons size sizes ih =>
      rw [List.sum_cons] at h
      rcases Nat.lt_or_ge n size with hn | hn
      · rw [locate_of_lt hn]
        exact ⟨size, rfl, hn⟩
      · rw [locate_of_le hn]
        exact ih (by omega)

/-! ## Years and months -/

def isLeap (year : ℕ) : Bool := year % 4 = 0 && (year % 100 != 0 || year % 400 = 0)

def yearSize (year : ℕ) : ℕ := if isLeap year then 366 else 365

/-- The years of an era. -/
def yearSizes : List ℕ := (List.range 400).map yearSize

def monthSizes (leap : Bool) : List ℕ :=
  [31, if leap then 29 else 28, 31, 30, 31, 30, 31, 31, 30, 31, 30, 31]

theorem sum_yearSizes : yearSizes.sum = 146097 := by decide +kernel

theorem length_yearSizes : yearSizes.length = 400 := by simp [yearSizes]

theorem sum_monthSizes (year : ℕ) : (monthSizes (isLeap year)).sum = yearSize year := by
  unfold yearSize
  cases isLeap year <;> rfl

theorem monthSizes_le (leap : Bool) : ∀ size ∈ monthSizes leap, size ≤ 31 := by
  cases leap <;> decide

/-- A date; months and days count from one. -/
structure Date where
  year : ℤ
  month : ℕ
  day : ℕ
  deriving DecidableEq

/-- The date of a day that is counted from the first of January 1970. -/
def dateOf (day : ℤ) : Date :=
  -- the era begins with the first of January of a year that 400 divides
  let sinceZero := day + 719528
  let inYear := locate yearSizes (sinceZero % 146097).toNat
  let inMonth := locate (monthSizes (isLeap inYear.1)) inYear.2
  ⟨400 * (sinceZero / 146097) + inYear.1, inMonth.1 + 1, inMonth.2 + 1⟩

section Bounds

variable (day : ℤ)

/-- A day of an era lies in one of its years. -/
theorem locate_yearSizes :
    (locate yearSizes (day % 146097).toNat).1 < 400 ∧
      (locate yearSizes (day % 146097).toNat).2 <
        yearSize (locate yearSizes (day % 146097).toNat).1 := by
  have hlt : (day % 146097).toNat < yearSizes.sum := by
    rw [sum_yearSizes]
    omega
  obtain ⟨size, hsize, hplace⟩ := locate_bounds hlt
  obtain ⟨hyear, hget⟩ := List.getElem?_eq_some_iff.mp hsize
  rw [length_yearSizes] at hyear
  refine ⟨hyear, ?_⟩
  rw [← hget] at hplace
  simpa [yearSizes] using hplace

theorem dateOf_bounds : (dateOf day).month ≤ 12 ∧ (dateOf day).day ≤ 31 := by
  obtain ⟨-, hplace⟩ := locate_yearSizes (day + 719528)
  rw [← sum_monthSizes] at hplace
  obtain ⟨size, hsize, hlast⟩ := locate_bounds hplace
  have hmonth := (List.getElem?_eq_some_iff.mp hsize).1
  have hbound := monthSizes_le _ size (List.mem_of_getElem? hsize)
  exact ⟨hmonth, hlast.trans_le hbound⟩

end Bounds

/-- Dates are in the order of their days. -/
theorem dateOf_lt {d d' : ℤ} (h : d < d') :
    (dateOf d).year < (dateOf d').year ∨
      (dateOf d).year = (dateOf d').year ∧ ((dateOf d).month < (dateOf d').month ∨
        (dateOf d).month = (dateOf d').month ∧ (dateOf d).day < (dateOf d').day) := by
  have hd := (locate_yearSizes (d + 719528)).1
  have hd' := (locate_yearSizes (d' + 719528)).1
  rcases lt_or_eq_of_le (show (d + 719528) / 146097 ≤ (d' + 719528) / 146097 by omega) with
    hera | hera
  · left
    simp only [dateOf]
    omega
  · have hday : ((d + 719528) % 146097).toNat < ((d' + 719528) % 146097).toNat := by omega
    rcases locate_lt hday yearSizes with hyear | ⟨hyear, hplace⟩
    · left
      simp only [dateOf, hera]
      omega
    · right
      simp only [dateOf, hera, hyear]
      refine ⟨trivial, ?_⟩
      rcases locate_lt hplace (monthSizes (isLeap
        (locate yearSizes ((d' + 719528) % 146097).toNat).1)) with hmonth | ⟨hmonth, hlast⟩
      · exact Or.inl (Nat.succ_lt_succ hmonth)
      · exact Or.inr ⟨congrArg Nat.succ hmonth, Nat.succ_lt_succ hlast⟩

example : dateOf 20000 = ⟨2024, 10, 4⟩ := by decide +kernel

end IqrfDaemon.Calendar
