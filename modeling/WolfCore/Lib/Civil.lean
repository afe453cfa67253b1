import Mathlib.Tactic
import Mathlib.Data.List.GetD

/-!
# The civil calendar

Dates of the proleptic Gregorian calendar and their numbers: day 0 is January 1 of year 1.
`Date.ofDay` finds the date of a day by splitting off cycles of 400, 100, 4 and 1 years, and then
the months; `Date.toDay` counts the days before a date.  The one inverts the other
(`toDay_ofDay`), and yields valid dates only (`ofDay_valid`).
-/

namespace Civil

def isLeap (year : ℤ) : Bool := year % 4 = 0 && (year % 100 ≠ 0 || year % 400 = 0)

def months (year : ℤ) : List ℕ :=
  [31, if isLeap year then 29 else 28, 31, 30, 31, 30, 31, 31, 30, 31, 30, 31]

theorem month_le (year : ℤ) (i : ℕ) : (months year).getD i 0 ≤ 31 := by
  have hall : ∀ len ∈ months year, len ≤ 31 := by
    unfold months
    split_ifs <;> decide
  by_cases hi : i < (months year).length
  · rw [List.getD_eq_getElem _ _ hi]
    exact hall _ (List.getElem_mem hi)
  · rw [List.getD_eq_default _ _ (by omega)]
    exact Nat.zero_le _

/-- The number of days before a year. -/
def daysBefore (year : ℤ) : ℤ :=
  365 * (year - 1) + (year - 1) / 4 - (year - 1) / 100 + (year - 1) / 400

/-- A year, a month from 1 and a day from 1. -/
structure Date where
  year : ℤ
  month : ℕ
  day : ℕ
  deriving DecidableEq

/-- The month exists, and the day exists in it. -/
def Date.Valid (d : Date) : Prop :=
  1 ≤ d.month ∧ d.month ≤ 12 ∧ 1 ≤ d.day ∧ d.day ≤ (months d.year).getD (d.month - 1) 0

instance (d : Date) : Decidable d.Valid := inferInstanceAs (Decidable (_ ∧ _))

def Date.toDay (d : Date) : ℤ :=
  daysBefore d.year + (((months d.year).take (d.month - 1)).sum + (d.day - 1) : ℕ)

/-- The segment of a sequence of segments in which a position lies, and the offset in it. -/
def locate : List ℕ → ℕ → ℕ × ℕ
  | [], n => (0, n)
  | len :: lens, n =>
      if n < len then (0, n)
      else ((locate lens (n - len)).1 + 1, (locate lens (n - len)).2)

theorem locate_spec {lens : List ℕ} {n : ℕ} (h : n < lens.sum) :
    (locate lens n).1 < lens.length ∧ (locate lens n).2 < lens.getD (locate lens n).1 0 ∧
      (lens.take (locate lens n).1).sum + (locate lens n).2 = n := by
  induction lens generalizing n with
  | nil => simp at h
  | cons len lens ih =>
    unfold locate
    split_ifs with hn
    · simp [hn]
    · rw [List.sum_cons] at h
      obtain ⟨hidx, hoff, hsum⟩ := ih (n := n - len) (by omega)
      refine ⟨by simpa using hidx, by simpa using hoff, ?_⟩
      simp only [List.take_succ_cons, List.sum_cons]
      omega

/-! ### The year of a day -/

/-- The year of a day, and the day of the year from 0. -/
def splitYear (n : ℤ) : ℤ × ℕ :=
  let r := n % 146097
  let n100 := min (r / 36524) 3
  let r := r - 36524 * n100
  let n4 := r / 1461
  let r := r - 1461 * n4
  let n1 := min (r / 365) 3
  (400 * (n / 146097) + 100 * n100 + 4 * n4 + n1 + 1, (r - 365 * n1).toNat)

theorem sum_months (year : ℤ) :
    (months year).sum = if isLeap year then 366 else 365 := by
  unfold months
  split_ifs <;> rfl

/-- The days before a year, from the cycles that precede it. -/
theorem daysBefore_cycles {a b c d : ℤ} (hb : 0 ≤ b ∧ b ≤ 3) (hc : 0 ≤ c ∧ c ≤ 24)
    (hd : 0 ≤ d ∧ d ≤ 3) :
    daysBefore (400 * a + 100 * b + 4 * c + d + 1) = 146097 * a + 36524 * b + 1461 * c +
      365 * d := by
  unfold daysBefore
  omega

/-- The last year of a cycle of four is a leap year, unless it ends a cycle of a hundred that does
not end one of four hundred. -/
theorem isLeap_cycles {a b c : ℤ} (hc : 0 ≤ c ∧ c ≤ 24) (h : c < 24 ∨ b = 3) :
    isLeap (400 * a + 100 * b + 4 * c + 3 + 1) = true := by
  simp only [isLeap, Bool.and_eq_true, Bool.or_eq_true, decide_eq_true_eq]
  omega

/-- The days of the year before a day, with those before its year, are all the days before it; and
the day lies in its year. -/
theorem splitYear_spec (n : ℤ) :
    daysBefore (splitYear n).1 + (splitYear n).2 = n ∧
      (splitYear n).2 < (months (splitYear n).1).sum := by
  rw [sum_months]
  unfold splitYear
  simp only
  set a := n / 146097 with ha
  set b := min (n % 146097 / 36524) 3 with hb
  set c := (n % 146097 - 36524 * b) / 1461 with hc
  set d := min ((n % 146097 - 36524 * b - 1461 * c) / 365) 3 with hd
  -- the last hundred years of a cycle, and the last year of four, may be a day longer
  have hb' : 0 ≤ b ∧ b ≤ 3 := by omega
  have hrest : 0 ≤ n % 146097 - 36524 * b ∧ n % 146097 - 36524 * b ≤ 36524 ∧
      (b = 3 ∨ n % 146097 - 36524 * b < 36524) := by omega
  have hc' : 0 ≤ c ∧ c ≤ 24 := by omega
  have hd' : 0 ≤ d ∧ d ≤ 3 := by omega
  have hday : 0 ≤ n % 146097 - 36524 * b - 1461 * c - 365 * d := by omega
  rw [daysBefore_cycles hb' hc' hd', Int.toNat_of_nonneg hday]
  refine ⟨by omega, ?_⟩
  split_ifs with hleap
  · omega
  · by_cases hlong : d = 3 ∧ (c < 24 ∨ b = 3)
    · have hyear : isLeap (400 * a + 100 * b + 4 * c + d + 1) = true := by
        rw [hlong.1]
        exact isLeap_cycles hc' hlong.2
      exact absurd hyear hleap
    · omega

def Date.ofDay (n : ℤ) : Date :=
  let pos := locate (months (splitYear n).1) (splitYear n).2
  ⟨(splitYear n).1, pos.1 + 1, pos.2 + 1⟩

theorem ofDay_valid (n : ℤ) : (Date.ofDay n).Valid := by
  obtain ⟨hidx, hoff, -⟩ := locate_spec (splitYear_spec n).2
  have hlen : (months (splitYear n).1).length = 12 := rfl
  simp only [Date.Valid, Date.ofDay, Nat.add_sub_cancel]
  omega

/-- Counting the days before the date of a day gives the day. -/
theorem toDay_ofDay (n : ℤ) : (Date.ofDay n).toDay = n := by
  obtain ⟨hyear, hlt⟩ := splitYear_spec n
  obtain ⟨-, -, hsum⟩ := locate_spec hlt
  simp only [Date.toDay, Date.ofDay, Nat.add_sub_cancel, hsum]
  exact hyear

end Civil
