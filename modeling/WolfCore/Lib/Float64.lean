import Mathlib.Data.Int.Log
import Mathlib.Tactic

/-!
# Rounding to `float64`

The operations of IEEE 754 on `float64` give the exact result, rounded to 53 significant bits, to
even between two neighbours.  A float is the rational number it stands for.  Only numbers of the
normal range are meant: nothing overflows, and nothing is so small that it has fewer bits.  Where a
float comes from outside, it may also be an infinity or no number at all (`Value`).

`round_intCast` says that integers of at most 53 bits are floats.
-/

namespace Float64

/-- A float as a program may meet it. -/
inductive Value
  | finite (q : ℚ)
  | infinite (negative : Bool)
  | nan

/-- The comparison: it is false whenever one side is no number. -/
def Value.lt : Value → Value → Bool
  | .finite p, .finite q => p < q
  | .finite _, .infinite negative => !negative
  | .infinite negative, .finite _ => negative
  | .infinite negative, .infinite negative' => negative && !negative'
  | .nan, _ => false
  | _, .nan => false

/-- The nearest integer, the even one of two. -/
def nearest (x : ℚ) : ℤ :=
  if x - ⌊x⌋ < 1 / 2 then ⌊x⌋
  else if 1 / 2 < x - ⌊x⌋ then ⌊x⌋ + 1
  else if ⌊x⌋ % 2 = 0 then ⌊x⌋ else ⌊x⌋ + 1

/-- The unit in the last of 53 places. -/
def ulp (x : ℚ) : ℚ := 2 ^ (Int.log 2 |x| - 52)

/-- The nearest float. -/
def round (x : ℚ) : ℚ := if x = 0 then 0 else nearest (x / ulp x) * ulp x

/-- The conversion to an integer, towards zero. -/
def truncate (x : ℚ) : ℤ := x.num.tdiv x.den

@[simp] theorem nearest_intCast (n : ℤ) : nearest n = n := by
  simp [nearest]

theorem ulp_pos (x : ℚ) : 0 < ulp x := by
  unfold ulp
  positivity

@[simp] theorem truncate_intCast (n : ℤ) : truncate n = n := by
  simp [truncate]

/-- An integer of at most 53 bits is a float. -/
theorem round_intCast {n : ℤ} (h : |n| < 2 ^ 53) : round n = n := by
  by_cases hzero : n = 0
  · simp [round, hzero]
  have hne : (n : ℚ) ≠ 0 := by exact_mod_cast hzero
  -- the last place is at most 1, so the integer is a multiple of it
  have hlog : Int.log 2 |(n : ℚ)| < 53 := by
    rw [← Int.lt_zpow_iff_log_lt (by decide) (abs_pos.2 hne)]
    exact_mod_cast h
  obtain ⟨k, hk⟩ : ∃ k : ℕ, 52 - Int.log 2 |(n : ℚ)| = k := Int.eq_ofNat_of_zero_le (by omega)
  have hulp : ulp n = ((2 : ℚ) ^ k)⁻¹ := by
    have hexp : Int.log 2 |(n : ℚ)| - 52 = -(k : ℤ) := by omega
    rw [ulp, hexp, zpow_neg, zpow_natCast]
  have hmultiple : (n : ℚ) / ulp n = ((n * 2 ^ k : ℤ) : ℚ) := by
    rw [hulp, div_inv_eq_mul]
    push_cast
    ring
  unfold round
  rw [if_neg hne, hmultiple, nearest_intCast, ← hmultiple, div_mul_cancel₀ _ (ulp_pos _).ne']

end Float64

namespace Go

/-- `Duration.Seconds`, of a duration in nanoseconds. -/
def seconds (d : ℤ) : ℚ :=
  Float64.round (Float64.round (d.tdiv 1000000000) +
    Float64.round (Float64.round (d.tmod 1000000000) / 1000000000))

/-- A whole number of seconds is exact. -/
theorem seconds_whole {n : ℤ} (h : |n| < 2 ^ 53) : seconds (n * 1000000000) = n := by
  have hdiv : (n * 1000000000).tdiv 1000000000 = n := Int.mul_tdiv_cancel n (by decide)
  have hmod : (n * 1000000000).tmod 1000000000 = 0 := Int.mul_tmod_left n 1000000000
  have hzero : Float64.round 0 = 0 := if_pos rfl
  unfold seconds
  rw [hdiv, hmod]
  simp [hzero, Float64.round_intCast h]

end Go
