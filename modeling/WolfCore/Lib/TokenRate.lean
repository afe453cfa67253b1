import Mathlib.Tactic

/-!
# Token buckets

A token bucket holds at most `burst` tokens and gets `rate` new ones in each unit of time.  A call
takes a token if there is one, and is denied otherwise.  The bucket is kept as the tokens it had at
the time of the last call that took one; tokens are counted in rationals.

* `level`: the tokens at a later time, and `allow`: a call;
* `level_later`: the level at one time determines that at all later times;
* `level_allow`: what a call does to the level;
* `level_of_idle`: a bucket that was left alone long enough is full.
-/

namespace TokenRate

structure Bucket where
  tokens : ℚ
  last : ℤ
  deriving DecidableEq

section

variable (rate burst : ℚ)

/-- A new bucket, which is full. -/
def full (now : ℤ) : Bucket := ⟨burst, now⟩

/-- The time since the last call that took a token; a clock that went back counts as no time. -/
def Bucket.elapsed (b : Bucket) (now : ℤ) : ℤ := max 0 (now - b.last)

/-- The tokens at a time. -/
def level (b : Bucket) (now : ℤ) : ℚ := min burst (b.tokens + b.elapsed now * rate)

/-- A call, and whether it is allowed. -/
def allow (b : Bucket) (now : ℤ) : Bucket × Bool :=
  if 1 ≤ level rate burst b now then (⟨level rate burst b now - 1, now⟩, true) else (b, false)

/-- At a time the bucket knows about, it holds no debts. -/
structure Sane (b : Bucket) (now : ℤ) : Prop where
  tokens : 0 ≤ b.tokens
  last : b.last ≤ now

end

variable {rate burst : ℚ} {b : Bucket} {now : ℤ}

theorem level_le : level rate burst b now ≤ burst := min_le_left _ _

theorem elapsed_nonneg : (0 : ℚ) ≤ b.elapsed now := by exact_mod_cast le_max_left 0 (now - b.last)

theorem elapsed_eq (h : b.last ≤ now) : b.elapsed now = now - b.last := max_eq_right (by omega)

theorem level_nonneg (hrate : 0 ≤ rate) (hburst : 0 ≤ burst) (h : 0 ≤ b.tokens) :
    0 ≤ level rate burst b now :=
  le_min hburst (add_nonneg h (mul_nonneg elapsed_nonneg hrate))

/-- A new bucket is full at all times. -/
theorem level_full (hrate : 0 ≤ rate) {later : ℤ} :
    level rate burst (full burst now) later = burst :=
  min_eq_left (le_add_of_nonneg_right (mul_nonneg elapsed_nonneg hrate))

/-- **The level at one time determines that at all later times.** -/
theorem level_later (hrate : 0 ≤ rate) (hlast : b.last ≤ now) {later : ℤ} (h : now ≤ later) :
    level rate burst b later = min burst (level rate burst b now + (later - now) * rate) := by
  have hgain : 0 ≤ ((later : ℚ) - now) * rate := by
    have : (now : ℚ) ≤ later := by exact_mod_cast h
    exact mul_nonneg (by linarith) hrate
  have hsum : b.tokens + (later - b.last : ℚ) * rate =
      b.tokens + (now - b.last : ℚ) * rate + (later - now) * rate := by ring
  unfold level
  rw [elapsed_eq hlast, elapsed_eq (hlast.trans h), Int.cast_sub, Int.cast_sub, hsum, min_add,
    ← min_assoc, min_eq_left (le_add_of_nonneg_right hgain)]

theorem allow_out : (allow rate burst b now).2 = decide (1 ≤ level rate burst b now) := by
  unfold allow
  split_ifs with h <;> simp [h]

/-- **A call that is allowed takes one token**, and one that is denied takes none. -/
theorem level_allow : level rate burst (allow rate burst b now).1 now =
    if 1 ≤ level rate burst b now then level rate burst b now - 1 else level rate burst b now := by
  unfold allow
  split_ifs with h
  · have hle : level rate burst b now ≤ burst := level_le
    show min burst (level rate burst b now - 1 + (max 0 (now - now) : ℤ) * rate) = _
    rw [sub_self, max_self, Int.cast_zero, zero_mul, add_zero]
    exact min_eq_right (by linarith)
  · rfl

theorem Sane.later (h : Sane b now) {later : ℤ} (hlater : now ≤ later) : Sane b later :=
  ⟨h.tokens, h.last.trans hlater⟩

theorem sane_allow (h : Sane b now) : Sane (allow rate burst b now).1 now := by
  unfold allow
  split_ifs with hone
  · exact ⟨by simpa using hone, le_rfl⟩
  · exact h

/-- **A bucket that was left alone long enough is full.** -/
theorem level_of_idle (h : Sane b now) (hidle : burst ≤ (now - b.last) * rate) :
    level rate burst b now = burst := by
  have htokens := h.tokens
  unfold level
  rw [elapsed_eq h.last, Int.cast_sub]
  exact min_eq_left (by linarith)

end TokenRate
