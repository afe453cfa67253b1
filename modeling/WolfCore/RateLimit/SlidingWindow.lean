import WolfCore.RateLimit.Strategy

/-!
# Sliding windows (`infra/ratelimit/sliding_window.go`)

`SlidingWindow` keeps, for each key, the times of the calls it allowed.  A call drops those that
have left the window and is allowed if fewer than `rate` are left.

* `allow`: the method, and `slidingWindow`, the limiter as a family with one log for each key;
* `final_eq_filter`: the log of a key holds exactly the allowed calls that are still in the window;
* `allow_exact`: which calls are allowed.
-/

namespace WolfCore.RateLimit

open Keyed

/-- `SlidingWindow`.  The map gives nil for a key without calls; `rate` and `window` never
change. -/
structure SlidingWindow (rate window : ℤ) where
  timestamps : String → List ℤ

/-- `NewSlidingWindow`. -/
def newSlidingWindow (rate window : ℤ) : SlidingWindow rate window := ⟨fun _ => []⟩

/-- `pruneTimestamps`. -/
def pruneTimestamps (timestamps : List ℤ) (cutoff : ℤ) : List ℤ :=
  timestamps.dropWhile fun t => !decide (t > cutoff)

variable {rate window : ℤ}

/-- `SlidingWindow.Allow`, at the time `now`. -/
def SlidingWindow.allow (sw : SlidingWindow rate window) (key : String) (now : ℤ) :
    SlidingWindow rate window × Bool :=
  let cutoff := now + -window
  let existing := sw.timestamps key
  let pruned := pruneTimestamps existing cutoff
  if (pruned.length : ℤ) ≥ rate then (⟨Function.update sw.timestamps key pruned⟩, false)
  else (⟨Function.update sw.timestamps key (pruned ++ [now])⟩, true)

/-- What a call does to the log of its key. -/
def slidingStep (rate window : ℤ) (existing : List ℤ) (now : ℤ) : List ℤ × Bool :=
  let pruned := pruneTimestamps existing (now + -window)
  if (pruned.length : ℤ) ≥ rate then (pruned, false) else (pruned ++ [now], true)

/-- The limiter, with one log for each key. -/
def slidingWindow (rate window : ℤ) :
    Strategy (SlidingWindow rate window) (List ℤ) where
  act := SlidingWindow.allow
  entry := SlidingWindow.timestamps
  step := slidingStep rate window
  act_out := by
    intro sw key now
    simp only [SlidingWindow.allow, slidingStep]
    split_ifs <;> rfl
  entry_act := by
    intro sw key now
    simp only [SlidingWindow.allow, slidingStep]
    split_ifs <;> rfl

/-! ### The log of a key -/

/-- Of times in order, those after the cutoff are left. -/
theorem pruneTimestamps_eq_filter {timestamps : List ℤ} (hsorted : timestamps.Pairwise (· ≤ ·))
    (cutoff : ℤ) :
    pruneTimestamps timestamps cutoff = timestamps.filter fun t => cutoff < t := by
  induction timestamps with
  | nil => rfl
  | cons t timestamps ih =>
    obtain ⟨hfirst, hrest⟩ := List.pairwise_cons.1 hsorted
    by_cases ht : cutoff < t
    · have hall : ∀ t' ∈ t :: timestamps, decide (cutoff < t') = true := by
        intro t' ht'
        rcases List.mem_cons.1 ht' with rfl | ht'
        · simpa using ht
        · have := hfirst t' ht'
          simpa using (by omega : cutoff < t')
      rw [List.filter_eq_self.2 hall]
      simp [pruneTimestamps, ht]
    · have hdrop : pruneTimestamps (t :: timestamps) cutoff =
          pruneTimestamps timestamps cutoff := by
        simp [pruneTimestamps, ht]
      rw [hdrop, ih hrest, List.filter_cons_of_neg (by simpa using ht)]

/-- The call `now` of `slidingStep`, on the log of the calls so far. -/
theorem slidingStep_eq {log : List ℤ} (hsorted : log.Pairwise (· ≤ ·)) (now : ℤ) :
    slidingStep rate window log now =
      if rate ≤ (log.filter fun t => now - window < t).length then
        (log.filter fun t => now - window < t, false)
      else ((log.filter fun t => now - window < t) ++ [now], true) := by
  unfold slidingStep
  rw [pruneTimestamps_eq_filter hsorted, ← sub_eq_add_neg]

variable (rate window) in
/-- **The log of a key** holds, of the calls that were allowed, those that are in the window of any
later call. -/
theorem final_eq_filter {times : List ℤ} (hsorted : times.Pairwise (· ≤ ·)) :
    (final (slidingStep rate window) [] times).Sublist
        (allowedTimes (visits (slidingStep rate window) [] times)) ∧
      ∀ now, (∀ t ∈ times, t ≤ now) →
        (final (slidingStep rate window) [] times).filter (fun t => now - window < t) =
          (allowedTimes (visits (slidingStep rate window) [] times)).filter fun t =>
            now - window < t := by
  induction times using List.reverseRecOn with
  | nil => exact ⟨.slnil, fun _ _ => rfl⟩
  | append_singleton times t ih =>
    obtain ⟨hbefore, -, hlast⟩ := List.pairwise_append.1 hsorted
    obtain ⟨hsub, hlog⟩ := ih hbefore
    have ht := hlog t fun t' ht' => hlast t' ht' t (List.mem_singleton_self t)
    have hlogSorted := (hbefore.sublist (allowedTimes_sublist _ [] times)).sublist hsub
    rw [final_concat, visits_concat, allowedTimes_append, slidingStep_eq hlogSorted, ht]
    generalize allowedTimes (visits (slidingStep rate window) [] times) = allowed
    -- a later cutoff makes the earlier one redundant
    have hnext : ∀ now, t ≤ now → (allowed.filter fun t' => t - window < t').filter
        (fun t' => now - window < t') = allowed.filter fun t' => now - window < t' := by
      intro now hnow
      rw [List.filter_filter]
      refine List.filter_congr fun t' _ => ?_
      by_cases h : now - window < t'
      · have : t - window < t' := by omega
        simp [h, this]
      · simp [h]
    split_ifs with hfull
    · rw [allowedTimes_singleton_false, List.append_nil]
      exact ⟨List.filter_sublist, fun now hnow => hnext now (hnow t (by simp))⟩
    · rw [allowedTimes_singleton_true]
      refine ⟨List.filter_sublist.append (List.Sublist.refl _), fun now hnow => ?_⟩
      rw [List.filter_append, List.filter_append, hnext now (hnow t (by simp))]

/-- A call is allowed if fewer than `rate` allowed calls are in its window. -/
theorem visit_allowed_iff {times : List ℤ} (hsorted : times.Pairwise (· ≤ ·))
    {pre post : List (Visit ℤ (List ℤ) Bool)} {v : Visit ℤ (List ℤ) Bool}
    (h : visits (slidingStep rate window) [] times = pre ++ v :: post) :
    v.out = true ↔
      ((allowedTimes pre).countP (fun t => v.input - window < t ∧ t ≤ v.input) : ℤ) < rate := by
  obtain ⟨before, after, rfl, rfl, hout⟩ := visits_split h
  obtain ⟨hbefore, -, hlater⟩ := List.pairwise_append.1 hsorted
  have hle : ∀ t ∈ before, t ≤ v.input := fun t ht => hlater t ht v.input List.mem_cons_self
  obtain ⟨hsub, hlog⟩ := final_eq_filter rate window hbefore
  have hallowed := allowedTimes_sublist (slidingStep rate window) [] before
  have hcount : ((allowedTimes (visits (slidingStep rate window) [] before)).filter
      fun t => v.input - window < t).length =
        (allowedTimes (visits (slidingStep rate window) [] before)).countP
        (fun t => v.input - window < t ∧ t ≤ v.input) := by
    rw [← List.countP_eq_length_filter]
    refine List.countP_congr fun t ht => ?_
    simp [hle t (hallowed.subset ht)]
  rw [hout, slidingStep_eq ((hbefore.sublist hallowed).sublist hsub), hlog _ hle, ← hcount]
  split_ifs with hfull
  · simpa using hfull
  · simpa using hfull

/-- In every window of the configured length at most `rate` calls are allowed. -/
theorem countP_window_le {times : List ℤ} (hsorted : times.Pairwise (· ≤ ·)) (s : ℤ) :
    ((allowedTimes (visits (slidingStep rate window) [] times)).countP
      (fun t => s < t ∧ t ≤ s + window) : ℤ) ≤ max rate 0 := by
  induction times using List.reverseRecOn with
  | nil => simp [visits, allowedTimes]
  | append_singleton times t ih =>
    obtain ⟨hbefore, -, hlast⟩ := List.pairwise_append.1 hsorted
    have hpre := ih hbefore
    have hconcat : visits (slidingStep rate window) [] (times ++ [t]) = _ :=
      visits_concat [] times t
    have hexact := visit_allowed_iff hsorted hconcat
    rw [hconcat, allowedTimes_append, List.countP_append]
    generalize hstep : slidingStep rate window (final (slidingStep rate window) [] times) t =
      r at hexact ⊢
    obtain ⟨log, allowed⟩ := r
    cases allowed with
    | false => simpa using hpre
    | true =>
      have hroom := hexact.1 rfl
      dsimp only at hroom ⊢
      rw [allowedTimes_singleton_true, List.countP_singleton]
      by_cases hin : s < t ∧ t ≤ s + window
      · -- there was room in the window of the new call, which holds all that was counted before
        have hmono : (allowedTimes (visits (slidingStep rate window) [] times)).countP
              (fun t' => s < t' ∧ t' ≤ s + window) ≤
            (allowedTimes (visits (slidingStep rate window) [] times)).countP
              (fun t' => t - window < t' ∧ t' ≤ t) := by
          refine List.countP_mono_left fun t' ht' => ?_
          have hle : t' ≤ t := hlast _ ((allowedTimes_sublist _ _ _).subset ht') t
            (List.mem_singleton_self t)
          simp only [decide_eq_true_eq]
          omega
        simp only [hin, and_self, decide_true, if_true]
        push_cast
        omega
      · simpa only [hin, decide_false, Bool.false_eq_true, if_false, add_zero] using hpre

def SlidingWindow.decisions (rate window : ℤ) (calls : List (String × ℤ)) :
    List (String × Visit ℤ (List ℤ) Bool) :=
  (slidingWindow rate window).log (newSlidingWindow rate window) calls

/-- **A sliding window is exact.**  A call is allowed if and only if fewer than `rate` earlier calls
on its key that were allowed have times in the window that ends with it.  So in every interval of
the length of the window, at most `rate` calls on a key are allowed, none if `rate` is negative.
And calls on other keys make no difference: two sequences with the same calls on a key have the same
decisions on it. -/
theorem slidingWindow_exact (rate window : ℤ) (calls : List (String × ℤ))
    (hsorted : calls.Pairwise fun c c' => c.2 ≤ c'.2) :
    (∀ pre key v post, SlidingWindow.decisions rate window calls = pre ++ (key, v) :: post →
      (v.out = true ↔
      ((allowedOn key pre).countP (fun t => v.input - window < t ∧ t ≤ v.input) : ℤ) < rate)) ∧
    (∀ key s, ((allowedOn key (SlidingWindow.decisions rate window calls)).countP
      (fun t => s < t ∧ t ≤ s + window) : ℤ) ≤ max rate 0) ∧
    ∀ key calls', Family.onKey key calls = Family.onKey key calls' →
      Family.onKey key (SlidingWindow.decisions rate window calls) =
        Family.onKey key (SlidingWindow.decisions rate window calls') := by
  have hat : ∀ key calls, Family.onKey key (SlidingWindow.decisions rate window calls) =
      visits (slidingStep rate window) [] (Family.onKey key calls) :=
        fun key calls => Family.log_onKey key _ calls
  refine ⟨fun pre key v post h => ?_, fun key s => ?_, fun key calls' heq => ?_⟩
  · have hkey : visits (slidingStep rate window) [] (Family.onKey key calls) =
        Family.onKey key pre ++ v :: Family.onKey key post := by
      rw [← hat, h]
      simp [Family.onKey]
    exact visit_allowed_iff (onKey_sorted hsorted key) hkey
  · rw [allowedOn, hat]
    exact countP_window_le (onKey_sorted hsorted key) s
  · rw [hat, hat, heq]

def mixedCalls : List (String × ℤ) := [("a", 0), ("b", 1), ("a", 3), ("a", 5), ("a", 10), ("a", 13)]

/-- Two calls in ten: of the five on `a`, the third is denied, and the next one comes when the first
has left. -/
theorem slidingWindow_exact_mixedCalls :
    allowedOn "a" (SlidingWindow.decisions 2 10 mixedCalls) = [0, 3, 10, 13] ∧
      ((allowedOn "a" (SlidingWindow.decisions 2 10 mixedCalls)).countP
        (fun t => 0 < t ∧ t ≤ 0 + 10) : ℤ) ≤
        max 2 0 :=
  ⟨by decide, (slidingWindow_exact 2 10 mixedCalls (by decide)).2.1 "a" 0⟩

end WolfCore.RateLimit
