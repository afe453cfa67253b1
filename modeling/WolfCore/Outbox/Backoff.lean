import WolfCore.Lib.Execution
import WolfCore.Outbox.Worker

/-!
# The back-off of the outbox worker (`infra/events/outbox/worker.go`)

Consecutive errors of `poll` should slow the ticker of the worker down, to sixteen times
`pollInterval` at most, and the first success should restore `pollInterval`.

Here the loop of `Start` is followed with its ticker as Go has it: `Reset` panics for a period that
is not positive, and a `time.Duration` is a 64 bit integer, so the product in `adjustBackoff` may
wrap around.  What a poll does is left open; a cycle is what woke the worker up and the error `poll`
returned.

* `Ticker`, `PollLoop`, `cycle`, `run`: the loop;
* `cycle_eq_iff`: what one cycle does to the interval;
* `backoff_iff`: when the interval is as it should be after every cycle.  After a cycle that a
  notification started, `Start` resets the ticker to `pollInterval`, whether its poll failed or not;
* `startRound_cycle`: a round of the worker's program is a cycle.
-/

namespace WolfCore.Outbox

open Go Interleave

/-- `time.Ticker`, which has a positive period. -/
structure Ticker where
  interval : ℤ
  positive : 0 < interval

/-- `time.NewTicker`, and `Ticker.Reset`. -/
def Ticker.set (d : ℤ) : Outcome Ticker :=
  if h : 0 < d then .returned ⟨d, h⟩ else .panicked "non-positive interval for Ticker"

/-- The product of two numbers of type `time.Duration`. -/
def durationMul (a b : ℤ) : ℤ := Int.bmod (a * b) (2 ^ 64)

/-- What the loop of `Start` keeps for the back-off. -/
structure PollLoop where
  ticker : Ticker
  consecutiveErr : ℕ

/-- A cycle: why the worker woke up, and what its poll returned. -/
structure Cycle where
  wake : Wake
  err : Option Err

namespace PollLoop

variable (pollInterval : ℤ)

/-- The start of `Worker.Start`. -/
def start : Outcome PollLoop := (Ticker.set pollInterval).bind fun t => .returned ⟨t, 0⟩

/-- `ticker.Reset`. -/
def reset (l : PollLoop) (d : ℤ) : Outcome PollLoop :=
  (Ticker.set d).bind fun t => .returned { l with ticker := t }

/-- `Worker.adjustBackoff`. -/
def adjustBackoff (l : PollLoop) : Outcome PollLoop :=
  l.reset (durationMul pollInterval (2 ^ min l.consecutiveErr maxBackoffShift))

/-- What `Worker.doPoll` does with the result of `poll`. -/
def doPoll (l : PollLoop) : Option Err → Outcome PollLoop
  | some _ => adjustBackoff pollInterval { l with consecutiveErr := l.consecutiveErr + 1 }
  | none => if l.consecutiveErr > 0 then { l with consecutiveErr := 0 }.reset pollInterval
      else .returned l

/-- One round of the loop of `Worker.Start`. -/
def cycle (l : PollLoop) (c : Cycle) : Outcome PollLoop :=
  match c.wake with
  | .tick => l.doPoll pollInterval c.err
  | .notify => (l.doPoll pollInterval c.err).bind fun l => l.reset pollInterval

def run : PollLoop → List Cycle → Outcome PollLoop
  | l, [] => .returned l
  | l, c :: cs => (l.cycle pollInterval c).bind fun l => run l cs

def runs (cs : List Cycle) : Outcome PollLoop :=
  (start pollInterval).bind fun l => l.run pollInterval cs

end PollLoop

/-- The number of consecutive polls that failed, up to the last one. -/
def failedPolls (cs : List Cycle) : ℕ := (cs.reverse.takeWhile fun c => c.err.isSome).length

/-- The interval the worker should have after the cycles. -/
def backoffInterval (pollInterval : ℤ) (cs : List Cycle) : ℤ :=
  pollInterval * 2 ^ min (failedPolls cs) 4

/-- The worker has not panicked, and its ticker has the interval it should have. -/
def InForce (pollInterval : ℤ) (cs : List Cycle) : Prop :=
  ∃ l, PollLoop.runs pollInterval cs = .returned l ∧
    l.ticker.interval = backoffInterval pollInterval cs

theorem backoffInterval_le {pollInterval : ℤ} (hp : 0 < pollInterval) (cs : List Cycle) :
    backoffInterval pollInterval cs ≤ pollInterval * 16 := by
  have hle : (2 : ℤ) ^ min (failedPolls cs) 4 ≤ 2 ^ 4 :=
    pow_le_pow_right₀ (by norm_num) (min_le_right _ _)
  exact mul_le_mul_of_nonneg_left hle hp.le

theorem failedPolls_concat (cs : List Cycle) (c : Cycle) :
    failedPolls (cs ++ [c]) = if c.err.isSome then failedPolls cs + 1 else 0 := by
  unfold failedPolls
  rw [List.reverse_append, List.reverse_singleton, List.singleton_append, List.takeWhile_cons]
  split_ifs <;> rfl

/-! ### One cycle -/

section

variable {pollInterval : ℤ}

theorem Ticker.set_eq_returned {d : ℤ} {t : Ticker} :
    Ticker.set d = .returned t ↔ t.interval = d := by
  obtain ⟨interval, hpos⟩ := t
  unfold Ticker.set
  split_ifs with hd
  · constructor
    · intro h
      cases h
      rfl
    · rintro rfl
      rfl
  · constructor
    · intro h
      cases h
    · rintro rfl
      exact absurd hpos hd

theorem PollLoop.reset_eq_returned {l l' : PollLoop} {d : ℤ} :
    l.reset d = .returned l' ↔ l'.ticker.interval = d ∧ l'.consecutiveErr = l.consecutiveErr := by
  obtain ⟨t', n'⟩ := l'
  unfold reset
  cases ht : Ticker.set d with
  | returned t =>
    have hd := Ticker.set_eq_returned.1 ht
    constructor
    · intro h
      cases h
      exact ⟨hd, rfl⟩
    · rintro ⟨hd', rfl⟩
      have heq := ht.symm.trans (Ticker.set_eq_returned.2 hd')
      cases heq
      rfl
  | panicked p =>
    constructor
    · intro h
      cases h
    · rintro ⟨hd', -⟩
      rw [Ticker.set_eq_returned.2 hd'] at ht
      cases ht

/-- A product of durations is exact as long as it is a duration. -/
theorem durationMul_eq_iff {a b : ℤ} (ha : 0 < a) (hb : 0 < b) :
    durationMul a b = a * b ↔ a * b < 2 ^ 63 := by
  have hpos : 0 < a * b := mul_pos ha hb
  unfold durationMul
  constructor
  · intro h
    have hlt : Int.bmod (a * b) (2 ^ 64) < _ := Int.bmod_lt (by decide)
    rw [h] at hlt
    norm_num at hlt ⊢
    omega
  · intro h
    exact Int.bmod_eq_of_le (by norm_num at h ⊢; omega) (by norm_num at h ⊢; omega)

namespace PollLoop

/-- A failed poll counts, and sets the interval to the product, if that is a period at all. -/
theorem doPoll_error {l l' : PollLoop} (err : Err) :
    l.doPoll pollInterval (some err) = .returned l' ↔
    l'.ticker.interval = durationMul pollInterval (2 ^ min (l.consecutiveErr + 1) maxBackoffShift) ∧
      l'.consecutiveErr = l.consecutiveErr + 1 := reset_eq_returned

theorem doPoll_success (hp : 0 < pollInterval) (l : PollLoop) :
    ∃ l', l.doPoll pollInterval none = .returned l' ∧
    l'.consecutiveErr = 0 ∧
    l'.ticker.interval = if l.consecutiveErr > 0 then pollInterval else l.ticker.interval := by
  unfold doPoll
  split_ifs with h
  · exact ⟨⟨⟨pollInterval, hp⟩, 0⟩, reset_eq_returned.2 ⟨rfl, rfl⟩, rfl, rfl⟩
  · exact ⟨l, rfl, by omega, rfl⟩

/-- A cycle whose poll succeeded leaves the poll interval. -/
theorem cycle_of_success (hp : 0 < pollInterval) {cs : List Cycle} {l : PollLoop}
    (herr : l.consecutiveErr = failedPolls cs)
    (hint : l.ticker.interval = backoffInterval pollInterval cs) (wake : Wake) :
    ∃ l', l.cycle pollInterval ⟨wake, none⟩ = .returned l' ∧ l'.ticker.interval = pollInterval := by
  obtain ⟨l₁, hpoll, -, hint₁⟩ := doPoll_success hp l
  -- without failures the interval was right already
  have hrestored : l₁.ticker.interval = pollInterval := by
    rw [hint₁, hint, herr]
    split_ifs with h
    · rfl
    · simp [backoffInterval, show failedPolls cs = 0 by omega]
  cases wake with
  | tick => exact ⟨l₁, hpoll, hrestored⟩
  | notify =>
    refine ⟨⟨⟨pollInterval, hp⟩, l₁.consecutiveErr⟩, ?_, rfl⟩
    simp only [cycle, hpoll, Outcome.returned_bind]
    exact reset_eq_returned.2 ⟨rfl, rfl⟩

/-- A cycle that a notification started resets the ticker to the poll interval. -/
theorem interval_of_notify {l l' : PollLoop} {err : Option Err}
    (h : l.cycle pollInterval ⟨.notify, err⟩ = .returned l') :
    l'.ticker.interval = pollInterval := by
  simp only [cycle] at h
  cases hpoll : l.doPoll pollInterval err with
  | panicked p =>
    rw [hpoll] at h
    cases h
  | returned l₁ =>
    rw [hpoll, Outcome.returned_bind] at h
    exact (reset_eq_returned.1 h).1

/-- What a cycle that started from the right interval leaves is right, unless its poll failed and a
notification had started it, or the interval is no duration. -/
theorem cycle_right_iff (hp : 0 < pollInterval) (hmax : pollInterval < 2 ^ 63) {cs : List Cycle}
    {l : PollLoop} (herr : l.consecutiveErr = failedPolls cs)
    (hint : l.ticker.interval = backoffInterval pollInterval cs) (c : Cycle) :
    (∃ l', l.cycle pollInterval c = .returned l' ∧
        l'.ticker.interval = backoffInterval pollInterval (cs ++ [c])) ↔
      ¬ (c.wake = .notify ∧ c.err.isSome) ∧ backoffInterval pollInterval (cs ++ [c]) < 2 ^ 63 := by
  obtain ⟨wake, err⟩ := c
  cases err with
  | none =>
    have hgoal : backoffInterval pollInterval (cs ++ [⟨wake, none⟩]) = pollInterval := by
      simp [backoffInterval, failedPolls_concat]
    rw [hgoal]
    exact iff_of_true (cycle_of_success hp herr hint wake) ⟨by simp, hmax⟩
  | some err =>
    have hpow : (0 : ℤ) < 2 ^ min (l.consecutiveErr + 1) 4 := by positivity
    have hgoal : backoffInterval pollInterval (cs ++ [⟨wake, some err⟩]) =
        pollInterval * 2 ^ min (l.consecutiveErr + 1) 4 := by
      simp [backoffInterval, failedPolls_concat, herr]
    rw [hgoal]
    cases wake with
    | tick =>
      rw [← durationMul_eq_iff hp hpow]
      constructor
      · rintro ⟨l', hl', hint'⟩
        exact ⟨by simp, ((doPoll_error err).1 hl').1.symm.trans hint'⟩
      · rintro ⟨-, hexact⟩
        have hpos : 0 < pollInterval * 2 ^ min (l.consecutiveErr + 1) 4 := mul_pos hp hpow
        exact ⟨⟨⟨_, hpos⟩, l.consecutiveErr + 1⟩, (doPoll_error err).2 ⟨hexact.symm, rfl⟩, rfl⟩
    | notify =>
      refine iff_of_false ?_ (by simp)
      rintro ⟨l', hl', hint'⟩
      have hone : (1 : ℤ) < 2 ^ min (l.consecutiveErr + 1) 4 :=
        one_lt_pow₀ (by norm_num) (by omega)
      nlinarith [(interval_of_notify hl').symm.trans hint']

theorem consecutiveErr_of_cycle {l l' : PollLoop} {c : Cycle}
    (h : l.cycle pollInterval c = .returned l') :
    l'.consecutiveErr = if c.err.isSome then l.consecutiveErr + 1 else 0 := by
  have hpoll : ∀ l₁, l.doPoll pollInterval c.err = .returned l₁ →
      l₁.consecutiveErr = if c.err.isSome then l.consecutiveErr + 1 else 0 := by
    intro l₁ h₁
    cases herr : c.err with
    | some err =>
      rw [herr] at h₁
      exact ((doPoll_error err).1 h₁).2
    | none =>
      rw [herr] at h₁
      unfold doPoll at h₁
      split_ifs at h₁ with hfailed
      · exact (reset_eq_returned.1 h₁).2
      · cases h₁
        show l.consecutiveErr = 0
        omega
  unfold cycle at h
  cases hwake : c.wake with
  | tick => rw [hwake] at h; exact hpoll l' h
  | notify =>
    rw [hwake] at h
    cases h₁ : l.doPoll pollInterval c.err with
    | panicked p => simp only [h₁] at h; cases h
    | returned l₁ =>
      simp only [h₁, Outcome.returned_bind] at h
      rw [(reset_eq_returned.1 h).2, hpoll l₁ h₁]

theorem run_concat (l : PollLoop) (cs : List Cycle) (c : Cycle) : l.run pollInterval (cs ++ [c]) =
    (l.run pollInterval cs).bind fun l' => l'.cycle pollInterval c := by
  induction cs generalizing l with
  | nil =>
    show (l.cycle pollInterval c).bind .returned = l.cycle pollInterval c
    cases l.cycle pollInterval c <;> rfl
  | cons c' cs ih => simp only [List.cons_append, run, ih, Outcome.bind_assoc]

theorem runs_concat (cs : List Cycle) (c : Cycle) : runs pollInterval (cs ++ [c]) =
    (runs pollInterval cs).bind fun l => l.cycle pollInterval c := by
  simp only [runs, run_concat, Outcome.bind_assoc]

end PollLoop

/-! ### Whole runs -/

/-- The run so far is as `backoff_iff` requires. -/
def Sound (pollInterval : ℤ) (cs : List Cycle) : Prop :=
  (∀ c ∈ cs, ¬ (c.wake = .notify ∧ c.err.isSome)) ∧
    ∀ cs', cs' <+: cs → backoffInterval pollInterval cs' < 2 ^ 63

theorem sound_concat {cs : List Cycle} {c : Cycle} : Sound pollInterval (cs ++ [c]) ↔
    Sound pollInterval cs ∧ ¬ (c.wake = .notify ∧ c.err.isSome) ∧
      backoffInterval pollInterval (cs ++ [c]) < 2 ^ 63 := by
  unfold Sound
  simp only [List.forall_mem_append, List.forall_mem_singleton, List.prefix_concat_iff,
    forall_eq_or_imp]
  tauto

/-- In a sound run the worker counts the failures, and its interval is right. -/
theorem runs_of_sound (hp : 0 < pollInterval) (hmax : pollInterval < 2 ^ 63) {cs : List Cycle}
    (h : Sound pollInterval cs) : ∃ l, PollLoop.runs pollInterval cs = .returned l ∧
      l.consecutiveErr = failedPolls cs ∧ l.ticker.interval = backoffInterval pollInterval cs := by
  induction cs using List.reverseRecOn with
  | nil =>
    have hstart : PollLoop.runs pollInterval [] = .returned ⟨⟨pollInterval, hp⟩, 0⟩ := by
      simp [PollLoop.runs, PollLoop.start, Ticker.set, hp, PollLoop.run]
    exact ⟨_, hstart, rfl, by simp [backoffInterval, failedPolls]⟩
  | append_singleton cs c ih =>
    obtain ⟨hcs, hc⟩ := sound_concat.1 h
    obtain ⟨l, hl, herr, hint⟩ := ih hcs
    obtain ⟨l', hl', hint'⟩ := (PollLoop.cycle_right_iff hp hmax herr hint c).2 hc
    refine ⟨l', ?_, ?_, hint'⟩
    · rw [PollLoop.runs_concat, hl]
      exact hl'
    · rw [PollLoop.consecutiveErr_of_cycle hl', failedPolls_concat, herr]

variable (pollInterval) in
/-- **The back-off of the worker.**  After every cycle of a run the interval of the ticker is
`pollInterval`, doubled for each of the consecutive failed polls that end with the cycle, up to four
times, if and only if no poll that a notification started fails, and none of these intervals exceeds
the longest duration. -/
theorem backoff_iff (hp : 0 < pollInterval) (hmax : pollInterval < 2 ^ 63) (cs : List Cycle) :
    (∀ cs', cs' <+: cs → cs' ≠ [] → InForce pollInterval cs') ↔
      (∀ c ∈ cs, ¬ (c.wake = .notify ∧ c.err.isSome)) ∧
        ∀ cs', cs' <+: cs → backoffInterval pollInterval cs' < 2 ^ 63 := by
  show _ ↔ Sound pollInterval cs
  induction cs using List.reverseRecOn with
  | nil =>
    have hsound : Sound pollInterval [] :=
      ⟨nofun, fun cs' hcs' => by
        simpa [List.prefix_nil.1 hcs', backoffInterval, failedPolls] using hmax⟩
    exact iff_of_true (fun cs' hcs' hne => absurd (List.prefix_nil.1 hcs') hne) hsound
  | append_singleton cs c ih =>
    simp only [List.prefix_concat_iff, or_imp, forall_and, forall_eq]
    rw [sound_concat, ih, and_comm]
    refine and_congr_right fun hcs => ?_
    obtain ⟨l, hl, herr, hint⟩ := runs_of_sound hp hmax hcs
    rw [← PollLoop.cycle_right_iff hp hmax herr hint c]
    simp [InForce, PollLoop.runs_concat, hl]

end

/-- Two polls that fail and one that succeeds. -/
def recovery : List Cycle :=
  [⟨.tick, some (.msg "down")⟩, ⟨.tick, some (.msg "down")⟩, ⟨.notify, none⟩]

/-- With a poll interval of a second, the ticker has four seconds after the second failure. -/
theorem backoff_iff_recovery : (∀ cs', cs' <+: recovery → cs' ≠ [] → InForce 1000000000 cs') ∧
    backoffInterval 1000000000 (recovery.take 2) = 4000000000 :=
  ⟨(backoff_iff 1000000000 (by decide) (by decide) recovery).2 ⟨by simp [recovery],
    fun cs' _ => lt_of_le_of_lt (backoffInterval_le (by decide) cs') (by decide)⟩, by decide⟩

/-- A notification starts a poll, and the poll fails: the ticker is not slowed down. -/
theorem notify_drops_backoff :
    ∃ l, PollLoop.runs 1000000000 [⟨.notify, some (.msg "down")⟩] = .returned l ∧
    l.consecutiveErr = 1 ∧ l.ticker.interval = 1000000000 ∧
    backoffInterval 1000000000 [⟨.notify, some (.msg "down")⟩] = 2000000000 :=
  ⟨⟨⟨1000000000, by decide⟩, 1⟩, rfl, rfl, rfl, by decide⟩

/-! ### The program of the worker -/

/-- A poll loop that stands for what a worker keeps between two cycles. -/
def PollLoop.Matches (p : PollLoop) (l : Local) : Prop :=
  p.ticker.interval = l.interval ∧ p.consecutiveErr = l.consecutiveErr

/-- The executions of `doPoll`: a poll, and what follows from its result. -/
theorem execution_doPoll {w : Worker} {l l' : Local} {log : List (Exchange Reply)}
    (h : Execution (doPoll w l) log l') :
    ∃ log₁ log₂ err, log = log₁ ++ log₂ ∧ Execution (poll w) log₁ err ∧
      l' = { afterPoll w l err with cycle := (afterPoll w l err).cycle + 1 } := by
  unfold doPoll at h
  obtain ⟨log₁, err, log₂, rfl, hpoll, h⟩ := execution_bind.1 h
  refine ⟨log₁, log₂, err, rfl, hpoll, ?_⟩
  simp only at h
  split_ifs at h with hcleanup
  · obtain ⟨_, _, -, h⟩ := execution_call.1 h
    exact (execution_pure.1 h).2
  · exact (execution_pure.1 h).2

theorem PollLoop.Matches.doPoll {w : Worker} (hp : 0 < w.pollInterval)
    (hmax : w.pollInterval * 16 < 2 ^ 63) {p : PollLoop} {l : Local} (hpl : p.Matches l)
    (err : Option Err) :
    ∃ p', p.doPoll w.pollInterval err = .returned p' ∧ p'.Matches (afterPoll w l err) := by
  obtain ⟨hint, herr⟩ := hpl
  cases err with
  | none =>
    obtain ⟨p', hp', herr', hint'⟩ := PollLoop.doPoll_success hp p
    refine ⟨p', hp', ?_⟩
    rw [herr, hint] at hint'
    simp only [afterPoll]
    split_ifs at hint' ⊢ with hfailed
    · exact ⟨hint', herr'⟩
    · exact ⟨hint', herr'.trans (by omega)⟩
  | some err =>
    have hpow : (0 : ℤ) < 2 ^ min (l.consecutiveErr + 1) maxBackoffShift := by positivity
    have hle : (2 : ℤ) ^ min (l.consecutiveErr + 1) maxBackoffShift ≤ 2 ^ 4 :=
      pow_le_pow_right₀ (by norm_num) (min_le_right _ _)
    have hexact :=
      (durationMul_eq_iff hp hpow).2 (lt_of_le_of_lt (mul_le_mul_of_nonneg_left hle hp.le) hmax)
    refine ⟨⟨⟨_, mul_pos hp hpow⟩, p.consecutiveErr + 1⟩, (PollLoop.doPoll_error err).2 ⟨?_, rfl⟩,
      rfl, ?_⟩
    · rw [herr]
      exact hexact.symm
    · show p.consecutiveErr + 1 = l.consecutiveErr + 1
      rw [herr]

/-- **A round of the worker's program is a cycle**, if sixteen times its poll interval is still a
duration. -/
theorem startRound_cycle {w : Worker} (hp : 0 < w.pollInterval)
    (hmax : w.pollInterval * 16 < 2 ^ 63) {l l' : Local} {log : List (Exchange Reply)}
    (h : Execution (startRound w l) log l') {p : PollLoop} (hpl : p.Matches l) :
    ∃ c log₁ log₂ p', log = ⟨.wake, c.wake⟩ :: (log₁ ++ log₂) ∧ Execution (poll w) log₁ c.err ∧
      p.cycle w.pollInterval c = .returned p' ∧ p'.Matches l' := by
  unfold startRound at h
  obtain ⟨wake, rest, rfl, hrest⟩ := execution_call.1 h
  cases wake with
  | tick =>
    obtain ⟨log₁, log₂, err, rfl, hpoll, rfl⟩ := execution_doPoll hrest
    obtain ⟨p', hp', hmatch⟩ := hpl.doPoll hp hmax err
    exact ⟨⟨.tick, err⟩, log₁, log₂, p', rfl, hpoll, hp', hmatch⟩
  | notify =>
    change Execution ((doPoll w l).bind fun l₁ => .pure { l₁ with interval := w.pollInterval })
      rest l' at hrest
    obtain ⟨log₀, l₁, _, rfl, h₀, hend⟩ := execution_bind.1 hrest
    obtain ⟨rfl, rfl⟩ := execution_pure.1 hend
    obtain ⟨log₁, log₂, err, rfl, hpoll, rfl⟩ := execution_doPoll h₀
    obtain ⟨p', hp', hmatch⟩ := hpl.doPoll hp hmax err
    refine ⟨⟨.notify, err⟩, log₁, log₂, ⟨⟨w.pollInterval, hp⟩, p'.consecutiveErr⟩, by simp, hpoll,
      ?_, rfl, hmatch.2⟩
    simp only [PollLoop.cycle, hp', Outcome.returned_bind]
    exact PollLoop.reset_eq_returned.2 ⟨rfl, rfl⟩

end WolfCore.Outbox
