import WolfCore.Lib.Slots

/-!
# Bulkheads (`infra/resilience/bulkhead.go`)

`Bulkhead.Execute` sends a token into a buffered channel before it calls the function, and receives
one afterwards, also when the function panics.  A goroutine whose context is done may give up while
it waits for room in the channel; when both are possible, `select` takes either.

`bulkhead_limits`: in every run of any finite number of goroutines, at most as many functions run as
the channel has room for, the channel holds one token for each goroutine that runs its function or
has yet to receive, no goroutine ever waits to receive, and each step moves at most one token.
-/

namespace WolfCore.Resilience.Bulkhead

open Slots

/-- Where a goroutine is in `Execute`. -/
inductive Phase
  | idle
  /-- in the `select` -/
  | selecting
  /-- in the function -/
  | running
  /-- in the deferred receive -/
  | releasing
  deriving DecidableEq

/-- The goroutine has sent a token and not received one. -/
def Phase.holds : Phase → Bool
  | .running | .releasing => true
  | .idle | .selecting => false

/-- The tokens in the channel, the goroutines, and which of their contexts are done. -/
structure State (ι : Type) where
  sem : ℕ
  phase : ι → Phase
  done : ι → Bool

inductive Action (ι : Type)
  /-- a goroutine calls `Execute`, with a context that may be done already -/
  | call (i : ι) (done : Bool)
  /-- its context is cancelled -/
  | cancel (i : ι)
  /-- it sends its token -/
  | enter (i : ι)
  /-- it returns `ErrBulkheadFull` -/
  | refuse (i : ι)
  /-- the function returns or panics -/
  | finish (i : ι)
  /-- it receives a token, and returns -/
  | release (i : ι)

variable {ι : Type} [DecidableEq ι]

/-- One step of a bulkhead with `maxConcurrent` slots, if it is possible. -/
def step (maxConcurrent : ℕ) : Action ι → State ι → Option (State ι)
  | .call i done, s =>
      if s.phase i = .idle then
        some { s with
          phase := Function.update s.phase i .selecting
          done := Function.update s.done i done }
      else none
  | .cancel i, s => some { s with done := Function.update s.done i true }
  | .enter i, s =>
      if s.phase i = .selecting ∧ s.sem < maxConcurrent then
        some { s with sem := s.sem + 1, phase := Function.update s.phase i .running }
      else none
  | .refuse i, s =>
      if s.phase i = .selecting ∧ s.done i = true then
        some { s with phase := Function.update s.phase i .idle }
      else none
  | .finish i, s =>
      if s.phase i = .running then some { s with phase := Function.update s.phase i .releasing }
      else none
  | .release i, s =>
      if s.phase i = .releasing ∧ 0 < s.sem then
        some { s with sem := s.sem - 1, phase := Function.update s.phase i .idle }
      else none

/-- `NewBulkhead`, before the first call. -/
def newBulkhead : State ι := ⟨0, fun _ => .idle, fun _ => false⟩

section

variable [Fintype ι]

def holders (s : State ι) : Finset ι := among Phase.holds s.phase

def running (s : State ι) : Finset ι := among (· = .running) s.phase

omit [DecidableEq ι] in
theorem running_subset_holders (s : State ι) : running s ⊆ holders s := by
  intro i hi
  rw [running, mem_among, decide_eq_true_eq] at hi
  rw [holders, mem_among, hi]
  rfl

/-- The channel holds one token for each goroutine that holds a slot. -/
def Inv (s : State ι) : Prop := s.sem = (holders s).card

section Steps

variable {maxConcurrent : ℕ} {s s' : State ι} {i : ι}

theorem Inv.kept (hs : Inv s) (hsem : s'.sem = s.sem) (heq : holders s' = holders s) :
    Inv s' ∧ (holders s' = holders s ∨ Move maxConcurrent (holders s) (holders s')) := by
  rw [Inv, hsem, heq]
  exact ⟨hs, Or.inl rfl⟩

theorem Inv.taken (hs : Inv s) (hroom : s.sem < maxConcurrent) (hi : i ∉ holders s)
    (hsem : s'.sem = s.sem + 1) (heq : holders s' = insert i (holders s)) :
    Inv s' ∧ (holders s' = holders s ∨ Move maxConcurrent (holders s) (holders s')) := by
  rw [Inv] at hs ⊢
  rw [hsem, heq, Finset.card_insert_of_notMem hi, hs]
  exact ⟨rfl, Or.inr (.take hi (hs ▸ hroom))⟩

theorem Inv.given (hs : Inv s) (hi : i ∈ holders s) (hsem : s'.sem = s.sem - 1)
    (heq : holders s' = (holders s).erase i) :
    Inv s' ∧ (holders s' = holders s ∨ Move maxConcurrent (holders s) (holders s')) := by
  rw [Inv] at hs ⊢
  rw [hsem, heq, Finset.card_erase_of_mem hi, hs]
  exact ⟨rfl, Or.inr (.give hi)⟩

end Steps

theorem step_simulates (maxConcurrent : ℕ) :
    Simulates maxConcurrent (step maxConcurrent) (holders (ι := ι)) Inv where
  step := by
    intro a s s' hs hstep
    cases a with
    | call i done =>
      obtain ⟨hphase, heq⟩ := Option.ite_none_right_eq_some.1 hstep
      cases heq
      exact hs.kept rfl (among_update_of_eq (by rw [hphase]; rfl))
    | cancel i =>
      cases hstep
      exact hs.kept rfl rfl
    | enter i =>
      obtain ⟨⟨hphase, hroom⟩, heq⟩ := Option.ite_none_right_eq_some.1 hstep
      cases heq
      exact hs.taken hroom (by simp [holders, hphase, Phase.holds]) rfl (among_update_of_true rfl)
    | refuse i =>
      obtain ⟨⟨hphase, -⟩, heq⟩ := Option.ite_none_right_eq_some.1 hstep
      cases heq
      exact hs.kept rfl (among_update_of_eq (by rw [hphase]; rfl))
    | finish i =>
      obtain ⟨hphase, heq⟩ := Option.ite_none_right_eq_some.1 hstep
      cases heq
      exact hs.kept rfl (among_update_of_eq (by rw [hphase]; rfl))
    | release i =>
      obtain ⟨⟨hphase, -⟩, heq⟩ := Option.ite_none_right_eq_some.1 hstep
      cases heq
      exact hs.given (by simp [holders, hphase, Phase.holds]) rfl (among_update_of_false rfl)

/-- **In every run of any finite number of goroutines: at most `maxConcurrent` functions run; the
channel holds a token for each goroutine that runs its function or has yet to receive, so it is
empty when none does; no receive blocks; and a step leaves the holders of slots as they are, or one
goroutine takes a slot that is left, or one gives its slot back.** -/
theorem bulkhead_limits (maxConcurrent : ℕ) (as : List (Action ι)) (s : State ι)
    (hrun : run (step maxConcurrent) as newBulkhead = some s) :
    (running s).card ≤ maxConcurrent ∧ s.sem = (holders s).card ∧
      (∀ i, s.phase i = .releasing → (step maxConcurrent (.release i) s).isSome) ∧
      ∀ a s', step maxConcurrent a s = some s' →
        holders s' = holders s ∨ Move maxConcurrent (holders s) (holders s') := by
  have hempty : holders (newBulkhead : State ι) = ∅ := by
    ext i
    simp [holders, newBulkhead, Phase.holds]
  have hstart : Inv (newBulkhead : State ι) := by rw [Inv, hempty]; rfl
  obtain ⟨hinv, hcap⟩ :=
    (step_simulates maxConcurrent).run hstart (by rw [hempty]; exact Nat.zero_le _) hrun
  refine ⟨?_, hinv, fun i hi => ?_, fun a s' hstep =>
    ((step_simulates maxConcurrent).step hinv hstep).2⟩
  · exact (Finset.card_le_card (running_subset_holders s)).trans hcap
  · have hmem : i ∈ holders s := by simp [holders, hi, Phase.holds]
    have hpos : 0 < s.sem := by
      rw [Inv] at hinv
      rw [hinv]
      exact Finset.card_pos.2 ⟨i, hmem⟩
    simp [step, hi, hpos]

end

/-- One slot and two goroutines: the second is cancelled while it waits. -/
def crowded : List (Action (Fin 2)) :=
  [.call 0 false, .call 1 false, .enter 0, .cancel 1, .refuse 1, .finish 0]

theorem bulkhead_limits_crowded : ∃ s, run (step 1) crowded newBulkhead = some s ∧
    (running s).card ≤ 1 ∧ s.sem = (holders s).card ∧
    (∀ i, s.phase i = .releasing → (step 1 (.release i) s).isSome) ∧
    ∀ a s', step 1 a s = some s' → holders s' = holders s ∨ Move 1 (holders s) (holders s') :=
  ⟨_, rfl, bulkhead_limits 1 crowded _ rfl⟩

end WolfCore.Resilience.Bulkhead
