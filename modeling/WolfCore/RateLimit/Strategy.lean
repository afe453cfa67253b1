import WolfCore.Lib.Keyed

/-!
# Rate limiters (`infra/ratelimit/strategy.go`)

A limiter is asked, with `Allow`, whether a call on a key may go ahead.  It is locked while it
answers, so its calls come one after the other, and each reads the clock once.  The limiters here
keep one record for each key, so a limiter is a family of automata that get times and say yes or
no.  Times and durations are in nanoseconds.
-/

namespace WolfCore.RateLimit

open Keyed

/-- `Strategy`: a limiter `σ` that keeps a record `ε` for each key.  The input of a call is the time
it reads, the output whether it is allowed. -/
abbrev Strategy (σ ε : Type) := Family σ String ℤ ε Bool

variable {ε : Type}

/-- The times of the calls that were allowed. -/
def allowedTimes (vs : List (Visit ℤ ε Bool)) : List ℤ := (vs.filter (·.out)).map (·.input)

/-- The times of the calls on a key that were allowed. -/
def allowedOn (key : String) (log : List (String × Visit ℤ ε Bool)) : List ℤ :=
  allowedTimes (Family.onKey key log)

theorem allowedTimes_append (vs vs' : List (Visit ℤ ε Bool)) :
    allowedTimes (vs ++ vs') = allowedTimes vs ++ allowedTimes vs' := by simp [allowedTimes]

@[simp] theorem allowedTimes_singleton_true (t : ℤ) (e : ε) : allowedTimes [⟨t, true, e⟩] = [t] :=
  rfl

@[simp] theorem allowedTimes_singleton_false (t : ℤ) (e : ε) : allowedTimes [⟨t, false, e⟩] = [] :=
  rfl

theorem allowedTimes_sublist (step : ε → ℤ → ε × Bool) (e : ε) (times : List ℤ) :
    (allowedTimes (visits step e times)).Sublist times := by
  have h :=
    (List.filter_sublist (p := fun v : Visit ℤ ε Bool => v.out) (l := visits step e times)).map
      (·.input)
  rw [map_input_visits] at h
  exact h

/-- The calls on a key, of calls whose times do not decrease. -/
theorem onKey_sorted {calls : List (String × ℤ)} (hsorted : calls.Pairwise fun c c' => c.2 ≤ c'.2)
    (key : String) :
    (Family.onKey key calls).Pairwise (· ≤ ·) :=
  List.pairwise_map.2 (hsorted.sublist List.filter_sublist)

end WolfCore.RateLimit
