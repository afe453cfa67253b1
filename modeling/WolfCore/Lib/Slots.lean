import Mathlib.Tactic

/-!
# Slots

What a limit on concurrency is for: at most `cap` threads hold a slot, and a thread that does not
hold one takes one only if there is one left.

A system whose moves are deterministic in the action it takes simulates this if each of its moves is
a move of one slot, or moves none (`Simulates`); the limit then holds in every state it reaches
(`Simulates.run`).
-/

namespace Slots

variable {ι : Type} [DecidableEq ι] {cap : ℕ}

/-- A thread takes a slot, or gives its slot back. -/
inductive Move (cap : ℕ) : Finset ι → Finset ι → Prop
  | take {s : Finset ι} {i : ι} (hi : i ∉ s) (hroom : s.card < cap) : Move cap s (insert i s)
  | give {s : Finset ι} {i : ι} (hi : i ∈ s) : Move cap s (s.erase i)

theorem Move.card_le {s s' : Finset ι} (h : Move cap s s') (hs : s.card ≤ cap) : s'.card ≤ cap := by
  cases h with
  | take hi hroom =>
    rw [Finset.card_insert_of_notMem hi]
    omega
  | give _ => exact (Finset.card_erase_le).trans hs

variable {σ α : Type}

/-- A run: the actions of a list, in order, as far as they are possible. -/
def run (step : α → σ → Option σ) : List α → σ → Option σ
  | [], s => some s
  | a :: as, s => (step a s).bind (run step as)

/-- The moves of the system keep an invariant, and move at most one slot. -/
structure Simulates (cap : ℕ) (step : α → σ → Option σ) (holders : σ → Finset ι) (Inv : σ → Prop) :
    Prop where
  step : ∀ {a s s'}, Inv s → step a s = some s' →
    Inv s' ∧ (holders s' = holders s ∨ Move cap (holders s) (holders s'))

theorem Simulates.run {step : α → σ → Option σ} {holders : σ → Finset ι} {Inv : σ → Prop}
    (h : Simulates cap step holders Inv) {as : List α} {s s' : σ} (hs : Inv s)
    (hcap : (holders s).card ≤ cap) (hrun : run step as s = some s') :
    Inv s' ∧ (holders s').card ≤ cap := by
  induction as generalizing s with
  | nil =>
    cases hrun
    exact ⟨hs, hcap⟩
  | cons a as ih =>
    obtain ⟨t, hstep, hrest⟩ := Option.bind_eq_some_iff.1 hrun
    obtain ⟨ht, hsame | hmove⟩ := h.step hs hstep
    · exact ih ht (hsame ▸ hcap) hrest
    · exact ih ht (hmove.card_le hcap) hrest

/-! ### Threads in phases -/

section Phases

variable [Fintype ι] {φ : Type}

/-- The threads whose phase has the property. -/
def among (p : φ → Bool) (f : ι → φ) : Finset ι := Finset.univ.filter fun i => p (f i)

variable {p : φ → Bool} {f : ι → φ} {i : ι} {x : φ}

omit [DecidableEq ι] in
@[simp] theorem mem_among : i ∈ among p f ↔ p (f i) = true := by simp [among]

theorem among_update_of_true (hx : p x = true) :
    among p (Function.update f i x) = insert i (among p f) := by
  ext j
  rw [Finset.mem_insert, mem_among, mem_among, Function.update_apply]
  split_ifs with hj
  · simp [hj, hx]
  · simp [hj]

theorem among_update_of_false (hx : p x = false) :
    among p (Function.update f i x) = (among p f).erase i := by
  ext j
  rw [Finset.mem_erase, mem_among, mem_among, Function.update_apply]
  split_ifs with hj
  · simp [hj, hx]
  · simp [hj]

/-- A thread that goes on to a phase of the same kind. -/
theorem among_update_of_eq (hx : p x = p (f i)) : among p (Function.update f i x) = among p f := by
  ext j
  rw [mem_among, mem_among, Function.update_apply]
  split_ifs with hj
  · rw [hj, hx]
  · rfl

end Phases

end Slots
