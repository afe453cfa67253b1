import Mathlib.Tactic

/-!
# Families of automata

An automaton takes an input, changes its state and gives an output.  A `Family` is an object that
keeps one automaton for each key: an input for a key moves the automaton of that key only.

* `visits`: the inputs of an automaton, each with the output and the state after it; `final`: where
  it ends;
* `Family.log`: the inputs of a family, in the order in which they arrive;
* `Family.log_onKey`: what happens at one key is what its automaton does with the inputs for that
  key.
-/

namespace Keyed

variable {σ κ ι ε ω : Type}

/-- An input, the output and the state it leads to. -/
structure Visit (ι ε ω : Type) where
  input : ι
  out : ω
  after : ε

section Automaton

variable (step : ε → ι → ε × ω)

def visits : ε → List ι → List (Visit ι ε ω)
  | _, [] => []
  | e, i :: is => ⟨i, (step e i).2, (step e i).1⟩ :: visits (step e i).1 is

def final : ε → List ι → ε
  | e, [] => e
  | e, i :: is => final (step e i).1 is

variable {step}

theorem visits_append (e : ε) (is js : List ι) :
    visits step e (is ++ js) = visits step e is ++ visits step (final step e is) js := by
  induction is generalizing e with
  | nil => rfl
  | cons i is ih => simp only [List.cons_append, visits, final, ih]

theorem final_append (e : ε) (is js : List ι) :
    final step e (is ++ js) = final step (final step e is) js := by
  induction is generalizing e with
  | nil => rfl
  | cons i is ih => exact ih _

theorem visits_concat (e : ε) (is : List ι) (i : ι) : visits step e (is ++ [i]) =
    visits step e is ++ [⟨i, (step (final step e is) i).2, (step (final step e is) i).1⟩] :=
  visits_append e is [i]

theorem final_concat (e : ε) (is : List ι) (i : ι) :
    final step e (is ++ [i]) = (step (final step e is) i).1 := final_append e is [i]

theorem map_input_visits (e : ε) (is : List ι) : (visits step e is).map (·.input) = is := by
  induction is generalizing e with
  | nil => rfl
  | cons i is ih => simp [visits, ih]

/-- Cutting the visits at one of them cuts the inputs there. -/
theorem visits_split {e : ε} {is : List ι} {pre post : List (Visit ι ε ω)} {v : Visit ι ε ω}
    (h : visits step e is = pre ++ v :: post) :
    ∃ is₁ is₂, is = is₁ ++ v.input :: is₂ ∧ visits step e is₁ = pre ∧
      v.out = (step (final step e is₁) v.input).2 := by
  induction is generalizing e pre with
  | nil => simp [visits] at h
  | cons i is ih =>
    cases pre with
    | nil =>
      obtain ⟨rfl, rfl⟩ := List.cons.inj h
      exact ⟨[], is, rfl, rfl, rfl⟩
    | cons w pre =>
      obtain ⟨rfl, hrest⟩ := List.cons.inj h
      obtain ⟨is₁, is₂, rfl, rfl, hout⟩ := ih hrest
      exact ⟨i :: is₁, is₂, rfl, rfl, hout⟩

end Automaton

/-- An object that keeps one automaton for each key. -/
structure Family (σ κ ι ε ω : Type) [DecidableEq κ] where
  act : σ → κ → ι → σ × ω
  /-- the state of the automaton of a key -/
  entry : σ → κ → ε
  step : ε → ι → ε × ω
  act_out : ∀ s k i, (act s k i).2 = (step (entry s k) i).2
  entry_act : ∀ s k i, entry (act s k i).1 = Function.update (entry s) k (step (entry s k) i).1

namespace Family

variable [DecidableEq κ] (F : Family σ κ ι ε ω)

/-- The inputs of the object, each with its key and its visit at that key. -/
def log : σ → List (κ × ι) → List (κ × Visit ι ε ω)
  | _, [] => []
  | s, (k, i) :: cs => (k, ⟨i, (F.act s k i).2, F.entry (F.act s k i).1 k⟩) :: log
      (F.act s k i).1 cs

def onKey {α : Type} (k : κ) (l : List (κ × α)) : List α := (l.filter (·.1 = k)).map Prod.snd

variable {F}

/-- **What happens at a key** is what its automaton does with the inputs for the key. -/
theorem log_onKey (k : κ) (s : σ) (cs : List (κ × ι)) :
    onKey k (F.log s cs) = visits F.step (F.entry s k) (onKey k cs) := by
  induction cs generalizing s with
  | nil => rfl
  | cons c cs ih =>
    obtain ⟨k', i⟩ := c
    have hentry := congrFun (F.entry_act s k' i)
    by_cases hk : k' = k
    · subst hk
      have hself := (hentry k').trans (Function.update_self _ _ _)
      have hlog := ih (F.act s k' i).1
      rw [hself] at hlog
      simp only [onKey, log, List.filter_cons, decide_true, if_true, List.map_cons, visits,
        F.act_out, hself]
      exact congrArg _ hlog
    · have hother := (hentry k).trans (Function.update_of_ne (Ne.symm hk) _ _)
      have hlog := ih (F.act s k' i).1
      rw [hother] at hlog
      simp only [onKey, log, List.filter_cons, hk, decide_false]
      exact hlog

end Family

end Keyed
