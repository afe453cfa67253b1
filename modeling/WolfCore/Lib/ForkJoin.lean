import Mathlib.Tactic

/-!
# Fork and join

A goroutine starts one goroutine for each of a list of inputs and waits until all of them are done.
A goroutine that has been started calls its function, which takes steps over a shared state until it
returns a result, and is done after some more work with the result.  A schedule is a list of moves,
so a property of every schedule is a property of all lists of moves.

* `Fork`, `Move`, `Fork.run`: one fork, with the calls and returns in the order in which they
  happen;
* `Fork.Traced`, `Fork.traced_run`: each function is called at most once, with the input of its
  goroutine, and has returned when the goroutine is done;
* `Fork.exists_joinable`: if the functions return, the wait comes to an end;
* `Batches`, `Batches.run`: forks one after the other, each joined before the next one starts;
* `Batches.inv_run`: when a function is called, all functions of the earlier batches have returned;
* `Batches.exists_ended`: if the functions return, every batch is joined in the end.
-/

namespace ForkJoin

inductive Slot (ι τ ρ : Type)
  /-- not started yet -/
  | pending (x : ι)
  /-- started, before the call of its function -/
  | spawned (x : ι)
  /-- in its function -/
  | running (t : τ)
  /-- the function has returned -/
  | returned (r : ρ)
  | done (r : ρ)
  deriving DecidableEq

/-- The function of goroutine `k` is called or returns. -/
inductive Event (ι ρ : Type)
  | call (k : ℕ) (x : ι)
  | ret (k : ℕ) (r : ρ)
  deriving DecidableEq

def Event.pos {ι ρ : Type} : Event ι ρ → ℕ
  | call k _ => k
  | ret k _ => k

def Event.isCall {ι ρ : Type} : Event ι ρ → Bool
  | call _ _ => true
  | ret _ _ => false

/-- What the goroutines do: the state in which the function of an input starts, its steps over the
shared state under a choice of the surroundings, and what is done with a result.  The surroundings
can change the shared state. -/
structure Body (ι τ ρ σ O A : Type) where
  start : ι → τ
  step : O → τ → σ → (τ ⊕ ρ) × σ
  finish : ρ → σ → σ
  env : A → σ → σ

/-- A fork: the shared state, the calls and returns so far (newest first), the number of the first
goroutine, and the goroutines. -/
structure Fork (ι τ ρ σ : Type) where
  shared : σ
  log : List (Event ι ρ)
  base : ℕ
  slots : List (Slot ι τ ρ)

/-- The forking goroutine starts the next goroutine, a goroutine makes a step, or the surroundings
change the shared state. -/
inductive Move (O A : Type)
  | spawn
  | step (i : ℕ) (o : O)
  | env (a : A)

section Fork

variable {ι τ ρ σ O A : Type}

/-- The next step of goroutine `k`, with the events it adds. -/
def Slot.step (body : Body ι τ ρ σ O A) (k : ℕ) (o : O) (s : σ) :
    Slot ι τ ρ → Slot ι τ ρ × List (Event ι ρ) × σ
  | pending x => (pending x, [], s)
  | spawned x => (running (body.start x), [.call k x], s)
  | running t =>
      match body.step o t s with
      | (.inl t', s') => (running t', [], s')
      | (.inr r, s') => (returned r, [.ret k r], s')
  | returned r => (done r, [], body.finish r s)
  | done r => (done r, [], s)

/-- The goroutines are started in order. -/
def spawnFirst : List (Slot ι τ ρ) → List (Slot ι τ ρ)
  | [] => []
  | .pending x :: slots => .spawned x :: slots
  | slot :: slots => slot :: spawnFirst slots

/-- The goroutines of a list of inputs, none of them started. -/
def Fork.start (s : σ) (log : List (Event ι ρ)) (base : ℕ) (inputs : List ι) : Fork ι τ ρ σ :=
  ⟨s, log, base, inputs.map .pending⟩

/-- One move.  A step of a goroutine that has not been started or that is done does nothing. -/
def Fork.advance (body : Body ι τ ρ σ O A) (f : Fork ι τ ρ σ) : Move O A → Fork ι τ ρ σ
  | .spawn => { f with slots := spawnFirst f.slots }
  | .step i o =>
      match f.slots[i]? with
      | some slot =>
          let next := slot.step body (f.base + i) o f.shared
          { f with
            shared := next.2.2
            log := next.2.1 ++ f.log
            slots := f.slots.set i next.1 }
      | none => f
  | .env a => { f with shared := body.env a f.shared }

def Fork.run (body : Body ι τ ρ σ O A) (f : Fork ι τ ρ σ) (ms : List (Move O A)) : Fork ι τ ρ σ :=
  ms.foldl (Fork.advance body) f

def Slot.result? : Slot ι τ ρ → Option ρ
  | done r => some r
  | _ => none

/-- All goroutines are done: the wait is over. -/
def Fork.joinable (f : Fork ι τ ρ σ) : Bool := f.slots.all fun slot => slot.result?.isSome

def Fork.results (f : Fork ι τ ρ σ) : List ρ := f.slots.filterMap Slot.result?

/-! ### Calls and returns -/

/-- The goroutine has the input `x`, as far as it has not used it yet. -/
def Slot.Serves (x : ι) : Slot ι τ ρ → Prop
  | pending y => y = x
  | spawned y => y = x
  | _ => True

/-- The calls and returns of goroutine `k`, newest first. -/
def Slot.trace (k : ℕ) (x : ι) : Slot ι τ ρ → List (Event ι ρ)
  | pending _ => []
  | spawned _ => []
  | running _ => [.call k x]
  | returned r => [.ret k r, .call k x]
  | done r => [.ret k r, .call k x]

theorem Slot.step_trace (body : Body ι τ ρ σ O A) {x : ι} (slot : Slot ι τ ρ) (hx : slot.Serves x)
    (k : ℕ) (o : O) (s : σ) : (slot.step body k o s).1.Serves x ∧
      (slot.step body k o s).1.trace k x = (slot.step body k o s).2.1 ++ slot.trace k x := by
  cases slot with
  | pending y => exact ⟨hx, rfl⟩
  | spawned y =>
    cases hx
    exact ⟨trivial, rfl⟩
  | running t =>
    simp only [Slot.step]
    split <;> exact ⟨trivial, rfl⟩
  | returned r => exact ⟨trivial, rfl⟩
  | done r => exact ⟨trivial, rfl⟩

/-- A step adds at most one event, of its own goroutine. -/
theorem Slot.step_events (body : Body ι τ ρ σ O A) (slot : Slot ι τ ρ) (k : ℕ) (o : O) (s : σ) :
    (slot.step body k o s).2.1 = [] ∨ ∃ e, (slot.step body k o s).2.1 = [e] ∧ e.pos = k := by
  cases slot with
  | spawned x => exact .inr ⟨_, rfl, rfl⟩
  | running t =>
    simp only [Slot.step]
    split
    · exact .inl rfl
    · exact .inr ⟨_, rfl, rfl⟩
  | _ => exact .inl rfl

theorem Slot.step_pos (body : Body ι τ ρ σ O A) (slot : Slot ι τ ρ) (k : ℕ) (o : O) (s : σ)
    {e : Event ι ρ} (he : e ∈ (slot.step body k o s).2.1) : e.pos = k := by
  rcases slot.step_events body k o s with hnil | ⟨e', heq, hpos⟩
  · rw [hnil] at he
    cases he
  · rw [heq] at he
    cases List.mem_singleton.1 he
    exact hpos

/-- The function of a goroutine is in a state with `K`, or its result has `Q`. -/
def Slot.Keeps (K : τ → Prop) (Q : ρ → Prop) : Slot ι τ ρ → Prop
  | running t => K t
  | returned r => Q r
  | done r => Q r
  | _ => True

theorem Slot.step_keeps {body : Body ι τ ρ σ O A} {K : τ → Prop} {Q : ρ → Prop} {x : ι}
    (hstart : K (body.start x))
    (hstep : ∀ o t s, K t → (∀ t', (body.step o t s).1 = .inl t' → K t') ∧
      ∀ r, (body.step o t s).1 = .inr r → Q r)
    {slot : Slot ι τ ρ} (hx : slot.Serves x) (h : slot.Keeps K Q) (k : ℕ) (o : O) (s : σ) :
    (slot.step body k o s).1.Keeps K Q := by
  cases slot with
  | spawned y =>
    cases hx
    exact hstart
  | running t =>
    obtain ⟨hleft, hright⟩ := hstep o t s h
    simp only [Slot.step]
    split
    · rename_i t' s' heq
      exact hleft t' (by rw [heq])
    · rename_i r s' heq
      exact hright r (by rw [heq])
  | _ => exact h

/-- The first goroutine that has not been started is started. -/
theorem spawnFirst_append {pre : List (Slot ι τ ρ)} (hpre : ∀ slot ∈ pre, ∀ y, slot ≠ .pending y)
    (x : ι) (post : List (Slot ι τ ρ)) :
    spawnFirst (pre ++ .pending x :: post) = pre ++ .spawned x :: post := by
  induction pre with
  | nil => rfl
  | cons slot pre ih =>
    have hrest := ih fun slot' h => hpre slot' (List.mem_cons_of_mem _ h)
    cases slot with
    | pending y => exact absurd rfl (hpre _ List.mem_cons_self y)
    | _ => exact congrArg (List.cons _) hrest

theorem spawnFirst_cases (slots : List (Slot ι τ ρ)) : spawnFirst slots = slots ∨
    ∃ i x, slots[i]? = some (.pending x) ∧ spawnFirst slots = slots.set i (.spawned x) := by
  induction slots with
  | nil => exact .inl rfl
  | cons slot slots ih =>
    have hrest : spawnFirst (slot :: slots) = slot :: spawnFirst slots →
        spawnFirst (slot :: slots) = slot :: slots ∨
          ∃ i x, (slot :: slots)[i]? = some (.pending x) ∧
            spawnFirst (slot :: slots) = (slot :: slots).set i (.spawned x) := by
      intro heq
      rcases ih with ih | ⟨i, x, hi, ih⟩
      · exact .inl (heq.trans (congrArg _ ih))
      · exact .inr ⟨i + 1, x, hi, heq.trans (congrArg _ ih)⟩
    cases slot with
    | pending x => exact .inr ⟨0, x, rfl, rfl⟩
    | _ => exact hrest rfl

/-- Each function has been called once, with its input, and has returned its result once. -/
structure Answered (inputs : List ι) (results : List ρ) (log : List (Event ι ρ)) : Prop where
  length_eq : results.length = inputs.length
  pos_lt : ∀ e ∈ log, e.pos < inputs.length
  trace : ∀ {k x}, inputs[k]? = some x → ∃ r, results[k]? = some r ∧
    log.filter (fun e => e.pos = k) = [.ret k r, .call k x]

theorem Answered.ret_mem_iff {inputs : List ι} {results : List ρ} {log : List (Event ι ρ)}
    (h : Answered inputs results log) {k : ℕ} {r : ρ} : .ret k r ∈ log ↔ results[k]? = some r := by
  have hfilter : .ret k r ∈ log ↔ .ret k r ∈ log.filter (fun e => e.pos = k) := by
    rw [List.mem_filter]
    simp [Event.pos]
  by_cases hk : k < inputs.length
  · obtain ⟨r', hr', htrace⟩ := h.trace (List.getElem?_eq_getElem hk)
    rw [hfilter, htrace, hr']
    simp [eq_comm]
  · refine iff_of_false (fun hmem => hk (h.pos_lt _ hmem)) fun hr => hk ?_
    rw [← h.length_eq]
    exact (List.getElem?_eq_some_iff.1 hr).1

/-- Goroutine `base + i` serves input `i`, and its calls and returns are those of its state. -/
structure Fork.Traced (inputs : List ι) (f : Fork ι τ ρ σ) : Prop where
  length_eq : f.slots.length = inputs.length
  slot : ∀ {i x slot}, inputs[i]? = some x → f.slots[i]? = some slot → slot.Serves x ∧
    f.log.filter (fun e => e.pos = f.base + i) = slot.trace (f.base + i) x
  pos_lt : ∀ e ∈ f.log, e.pos < f.base + inputs.length

namespace Fork

variable {body : Body ι τ ρ σ O A} {inputs : List ι} {f : Fork ι τ ρ σ}

theorem traced_start {s : σ} {log : List (Event ι ρ)} {base : ℕ} (hlog : ∀ e ∈ log, e.pos < base) :
    (Fork.start s log base inputs : Fork ι τ ρ σ).Traced inputs where
  length_eq := List.length_map _
  slot := fun {i x slot} hx hslot => by
    rw [Fork.start, List.getElem?_map, hx] at hslot
    cases hslot
    refine ⟨rfl, List.filter_eq_nil_iff.2 fun e he => ?_⟩
    have := hlog e he
    simp only [decide_eq_true_eq]
    show ¬e.pos = base + i
    omega
  pos_lt := fun e he => Nat.lt_add_right _ (hlog e he)

theorem base_advance (m : Move O A) : (f.advance body m).base = f.base := by
  cases m with
  | step i o =>
    simp only [advance]
    split <;> rfl
  | _ => rfl

theorem getElem?_set_cases {slots : List (Slot ι τ ρ)} {i j : ℕ} {a b : Slot ι τ ρ}
    (h : (slots.set i a)[j]? = some b) : (j = i ∧ b = a) ∨ (j ≠ i ∧ slots[j]? = some b) := by
  by_cases hij : i = j
  · subst hij
    rw [List.getElem?_set_self'] at h
    cases hi : slots[i]? <;> simp_all
  · rw [List.getElem?_set_ne hij] at h
    exact .inr ⟨Ne.symm hij, h⟩

theorem Traced.spawn (hf : f.Traced inputs) : (f.advance body .spawn).Traced inputs := by
  rcases spawnFirst_cases f.slots with heq | ⟨i, x, hi, heq⟩
  · rw [advance, heq]
    exact hf
  · rw [advance, heq]
    refine ⟨(List.length_set ..).trans hf.length_eq, fun {j y slot} hy hslot => ?_, hf.pos_lt⟩
    rcases getElem?_set_cases hslot with ⟨rfl, rfl⟩ | ⟨-, hslot⟩
    · obtain ⟨hserves, htrace⟩ := hf.slot hy hi
      exact ⟨hserves, htrace⟩
    · exact hf.slot hy hslot

theorem Traced.step (hf : f.Traced inputs) (i : ℕ) (o : O) :
    (f.advance body (.step i o)).Traced inputs := by
  simp only [advance]
  split
  · rename_i slot hslot
    have hi : i < inputs.length := hf.length_eq ▸ (List.getElem?_eq_some_iff.1 hslot).1
    refine ⟨(List.length_set ..).trans hf.length_eq, fun {j y slot'} hy hslot' => ?_,
      fun e he => ?_⟩
    · rw [List.filter_append]
      rcases getElem?_set_cases hslot' with ⟨rfl, rfl⟩ | ⟨hne, hslot'⟩
      · obtain ⟨hserves, htrace⟩ := hf.slot hy hslot
        obtain ⟨hserves', htrace'⟩ := slot.step_trace body hserves (f.base + j) o f.shared
        refine ⟨hserves', ?_⟩
        rw [htrace', ← htrace, List.filter_eq_self.2 fun e he => ?_]
        simpa using slot.step_pos body _ o f.shared he
      · obtain ⟨hserves, htrace⟩ := hf.slot hy hslot'
        refine ⟨hserves, ?_⟩
        rw [List.filter_eq_nil_iff.2 fun e he => ?_]
        · exact htrace
        · have hpos := slot.step_pos body _ o f.shared he
          simp only [decide_eq_true_eq]
          omega
    · rcases List.mem_append.1 he with he | he
      · have hpos := slot.step_pos body _ o f.shared he
        show e.pos < f.base + inputs.length
        omega
      · exact hf.pos_lt e he
  · exact hf

theorem Traced.advance (hf : f.Traced inputs) (m : Move O A) :
    (f.advance body m).Traced inputs := by
  cases m with
  | spawn => exact hf.spawn
  | step i o => exact hf.step i o
  | env a => exact ⟨hf.length_eq, hf.slot, hf.pos_lt⟩

/-- **Each function is called at most once, with its input, and returns at most once.** -/
theorem traced_run (hf : f.Traced inputs) (ms : List (Move O A)) :
    (f.run body ms).Traced inputs := by
  induction ms generalizing f with
  | nil => exact hf
  | cons m ms ih => exact ih (hf.advance m)

/-- The function of input `x` is in a state with `K x`, or its result has `Q x`. -/
def Keeping (inputs : List ι) (K : ι → τ → Prop) (Q : ι → ρ → Prop) (f : Fork ι τ ρ σ) : Prop :=
  ∀ (i : ℕ) (x : ι) (slot : Slot ι τ ρ), inputs[i]? = some x → f.slots[i]? = some slot →
    slot.Keeps (K x) (Q x)

section Keeping

variable {K : ι → τ → Prop} {Q : ι → ρ → Prop} (hstart : ∀ x, K x (body.start x))
  (hstep : ∀ x o t s, K x t → (∀ t', (body.step o t s).1 = .inl t' → K x t') ∧
    ∀ r, (body.step o t s).1 = .inr r → Q x r)

include hstart hstep

theorem Keeping.advance (hkeep : f.Keeping inputs K Q) (hf : f.Traced inputs) (m : Move O A) :
    (f.advance body m).Keeping inputs K Q := by
  intro j y slot' hy hslot'
  cases m with
  | spawn =>
    rcases spawnFirst_cases f.slots with heq | ⟨i, x, hi, heq⟩
    · rw [Fork.advance, heq] at hslot'
      exact hkeep _ _ _ hy hslot'
    · rw [Fork.advance, heq] at hslot'
      rcases getElem?_set_cases hslot' with ⟨-, rfl⟩ | ⟨-, hslot'⟩
      · trivial
      · exact hkeep _ _ _ hy hslot'
  | step i o =>
    cases hi : f.slots[i]? with
    | none =>
      simp only [Fork.advance, hi] at hslot'
      exact hkeep _ _ _ hy hslot'
    | some slot =>
      simp only [Fork.advance, hi] at hslot'
      rcases getElem?_set_cases hslot' with ⟨rfl, rfl⟩ | ⟨-, hslot'⟩
      · exact Slot.step_keeps (hstart y) (hstep y) (hf.slot hy hi).1 (hkeep _ _ _ hy hi) _ _ _
      · exact hkeep _ _ _ hy hslot'
  | env a => exact hkeep _ _ _ hy hslot'

/-- What holds when the functions start and is kept by their steps holds of their results. -/
theorem keeping_run (hkeep : f.Keeping inputs K Q) (hf : f.Traced inputs) (ms : List (Move O A)) :
    (f.run body ms).Keeping inputs K Q := by
  induction ms generalizing f with
  | nil => exact hkeep
  | cons m ms ih => exact ih (hkeep.advance hstart hstep hf m) (hf.advance m)

end Keeping

theorem keeping_start {K : ι → τ → Prop} {Q : ι → ρ → Prop} (s : σ) (log : List (Event ι ρ))
    (base : ℕ) : (Fork.start s log base inputs : Fork ι τ ρ σ).Keeping inputs K Q := by
  intro i x slot hx hslot
  rw [Fork.start, List.getElem?_map, hx] at hslot
  cases hslot
  trivial

theorem slots_eq_of_joinable (hf : f.joinable = true) : f.slots = f.results.map .done := by
  rw [joinable, List.all_eq_true] at hf
  rw [results]
  generalize f.slots = slots at hf ⊢
  induction slots with
  | nil => rfl
  | cons slot slots ih =>
    have hslots := ih fun slot' h => hf slot' (List.mem_cons_of_mem _ h)
    have hslot := hf slot List.mem_cons_self
    cases slot with
    | done r => exact congrArg (Slot.done r :: ·) hslots
    | _ => exact absurd hslot (by simp [Slot.result?])

theorem length_results (hf : f.joinable = true) : f.results.length = f.slots.length := by
  rw [slots_eq_of_joinable hf, List.length_map]

theorem Keeping.results {K : ι → τ → Prop} {Q : ι → ρ → Prop} (hkeep : f.Keeping inputs K Q)
    (hdone : f.joinable = true) {i : ℕ} {x : ι} {r : ρ} (hx : inputs[i]? = some x)
    (hr : f.results[i]? = some r) : Q x r := by
  have hslot : f.slots[i]? = some (.done r) := by
    rw [slots_eq_of_joinable hdone, List.getElem?_map, hr]
    rfl
  exact hkeep _ _ _ hx hslot

/-- What a goroutine that is done has done: one call, and its return. -/
theorem Traced.trace_of_joinable (hf : f.Traced inputs) (hdone : f.joinable = true) {i : ℕ} {x : ι}
    (hx : inputs[i]? = some x) : ∃ r, f.results[i]? = some r ∧
      f.log.filter (fun e => e.pos = f.base + i) = [.ret (f.base + i) r, .call (f.base + i) x] := by
  have hi : i < f.results.length := by
    rw [length_results hdone, hf.length_eq]
    exact (List.getElem?_eq_some_iff.1 hx).1
  obtain ⟨r, hr⟩ : ∃ r, f.results[i]? = some r := ⟨_, List.getElem?_eq_getElem hi⟩
  have hslot : f.slots[i]? = some (.done r) := by
    rw [slots_eq_of_joinable hdone, List.getElem?_map, hr]
    rfl
  exact ⟨r, hr, (hf.slot hx hslot).2⟩

theorem Traced.answered (hf : f.Traced inputs) (hbase : f.base = 0) (hdone : f.joinable = true) :
    Answered inputs f.results f.log where
  length_eq := (length_results hdone).trans hf.length_eq
  pos_lt := fun e he => by simpa [hbase] using hf.pos_lt e he
  trace := fun hx => by simpa [hbase] using hf.trace_of_joinable hdone hx

theorem base_run (f : Fork ι τ ρ σ) (ms : List (Move O A)) : (f.run body ms).base = f.base := by
  induction ms generalizing f with
  | nil => rfl
  | cons m ms ih => exact (ih (f.advance body m)).trans (base_advance m)

theorem log_advance (body : Body ι τ ρ σ O A) (f : Fork ι τ ρ σ) (m : Move O A) :
    (f.advance body m).log = f.log ∨ ∃ e, (f.advance body m).log = e :: f.log ∧
      f.base ≤ e.pos ∧ e.pos < f.base + f.slots.length := by
  cases m with
  | step i o =>
    simp only [advance]
    split
    · rename_i slot hslot
      have hi := (List.getElem?_eq_some_iff.1 hslot).1
      rcases slot.step_events body (f.base + i) o f.shared with hnil | ⟨e, heq, hpos⟩
      · exact .inl (by rw [hnil]; rfl)
      · exact .inr ⟨e, by rw [heq]; rfl, by omega, by omega⟩
    · exact .inl rfl
  | _ => exact .inl rfl

/-- All goroutines can be started before one of them makes a step. -/
theorem run_spawn (s : σ) (log : List (Event ι ρ)) (base : ℕ) (inputs : List ι) :
    (Fork.start s log base inputs : Fork ι τ ρ σ).run body (List.replicate inputs.length .spawn) =
      ⟨s, log, base, inputs.map .spawned⟩ := by
  suffices h : ∀ pre inputs : List ι,
      (⟨s, log, base, pre.map .spawned ++ inputs.map .pending⟩ : Fork ι τ ρ σ).run body
        (List.replicate inputs.length .spawn) = ⟨s, log, base, (pre ++ inputs).map .spawned⟩ from
    h [] inputs
  intro pre inputs
  induction inputs generalizing pre with
  | nil => simp [run]
  | cons x inputs ih =>
    have hspawn : (⟨s, log, base, pre.map .spawned ++ (x :: inputs).map .pending⟩ :
        Fork ι τ ρ σ).advance body .spawn =
          ⟨s, log, base, (pre ++ [x]).map .spawned ++ inputs.map .pending⟩ := by
      rw [List.map_cons, advance, spawnFirst_append (by simp)]
      simp
    have hrest := ih (pre ++ [x])
    rw [List.append_assoc, List.singleton_append] at hrest
    rw [List.length_cons, List.replicate_succ, run, List.foldl_cons, hspawn]
    exact hrest

/-! ### The end of the wait -/

theorem run_append (f : Fork ι τ ρ σ) (ms ms' : List (Move O A)) :
    f.run body (ms ++ ms') = (f.run body ms).run body ms' := List.foldl_append

/-- The goroutine between `pre` and `post` can be brought to its end. -/
def Completes (body : Body ι τ ρ σ O A) (f : Fork ι τ ρ σ) (pre post : List (Slot ι τ ρ)) : Prop :=
  ∃ ms r, (f.run body ms).slots = pre ++ .done r :: post

section Termination

variable {pre post : List (Slot ι τ ρ)}

theorem Completes.of_advance {m : Move O A} (h : Completes body (f.advance body m) pre post) :
    Completes body f pre post := by
  obtain ⟨ms, r, heq⟩ := h
  exact ⟨m :: ms, r, heq⟩

variable (body) in
theorem slots_step {slot : Slot ι τ ρ} (hf : f.slots = pre ++ slot :: post) (o : O) :
    (f.advance body (.step pre.length o)).slots =
      pre ++ (slot.step body (f.base + pre.length) o f.shared).1 :: post := by
  have hget : f.slots[pre.length]? = some slot := by
    rw [hf]
    simp
  simp only [advance, hget]
  rw [hf, List.set_append_right _ _ le_rfl, Nat.sub_self, List.set_cons_zero]

theorem completes_returned (o : O) {r : ρ} (hf : f.slots = pre ++ .returned r :: post) :
    Completes body f pre post :=
  .of_advance (m := .step pre.length o) ⟨[], r, slots_step body hf o⟩

theorem completes_running {size : τ → ℕ}
    (hsize : ∀ o t s t', (body.step o t s).1 = .inl t' → size t' < size t) (o : O) {t : τ}
    (hf : f.slots = pre ++ .running t :: post) : Completes body f pre post := by
  -- Every step makes the state of the function smaller until the function returns.
  induction hn : size t using Nat.strong_induction_on generalizing f t with
  | _ n ih =>
    refine .of_advance (m := .step pre.length o) ?_
    have hslots := slots_step body hf o
    simp only [Slot.step] at hslots
    split at hslots
    · rename_i t' s' hstep
      exact ih (size t') (hn ▸ hsize o t f.shared t' (by rw [hstep])) hslots rfl
    · exact completes_returned o hslots

theorem completes {size : τ → ℕ}
    (hsize : ∀ o t s t', (body.step o t s).1 = .inl t' → size t' < size t) (o : O)
    {slot : Slot ι τ ρ} (hf : f.slots = pre ++ slot :: post)
    (hpre : ∀ slot ∈ pre, slot.result?.isSome = true) : Completes body f pre post := by
  have hspawned : ∀ {f : Fork ι τ ρ σ} {x}, f.slots = pre ++ .spawned x :: post →
      Completes body f pre post := fun hf =>
    .of_advance (m := .step pre.length o) (completes_running hsize o (slots_step body hf o))
  cases slot with
  | pending x =>
    refine .of_advance (m := .spawn) (hspawned (x := x) ?_)
    -- The goroutines before this one are done, so it is the next one to be started.
    rw [advance, hf]
    refine spawnFirst_append (fun slot hslot y heq => ?_) x post
    exact absurd (hpre slot hslot) (by simp [heq, Slot.result?])
  | spawned x => exact hspawned hf
  | running t => exact completes_running hsize o hf
  | returned r => exact completes_returned o hf
  | done r => exact ⟨[], r, hf⟩

variable (body) in
/-- **If the functions return, the wait comes to an end**, whatever has happened before. -/
theorem exists_joinable {size : τ → ℕ}
    (hsize : ∀ o t s t', (body.step o t s).1 = .inl t' → size t' < size t) (o : O)
    (f : Fork ι τ ρ σ) : ∃ ms, (f.run body ms).joinable = true := by
  suffices h : ∀ (post pre : List (Slot ι τ ρ)) (f : Fork ι τ ρ σ), f.slots = pre ++ post →
      (∀ slot ∈ pre, slot.result?.isSome = true) → ∃ ms, (f.run body ms).joinable = true from
    h f.slots [] f rfl nofun
  intro post
  induction post with
  | nil =>
    intro pre f hf hpre
    refine ⟨[], List.all_eq_true.2 fun slot hslot => hpre slot ?_⟩
    have hrun : f.run body [] = f := rfl
    rwa [hrun, hf, List.append_nil] at hslot
  | cons slot post ih =>
    intro pre f hf hpre
    obtain ⟨ms, r, hms⟩ := completes hsize o hf hpre
    obtain ⟨ms', hms'⟩ := ih (pre ++ [.done r]) (f.run body ms) (by simp [hms]) fun slot' h => by
      rcases List.mem_append.1 h with h | h
      · exact hpre slot' h
      · cases List.mem_singleton.1 h
        rfl
    exact ⟨ms ++ ms', by rwa [run_append]⟩

end Termination

end Fork

end Fork

/-! ### Batches -/

/-- Forks one after the other: the results of the batches that have been joined, the current fork
and the batches to come. -/
structure Batches (ι τ ρ σ : Type) where
  joined : List (List ρ)
  fork : Fork ι τ ρ σ
  rest : List (List ι)
  ended : Bool

/-- A move of the current fork, or the end of the wait for it. -/
inductive BatchMove (O A : Type)
  | fork (m : Move O A)
  | join

/-- The number of the first goroutine of the batch that goroutine `k` belongs to. -/
def startOf {ι : Type} : List (List ι) → ℕ → ℕ
  | [], _ => 0
  | batch :: batches, k =>
      if k < batch.length then 0 else batch.length + startOf batches (k - batch.length)

section Batches

variable {ι τ ρ σ O A : Type}

/-- The next batch starts, if there is one. -/
def Batches.enter (joined : List (List ρ)) (s : σ) (log : List (Event ι ρ)) (base : ℕ) :
    List (List ι) → Batches ι τ ρ σ
  | [] => ⟨joined, .start s log base [], [], true⟩
  | batch :: batches => ⟨joined, .start s log base batch, batches, false⟩

def Batches.start (s : σ) (batches : List (List ι)) : Batches ι τ ρ σ := .enter [] s [] 0 batches

def Batches.advance (body : Body ι τ ρ σ O A) (b : Batches ι τ ρ σ) :
    BatchMove O A → Batches ι τ ρ σ
  | .fork m => { b with fork := b.fork.advance body m }
  | .join =>
      if b.ended = false ∧ b.fork.joinable = true then
        .enter (b.joined ++ [b.fork.results]) b.fork.shared b.fork.log
          (b.fork.base + b.fork.slots.length) b.rest
      else b

def Batches.run (body : Body ι τ ρ σ O A) (b : Batches ι τ ρ σ) (ms : List (BatchMove O A)) :
    Batches ι τ ρ σ := ms.foldl (Batches.advance body) b

/-- When a function is called, all functions of the earlier batches have returned. -/
def Ordered (batches : List (List ι)) : List (Event ι ρ) → Prop
  | [] => True
  | .call k _ :: log => (∀ j < startOf batches k, ∃ r, .ret j r ∈ log) ∧ Ordered batches log
  | .ret _ _ :: log => Ordered batches log

theorem Ordered.split {batches : List (List ι)} {post log : List (Event ι ρ)} {k : ℕ} {x : ι}
    (h : Ordered batches (post ++ .call k x :: log)) {j : ℕ} (hj : j < startOf batches k) :
    ∃ r, .ret j r ∈ log := by
  induction post with
  | nil => exact h.1 j hj
  | cons e post ih =>
    cases e with
    | call k' y => exact ih h.2
    | ret k' r => exact ih h

theorem startOf_append (front : List (List ι)) {batch : List ι} (rest : List (List ι)) {i : ℕ}
    (hi : i < batch.length) :
    startOf (front ++ batch :: rest) (front.flatten.length + i) = front.flatten.length := by
  induction front with
  | nil =>
    rw [List.flatten_nil, List.length_nil, Nat.zero_add, List.nil_append, startOf, if_pos hi]
  | cons b front ih =>
    rw [List.flatten_cons, List.length_append, List.cons_append, startOf, if_neg (by omega),
      show b.length + front.flatten.length + i - b.length = front.flatten.length + i by omega, ih]

/-- `front` has been joined, and `batch` is being worked on. -/
structure Batches.Inv (batches front : List (List ι)) (batch : List ι) (b : Batches ι τ ρ σ) :
    Prop where
  split : batches = front ++ if b.ended then [] else batch :: b.rest
  batch_nil : b.ended = true → batch = []
  lengths : b.joined.map List.length = front.map List.length
  base_eq : b.fork.base = front.flatten.length
  traced : b.fork.Traced batch
  past : ∀ {k x}, front.flatten[k]? = some x → ∃ r, b.joined.flatten[k]? = some r ∧
    b.fork.log.filter (fun e => e.pos = k) = [.ret k r, .call k x]
  ordered : Ordered batches b.fork.log

namespace Batches

variable {body : Body ι τ ρ σ O A} {batches front : List (List ι)} {batch : List ι}
  {b : Batches ι τ ρ σ}

theorem Inv.length_flatten (hb : b.Inv batches front batch) :
    b.joined.flatten.length = front.flatten.length := by
  rw [List.length_flatten, List.length_flatten, hb.lengths]

theorem Inv.fork (hb : b.Inv batches front batch) (m : Move O A) :
    (b.advance body (.fork m)).Inv batches front batch := by
  refine ⟨hb.split, hb.batch_nil, hb.lengths, (Fork.base_advance m).trans hb.base_eq,
    hb.traced.advance m, fun {k x} hx => ?_, ?_⟩
  · -- The goroutines of earlier batches have numbers below the base.
    have hk : k < b.fork.base := hb.base_eq ▸ (List.getElem?_eq_some_iff.1 hx).1
    obtain ⟨r, hr, htrace⟩ := hb.past hx
    refine ⟨r, hr, ?_⟩
    show (b.fork.advance body m).log.filter _ = _
    rcases Fork.log_advance body b.fork m with heq | ⟨e, heq, hpos, -⟩
    · rw [heq, htrace]
    · rw [heq, List.filter_cons, if_neg (by simp only [decide_eq_true_eq]; omega), htrace]
  · show Ordered batches (b.fork.advance body m).log
    rcases Fork.log_advance body b.fork m with heq | ⟨e, heq, hle, hlt⟩
    · rw [heq]
      exact hb.ordered
    · rw [heq]
      cases e with
      | ret k r => exact hb.ordered
      | call k x =>
        refine ⟨fun j hj => ?_, hb.ordered⟩
        have hle : b.fork.base ≤ k := hle
        have hlt : k < b.fork.base + b.fork.slots.length := hlt
        have hnot : b.ended = false := by
          by_contra hended
          have hnil := hb.batch_nil (by simpa using hended)
          have hlen := hb.traced.length_eq
          rw [hnil, List.length_nil] at hlen
          omega
        have hstart : startOf batches k = front.flatten.length := by
          have hlen := hb.traced.length_eq
          rw [hb.split, hnot, if_neg Bool.false_ne_true]
          have heq : k = front.flatten.length + (k - front.flatten.length) := by
            have := hb.base_eq
            omega
          rw [heq]
          refine startOf_append front b.rest ?_
          have := hb.base_eq
          omega
        rw [hstart] at hj
        obtain ⟨r, -, htrace⟩ := hb.past (List.getElem?_eq_getElem hj)
        have hmem : .ret j r ∈ b.fork.log.filter (fun e => e.pos = j) := by
          rw [htrace]
          exact List.mem_cons_self
        exact ⟨r, (List.mem_filter.1 hmem).1⟩

theorem inv_enter {joined : List (List ρ)} {s : σ} {log : List (Event ι ρ)} {rest : List (List ι)}
    (hsplit : batches = front ++ rest) (hlengths : joined.map List.length = front.map List.length)
    (hlog : ∀ e ∈ log, e.pos < front.flatten.length)
    (hpast : ∀ {k x}, front.flatten[k]? = some x → ∃ r, joined.flatten[k]? = some r ∧
      log.filter (fun e => e.pos = k) = [.ret k r, .call k x])
    (hordered : Ordered batches log) :
    ∃ batch, (enter joined s log front.flatten.length rest : Batches ι τ ρ σ).Inv batches front
      batch := by
  cases rest with
  | nil =>
    exact ⟨[], hsplit, fun _ => rfl, hlengths, rfl, Fork.traced_start hlog, hpast, hordered⟩
  | cons batch rest =>
    exact ⟨batch, hsplit, nofun, hlengths, rfl, Fork.traced_start hlog, hpast, hordered⟩

theorem Inv.join (hb : b.Inv batches front batch) :
    ∃ front batch, (b.advance body .join).Inv batches front batch := by
  by_cases hjoin : b.ended = false ∧ b.fork.joinable = true
  · have hlen := Fork.length_results hjoin.2
    have hbase : b.fork.base + b.fork.slots.length = (front ++ [batch]).flatten.length := by
      rw [hb.base_eq, hb.traced.length_eq]
      simp
    rw [advance, if_pos hjoin, hbase]
    refine ⟨front ++ [batch], inv_enter ?_ ?_ ?_ ?_ hb.ordered⟩
    · have hsplit := hb.split
      rw [hjoin.1, if_neg Bool.false_ne_true] at hsplit
      simpa using hsplit
    · rw [List.map_append, List.map_append, hb.lengths, List.map_singleton, List.map_singleton,
        hlen,
        hb.traced.length_eq]
    · intro e he
      have hpos := hb.traced.pos_lt e he
      rwa [← hbase, hb.traced.length_eq]
    · intro k x hx
      rw [List.flatten_append, List.flatten_singleton] at hx
      rw [List.flatten_append, List.flatten_singleton]
      by_cases hk : k < front.flatten.length
      · rw [List.getElem?_append_left hk] at hx
        obtain ⟨r, hr, htrace⟩ := hb.past hx
        refine ⟨r, ?_, htrace⟩
        rwa [List.getElem?_append_left (hb.length_flatten ▸ hk)]
      · rw [List.getElem?_append_right (by omega)] at hx
        obtain ⟨r, hr, htrace⟩ := hb.traced.trace_of_joinable hjoin.2 hx
        have hkeq : b.fork.base + (k - front.flatten.length) = k := by
          have := hb.base_eq
          omega
        rw [hkeq] at htrace
        refine ⟨r, ?_, htrace⟩
        rwa [List.getElem?_append_right (by rw [hb.length_flatten]; omega), hb.length_flatten]
  · rw [advance, if_neg hjoin]
    exact ⟨front, batch, hb⟩

variable (body) in
theorem Inv.advance (hb : b.Inv batches front batch) (m : BatchMove O A) :
    ∃ front batch, (b.advance body m).Inv batches front batch := by
  cases m with
  | fork m => exact ⟨front, batch, hb.fork m⟩
  | join => exact hb.join

variable (body) in
theorem inv_run (s : σ) (batches : List (List ι)) (ms : List (BatchMove O A)) :
    ∃ front batch, ((start s batches).run body ms).Inv batches front batch := by
  have hrun : ∀ {b : Batches ι τ ρ σ} {front batch}, b.Inv batches front batch →
      ∃ front batch, (b.run body ms).Inv batches front batch := by
    induction ms with
    | nil => exact fun hb => ⟨_, _, hb⟩
    | cons m ms ih =>
      intro b front batch hb
      obtain ⟨front', batch', hb'⟩ := hb.advance body m
      exact ih hb'
  obtain ⟨batch, hb⟩ : ∃ batch, (start s batches : Batches ι τ ρ σ).Inv batches [] batch :=
    inv_enter (List.nil_append batches).symm rfl nofun (fun h => by simp at h) trivial
  exact hrun hb

theorem Inv.trace_cases (hb : b.Inv batches front batch) (k : ℕ) :
    b.fork.log.filter (fun e => e.pos = k) = [] ∨
      ∃ x, ∃ slot : Slot ι τ ρ, batches.flatten[k]? = some x ∧
        b.fork.log.filter (fun e => e.pos = k) = slot.trace k x := by
  have hfront : batches.flatten =
      front.flatten ++ (if b.ended then [] else batch :: b.rest).flatten := by
    conv_lhs => rw [hb.split, List.flatten_append]
  by_cases hk : k < front.flatten.length
  · obtain ⟨r, -, htrace⟩ := hb.past (List.getElem?_eq_getElem hk)
    refine .inr ⟨front.flatten[k], .done r, ?_, htrace⟩
    rw [hfront, List.getElem?_append_left hk, List.getElem?_eq_getElem hk]
  · by_cases hk' : k < b.fork.base + batch.length
    · have hi : k - b.fork.base < batch.length := by
        have := hb.base_eq
        omega
      have hnot : b.ended = false := by
        by_contra hended
        rw [hb.batch_nil (by simpa using hended), List.length_nil] at hi
        omega
      have hslot : k - b.fork.base < b.fork.slots.length := hb.traced.length_eq ▸ hi
      obtain ⟨-, htrace⟩ :=
        hb.traced.slot (List.getElem?_eq_getElem hi) (List.getElem?_eq_getElem hslot)
      have hkeq : b.fork.base + (k - b.fork.base) = k := by
        have := hb.base_eq
        omega
      rw [hkeq] at htrace
      refine .inr ⟨batch[k - b.fork.base], _, ?_, htrace⟩
      rw [hfront, hnot, if_neg Bool.false_ne_true, List.flatten_cons,
        List.getElem?_append_right (Nat.le_of_not_lt hk), ← hb.base_eq,
        List.getElem?_append_left hi, List.getElem?_eq_getElem hi]
    · refine .inl (List.filter_eq_nil_iff.2 fun e he => ?_)
      have hpos := hb.traced.pos_lt e he
      simp only [decide_eq_true_eq]
      omega

theorem Inv.input_of_call (hb : b.Inv batches front batch) {k : ℕ} {x : ι}
    (hmem : .call k x ∈ b.fork.log) : batches.flatten[k]? = some x := by
  have hfilter : .call k x ∈ b.fork.log.filter (fun e => e.pos = k) :=
    List.mem_filter.2 ⟨hmem, by simp [Event.pos]⟩
  rcases hb.trace_cases k with hnil | ⟨y, slot, hy, htrace⟩
  · rw [hnil] at hfilter
    cases hfilter
  · rw [htrace] at hfilter
    have hxy : x = y := by cases slot <;> simp_all [Slot.trace]
    exact hxy ▸ hy

theorem Inv.calls_le_one (hb : b.Inv batches front batch) (k : ℕ) :
    (b.fork.log.filter fun e => e.pos = k).countP Event.isCall ≤ 1 := by
  rcases hb.trace_cases k with hnil | ⟨y, slot, -, htrace⟩
  · rw [hnil]
    exact Nat.zero_le 1
  · rw [htrace]
    cases slot <;> simp [Slot.trace, Event.isCall]

/-- When all batches have been joined, each function has been called once, with its input, and has
returned its result. -/
theorem Inv.answered (hb : b.Inv batches front batch) (hended : b.ended = true) :
    Answered batches.flatten b.joined.flatten b.fork.log := by
  have hsplit := hb.split
  rw [hended, if_pos rfl, List.append_nil] at hsplit
  subst hsplit
  refine ⟨hb.length_flatten, fun e he => ?_, hb.past⟩
  have hpos := hb.traced.pos_lt e he
  rwa [hb.batch_nil hended, List.length_nil, Nat.add_zero, hb.base_eq] at hpos

theorem run_append (b : Batches ι τ ρ σ) (ms ms' : List (BatchMove O A)) :
    b.run body (ms ++ ms') = (b.run body ms).run body ms' := List.foldl_append

theorem run_fork (b : Batches ι τ ρ σ) (ms : List (Move O A)) :
    b.run body (ms.map .fork) = { b with fork := b.fork.run body ms } := by
  induction ms generalizing b with
  | nil => rfl
  | cons m ms ih => exact ih (b.advance body (.fork m))

variable (body) in
/-- Each goroutine of the first batch can be the first one to call its function. -/
theorem exists_first_call (o : O) (s : σ) {batch : List ι} {i : ℕ} {x : ι}
    (hx : batch[i]? = some x) (rest : List (List ι)) :
    ∃ ms, ((start s (batch :: rest)).run body ms).fork.log = [.call i x] := by
  refine ⟨(List.replicate batch.length Move.spawn ++ [Move.step i o]).map .fork, ?_⟩
  rw [run_fork, Fork.run_append]
  show (Fork.run body (Fork.run body (Fork.start s [] 0 batch) _) _).log = _
  rw [Fork.run_spawn]
  simp [Fork.run, Fork.advance, hx, Slot.step]

variable (body) in
/-- **If the functions return, all batches are joined in the end**, whatever has happened before. -/
theorem exists_ended {size : τ → ℕ}
    (hsize : ∀ o t s t', (body.step o t s).1 = .inl t' → size t' < size t) (o : O)
    (b : Batches ι τ ρ σ) : ∃ ms, (b.run body ms).ended = true := by
  induction hrest : b.rest generalizing b with
  | nil =>
    by_cases hended : b.ended = true
    · exact ⟨[], hended⟩
    · obtain ⟨ms, hms⟩ := Fork.exists_joinable body hsize o b.fork
      refine ⟨ms.map .fork ++ [.join], ?_⟩
      rw [run_append, run_fork]
      show (advance body _ .join).ended = true
      rw [advance, if_pos ⟨by simpa using hended, hms⟩, hrest]
      rfl
  | cons batch rest ih =>
    by_cases hended : b.ended = true
    · exact ⟨[], hended⟩
    · obtain ⟨ms, hms⟩ := Fork.exists_joinable body hsize o b.fork
      obtain ⟨ms', hms'⟩ := ih ((b.run body (ms.map .fork)).advance body .join) (by
        rw [run_fork, advance, if_pos ⟨by simpa using hended, hms⟩, hrest]
        rfl)
      exact ⟨ms.map .fork ++ (.join :: ms'), by rw [run_append]; exact hms'⟩

end Batches

end Batches

end ForkJoin
