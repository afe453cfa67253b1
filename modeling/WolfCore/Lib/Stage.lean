import WolfCore.Lib.Feed
import WolfCore.Lib.Sums
import Mathlib.Algebra.Order.BigOperators.Group.List
import Mathlib.Data.Multiset.AddSub

/-!
# Stages

Goroutines that range over the channels of feeds, work on the values and send the results to a
channel of their own, and one that waits for them and closes that channel.  Several goroutines may
range over one channel.  With its channel, a stage is a feed again (`stage`).

* `Handler`: the body of the loop, up to the send of the result;
* `Worker.step`, with what it keeps: `Worker.keeps`;
* `StageState.Inv`: no value and no result is lost on the way;
* `Law.stage`: a stage over lawful feeds is lawful.
-/

namespace Go

namespace Feed

open Sums

variable {T R τ O ι : Type}

/-! ### Goroutines that range over a channel -/

/-- What a goroutine does next with the value it has received: it goes on working on it, sends a
result, goes back to its loop, or returns. -/
inductive Phase (τ R : Type)
  | busy (t : τ)
  | emit (r : R)
  | skip
  | quit

/-- The body of a loop over a channel, up to the send of the result: how it begins, and how it goes
on, given whether the context is cancelled and what else the step depends on. -/
structure Handler (T R τ O : Type) where
  enter : T → Phase τ R
  step : Bool → O → T → τ → Phase τ R

/-- A goroutine that runs `for x := range in`: at the head of the loop, receiving, at work, at the
send of a result (in a `select` with the context), about to call `wg.Done`, or gone. -/
inductive Worker (T τ R : Type)
  | idle
  | waiting
  | busy (x : T) (t : τ)
  | sending (r : R)
  | leaving
  | gone

namespace Phase

def worker (x : T) : Phase τ R → Worker T τ R
  | busy t => .busy x t
  | emit r => .sending r
  | skip => .idle
  | quit => .leaving

/-- The value and its result, when the work on it has ended. -/
def results (x : T) : Phase τ R → List (T × Option R)
  | busy _ => []
  | emit r => [(x, some r)]
  | skip => [(x, none)]
  | quit => []

/-- The result is one the value may have, or there is less to do than `n`. -/
def Fits (Result : T → Option R → Prop) (size : τ → ℕ) (n : ℕ) (x : T) : Phase τ R → Prop
  | busy t => size t < n
  | emit r => Result x (some r)
  | skip => Result x none
  | quit => False

end Phase

/-- What a step of a goroutine does: where it is then, the two channels, the results, and how often
it calls `wg.Done`. -/
structure Effect (T τ R : Type) (c cap : ℕ) where
  worker : Worker T τ R
  input : Wire T c
  out : Wire R cap
  results : List (T × Option R)
  done : ℕ

variable {c cap : ℕ}

/-- The next step of a goroutine.  In the `select`, `giveUp` says that it takes the case of the
context, if it can. -/
def Worker.step (H : Handler T R τ O) (cancelled giveUp : Bool) (o : O) (input : Wire T c)
    (out : Wire R cap) : Worker T τ R → Effect T τ R c cap
  | idle => ⟨waiting, input.await, out, [], 0⟩
  | waiting =>
      match input.recv.1 with
      | .received x =>
          ⟨(H.enter x).worker x, input.recv.2, out, (H.enter x).results x, 0⟩
      | .closed => ⟨leaving, input.recv.2, out, [], 0⟩
      | .blocked => ⟨waiting, input.recv.2, out, [], 0⟩
  | busy x t =>
      let p := H.step cancelled o x t
      ⟨p.worker x, input, out, p.results x, 0⟩
  | sending r =>
      if cancelled && giveUp then ⟨leaving, input, out, [], 0⟩
      else
        match (out.send r).1 with
        | .sent => ⟨idle, input, (out.send r).2, [], 0⟩
        | _ => ⟨sending r, input, (out.send r).2, [], 0⟩
  | leaving => ⟨gone, input, out, [], 1⟩
  | gone => ⟨gone, input, out, [], 0⟩

/-- What a handler keeps to, as long as the context is not cancelled: it does not give up, and the
work on a value ends, with one of its results. -/
structure Handler.Law (H : Handler T R τ O) where
  Result : T → Option R → Prop
  size : τ → ℕ
  bound : ℕ
  enter : ∀ x, (H.enter x).Fits Result size bound x
  step : ∀ o x t, (H.step false o x t).Fits Result size (size t) x

namespace Worker

/-- The value a goroutine works on. -/
@[simp] def hand : Worker T τ R → Multiset T
  | busy x _ => {x}
  | _ => 0

/-- The result a goroutine is about to send. -/
@[simp] def pending : Worker T τ R → Multiset R
  | sending r => {r}
  | _ => 0

/-- Whether the wait group counts the goroutine. -/
@[simp] def live : Worker T τ R → ℕ
  | gone => 0
  | _ => 1

/-- Whether the channel counts the goroutine as a receiver. -/
@[simp] def waits : Worker T τ R → ℕ
  | waiting => 1
  | _ => 0

/-- The goroutine has left its loop. -/
@[simp] def left : Worker T τ R → Prop
  | leaving => True
  | gone => True
  | _ => False

theorem sum_of_gone {M : Type} [AddCommMonoid M] (f : Worker T τ R → M) (hf : f .gone = 0)
    {workers : List (ι × Worker T τ R)} (hgone : ∀ p ∈ workers, p.2 = .gone) :
    (workers.map fun p => f p.2).sum = 0 := by
  refine List.sum_eq_zero ?_
  simp only [List.mem_map]
  rintro _ ⟨p, hp, rfl⟩
  rw [hgone p hp, hf]

end Worker

/-- What every step of a goroutine keeps, as long as the context is not cancelled. -/
structure Effect.Keeps (Result : T → Option R → Prop) (w : Worker T τ R) (input : Wire T c)
    (out : Wire R cap) (e : Effect T τ R c cap) : Prop where
  /-- no value is lost -/
  items : (w.hand + ↑e.input.taken : Multiset T) =
    e.worker.hand + ↑(e.results.map Prod.fst) + ↑input.taken
  /-- no result is lost -/
  sent : ∃ new, e.out.sent = out.sent ++ new ∧
    (w.pending + ↑(e.results.filterMap Prod.snd) : Multiset R) = e.worker.pending + ↑new
  results : ∀ p ∈ e.results, Result p.1 p.2
  live : w.live = e.worker.live + e.done
  waits : w.waits ≤ input.chan.waiting →
    e.input.chan.waiting + w.waits = input.chan.waiting + e.worker.waits
  /-- goroutines leave when the channel is closed and empty -/
  left : e.worker.left → w.left ∨ input.Drained
  reads : input.Reads e.input
  empty : input.chan.buf = [] → e.input.chan.buf = []
  writes : out.Writes e.out
  closed : e.out.chan.closed = out.chan.closed
  quiet : e.out.panicked = out.panicked

namespace Effect.Keeps

variable {Result : T → Option R → Prop} {w w' : Worker T τ R} {input input' : Wire T c}
  {out : Wire R cap}

/-- A step in which no value is received and no result is sent. -/
theorem of_quiet {done : ℕ} (htaken : input'.taken = input.taken)
    (hhand : w'.hand = w.hand) (hpending : w'.pending = w.pending) (hlive : w.live = w'.live + done)
    (hwaits : w.waits ≤ input.chan.waiting →
      input'.chan.waiting + w.waits = input.chan.waiting + w'.waits)
    (hleft : w'.left → w.left ∨ input.Drained) (hreads : input.Reads input')
    (hempty : input.chan.buf = [] → input'.chan.buf = []) :
    Keeps Result w input out ⟨w', input', out, [], done⟩ where
  items := by
    rw [htaken, hhand]
    exact congrArg (· + _) (add_zero _).symm
  sent := ⟨[], (List.append_nil _).symm, by rw [hpending]; rfl⟩
  results := by simp
  live := hlive
  waits := hwaits
  left := hleft
  reads := hreads
  empty := hempty
  writes := .rfl
  closed := rfl
  quiet := rfl

theorem of_fits {size : τ → ℕ} {n : ℕ} {x : T} {p : Phase τ R} (hp : p.Fits Result size n x)
    (hitems : w.hand + ↑input'.taken = ({x} + ↑input.taken : Multiset T))
    (hpending : w.pending = 0) (hlive : w.live = 1)
    (hwaits : w.waits ≤ input.chan.waiting → input'.chan.waiting + w.waits = input.chan.waiting)
    (hreads : input.Reads input') (hempty : input.chan.buf = [] → input'.chan.buf = []) :
    Keeps Result w input out ⟨p.worker x, input', out, p.results x, 0⟩ where
  items := by cases p <;> simp_all [Phase.worker, Phase.results, Phase.Fits]
  sent := ⟨[], by cases p <;> simp_all [Phase.worker, Phase.results, Phase.Fits]⟩
  results := by cases p <;> simp_all [Phase.results, Phase.Fits]
  live := by cases p <;> simp_all [Phase.worker, Phase.Fits]
  waits := by cases p <;> simp_all [Phase.worker, Phase.Fits]
  left := by cases p <;> simp_all [Phase.worker, Phase.Fits]
  reads := hreads
  empty := hempty
  writes := .rfl
  closed := rfl
  quiet := rfl

end Effect.Keeps

/-- No goroutine sends on the closed channel if all are gone by then. -/
theorem Worker.keeps {H : Handler T R τ O} (HL : H.Law) (giveUp : Bool) (o : O) (w : Worker T τ R)
    (input : Wire T c) (out : Wire R cap) (hopen : out.chan.closed = true → w = .gone) :
    (w.step H false giveUp o input out).Keeps HL.Result w input out := by
  cases w with
  | idle => exact .of_quiet rfl rfl rfl rfl (fun _ => rfl) False.elim Wire.reads_await id
  | waiting =>
    rcases input.recv_cases with ⟨x, rest, hbuf, hfst, htaken, hchan⟩ |
      ⟨hdrained, hfst, htaken, hchan⟩ | ⟨-, -, heq⟩
    · simp only [step, hfst]
      refine .of_fits (HL.enter x) ?_ rfl rfl ?_ Wire.reads_recv ?_
      · rw [htaken, ← Multiset.coe_add, add_comm (↑input.taken : Multiset T)]
        exact zero_add _
      · intro hwaits
        rw [hchan]
        exact Nat.sub_add_cancel hwaits
      · intro hnil
        simp [hnil] at hbuf
    · simp only [step, hfst]
      refine .of_quiet htaken rfl rfl rfl ?_ (fun _ => Or.inr hdrained) Wire.reads_recv ?_
      · intro hwaits
        rw [hchan]
        exact Nat.sub_add_cancel hwaits
      · intro hnil
        rw [hchan]
        exact hnil
    · simp only [step, heq]
      exact .of_quiet rfl rfl rfl rfl (fun _ => rfl) False.elim .rfl id
  | busy x t => exact .of_fits (HL.step o x t) rfl rfl rfl (fun _ => rfl) .rfl id
  | sending r =>
    have hout : out.chan.closed = false := by
      by_contra hclosed
      cases hopen (Bool.eq_true_of_not_eq_false hclosed)
    rcases Wire.send_cases hout r with ⟨-, hfst, hsent, hchan, hquiet⟩ | ⟨-, heq⟩
    · simp only [step, hfst, Bool.false_and, Bool.false_eq_true, if_false]
      exact
        { items := by simp
          sent := ⟨[r], hsent, by simp⟩
          results := by simp
          live := rfl
          waits := fun _ => rfl
          left := False.elim
          reads := .rfl
          empty := id
          writes := Wire.writes_send hout r
          closed := by rw [hchan]
          quiet := hquiet }
    · simp only [step, heq, Bool.false_and, Bool.false_eq_true, if_false]
      exact .of_quiet rfl rfl rfl rfl (fun _ => rfl) False.elim .rfl id
  | leaving => exact .of_quiet rfl rfl rfl rfl (fun _ => rfl) Or.inl .rfl id
  | gone => exact .of_quiet rfl rfl rfl rfl (fun _ => rfl) Or.inl .rfl id

/-! ### Stages -/

/-- The state of a stage: the feeds it reads from, the goroutines, each with the feed it ranges
over, the wait group, the channel it sends to, whether the goroutine that waits for the others has
closed it, and the values on which the work has ended, with their results. -/
structure StageState (ins : ι → Feed T) (τ R : Type) (cap : ℕ) where
  inputs : (i : ι) → (ins i).State
  workers : List (ι × Worker T τ R)
  wg : ℕ
  out : Wire R cap
  closerGone : Bool
  results : List (T × Option R)

/-- A step of a goroutine behind one of the feeds, of a goroutine of the stage, or of the one that
waits for these and closes the channel. -/
inductive StageMove (ins : ι → Feed T) (O : Type)
  | input (i : ι) (m : (ins i).Move)
  | worker (k : ℕ) (giveUp : Bool) (o : O)
  | closer

variable [DecidableEq ι] {ins : ι → Feed T}

namespace StageState

def input (s : StageState ins τ R cap) (i : ι) : Wire T (ins i).cap := (ins i).wire (s.inputs i)

/-- A goroutine behind a feed has taken a step. -/
def setInput (s : StageState ins τ R cap) (i : ι) (t : (ins i).State) : StageState ins τ R cap :=
  { s with inputs := Function.update s.inputs i t }

/-- Goroutine `k`, which ranges over feed `i`, has taken a step. -/
def after (s : StageState ins τ R cap) (k : ℕ) (i : ι) (e : Effect T τ R (ins i).cap cap) :
    StageState ins τ R cap :=
  { s with
    inputs := Function.update s.inputs i ((ins i).setWire e.input (s.inputs i))
    workers := s.workers.set k (i, e.worker)
    wg := s.wg - e.done
    out := e.out
    results := s.results ++ e.results }

/-- `wg.Wait()`, then `close(out)`. -/
def closer (s : StageState ins τ R cap) : StageState ins τ R cap :=
  if s.wg = 0 ∧ s.closerGone = false then { s with out := s.out.close, closerGone := true } else s

def step (H : Handler T R τ O) (cancelled : Bool) (s : StageState ins τ R cap) :
    StageMove ins O → StageState ins τ R cap
  | .input i m => s.setInput i ((ins i).step cancelled m (s.inputs i))
  | .worker k giveUp o =>
      match s.workers[k]? with
      | some (i, w) => s.after k i (w.step H cancelled giveUp o (s.input i) s.out)
      | none => s
  | .closer => s.closer

section

variable {H : Handler T R τ O} {cancelled : Bool} {s : StageState ins τ R cap} {k : ℕ}

theorem step_worker {i : ι} {w : Worker T τ R} {giveUp : Bool} {o : O}
    (hk : s.workers[k]? = some (i, w)) :
    s.step H cancelled (.worker k giveUp o) =
      s.after k i (w.step H cancelled giveUp o (s.input i) s.out) := by
  simp only [step, hk]

theorem step_worker_of_none {giveUp : Bool} {o : O} (hk : s.workers[k]? = none) :
    s.step H cancelled (.worker k giveUp o) = s := by
  simp only [step, hk]

end

end StageState

/-- One goroutine for each entry of `srcs`, which ranges over that feed, a channel of capacity `cap`
for the results, and a goroutine that waits for the others and closes it.  The goroutines are
started before anybody has the channel, and the last one after the others; one that is not started
yet is one that has not taken a step. -/
def stage (ins : ι → Feed T) (srcs : List ι) (H : Handler T R τ O) (cap : ℕ) : Feed R where
  cap := cap
  State := StageState ins τ R cap
  Move := StageMove ins O
  init := ⟨fun i => (ins i).init, srcs.map fun i => (i, .idle), srcs.length, .make, false, []⟩
  wire := StageState.out
  setWire w s := { s with out := w }
  step cancelled m s := s.step H cancelled m

section

variable (L : (i : ι) → Law (ins i)) (srcs : List ι) (Result : T → Option R → Prop)

/-- No value and no result is lost on the way, and the channel is closed when all goroutines are
gone, which is when their feeds have ended. -/
structure StageState.Inv (s : StageState ins τ R cap) : Prop where
  ranges : s.workers.map Prod.fst = srcs
  inputs : ∀ i, (L i).Inv (s.inputs i)
  items : ∑ i ∈ srcs.toFinset, (↑(s.input i).taken : Multiset T) =
    (s.workers.map fun p => p.2.hand).sum + ↑(s.results.map Prod.fst)
  sent : (↑(s.results.filterMap Prod.snd) : Multiset R) =
    (s.workers.map fun p => p.2.pending).sum + ↑s.out.sent
  results : ∀ p ∈ s.results, Result p.1 p.2
  wg : s.wg = (s.workers.map fun p => p.2.live).sum
  waits : ∀ i, (s.input i).chan.waiting =
    (s.workers.map fun p => if p.1 = i then p.2.waits else 0).sum
  left : ∀ p ∈ s.workers, p.2.left → (s.input p.1).Drained
  closed : s.out.chan.closed = s.closerGone
  closer : s.closerGone = true → s.wg = 0
  quiet : s.out.panicked = false

end

namespace StageState

variable {L : (i : ι) → Law (ins i)} {srcs : List ι} {Result : T → Option R → Prop}
  {s : StageState ins τ R cap}

theorem Inv.init {H : Handler T R τ O} : Inv L srcs Result (stage ins srcs H cap).init where
  ranges := by simp [stage, Function.comp_def]
  inputs i := (L i).init
  items := by simp [stage, input, (L _).wire_init, Wire.make, Function.comp_def]
  sent := by simp [stage, Wire.make, Function.comp_def]
  results := by simp [stage]
  wg := by simp [stage, Function.comp_def]
  waits i := by simp [stage, input, (L i).wire_init, Wire.make, Chan.make, Function.comp_def]
  left := by simp [stage]
  closed := rfl
  closer := fun h => (Bool.false_ne_true h).elim
  quiet := rfl

/-- The channels after a step that changes feed `i`. -/
theorem input_setInput (s : StageState ins τ R cap) (i : ι) (t : (ins i).State) :
    (s.setInput i t).input = Function.update s.input i ((ins i).wire t) :=
  funext fun j => Function.apply_update (fun j => (ins j).wire) s.inputs i t j

theorem input_after (L : (i : ι) → Law (ins i)) (s : StageState ins τ R cap) (k : ℕ) (i : ι)
    (e : Effect T τ R (ins i).cap cap) :
    (s.after k i e).input = Function.update s.input i e.input := by
  refine (s.input_setInput i _).trans ?_
  rw [(L i).wire_setWire]

theorem Inv.writes_input (h : s.Inv L srcs Result) (i : ι) (m : (ins i).Move) (j : ι) :
    (s.input j).Writes ((s.setInput i ((ins i).step false m (s.inputs i))).input j) := by
  rw [input_setInput]
  refine (Function.forall_update_iff s.input fun j w => (s.input j).Writes w).mpr ⟨?_, ?_⟩ j
  · exact (L i).writes m (h.inputs i)
  · exact fun _ _ => .rfl

theorem Inv.input (h : s.Inv L srcs Result) (i : ι) (m : (ins i).Move) :
    (s.setInput i ((ins i).step false m (s.inputs i))).Inv L srcs Result := by
  have hwires := h.writes_input i m
  refine { h with inputs := ?_, items := ?_, waits := ?_, left := ?_ }
  · exact (Function.forall_update_iff s.inputs fun j t => (L j).Inv t).mpr
      ⟨(L i).step m (h.inputs i), fun j _ => h.inputs j⟩
  · rw [Finset.sum_congr rfl fun j _ => congrArg _ (hwires j).taken]
    exact h.items
  · intro j
    exact (hwires j).waiting.trans (h.waits j)
  · intro p hp hleft
    exact (hwires p.1).drained (h.left p hp hleft)

section

variable {k : ℕ} {i : ι} {w : Worker T τ R} {e : Effect T τ R (ins i).cap cap}

theorem Inv.mem_srcs (h : s.Inv L srcs Result) (hk : s.workers[k]? = some (i, w)) :
    i ∈ srcs.toFinset := by
  rw [List.mem_toFinset, ← h.ranges]
  exact List.mem_map_of_mem (List.mem_of_getElem? hk)

theorem Inv.ranges_after (h : s.Inv L srcs Result) (hk : s.workers[k]? = some (i, w)) :
    (s.after k i e).workers.map Prod.fst = srcs := by
  obtain ⟨hlt, hget⟩ := List.getElem?_eq_some_iff.mp hk
  have hlen : k < (s.workers.map Prod.fst).length := by rwa [List.length_map]
  have hfst : i = (s.workers.map Prod.fst)[k] := by rw [List.getElem_map, hget]
  show (s.workers.set k (i, e.worker)).map Prod.fst = srcs
  rw [List.map_set, ← h.ranges]
  exact (congrArg (List.set _ k) hfst).trans (List.set_getElem_self hlen)

/-- What goroutine `k` receives is what it works on, or what the work on has ended. -/
theorem Inv.items_after (h : s.Inv L srcs Result) (hk : s.workers[k]? = some (i, w))
    (he : e.Keeps Result w (s.input i) s.out) :
    ∑ j ∈ srcs.toFinset, (↑((s.after k i e).input j).taken : Multiset T) =
      ((s.after k i e).workers.map fun p => p.2.hand).sum +
        ↑((s.after k i e).results.map Prod.fst) := by
  have hwires := sum_update (fun j (v : Wire T (ins j).cap) => (↑v.taken : Multiset T))
    (h.mem_srcs hk) s.input e.input
  rw [← input_after L s k i e] at hwires
  have hworkers := sum_map_set (fun p : ι × Worker T τ R => p.2.hand) hk (i, e.worker)
  show _ = _ + (↑((s.results ++ e.results).map Prod.fst) : Multiset T)
  rw [List.map_append, ← Multiset.coe_add]
  exact hand_over h.items hwires hworkers he.items

/-- The results are those that goroutines are about to send and those that have been sent. -/
theorem Inv.sent_after (h : s.Inv L srcs Result) (hk : s.workers[k]? = some (i, w))
    (he : e.Keeps Result w (s.input i) s.out) :
    (↑((s.after k i e).results.filterMap Prod.snd) : Multiset R) =
      ((s.after k i e).workers.map fun p => p.2.pending).sum + ↑(s.after k i e).out.sent := by
  obtain ⟨new, hsent, hnew⟩ := he.sent
  have hworkers := sum_map_set (fun p : ι × Worker T τ R => p.2.pending) hk (i, e.worker)
  show (↑((s.results ++ e.results).filterMap Prod.snd) : Multiset R) = _ + ↑e.out.sent
  rw [List.filterMap_append, hsent, ← Multiset.coe_add, ← Multiset.coe_add, add_comm,
    pass_on h.sent hnew hworkers, add_comm (↑new : Multiset R)]
  rfl

theorem Inv.wg_after (h : s.Inv L srcs Result) (hk : s.workers[k]? = some (i, w))
    (he : e.Keeps Result w (s.input i) s.out) :
    s.wg - e.done = ((s.after k i e).workers.map fun p => p.2.live).sum := by
  have hworkers := sum_map_set (fun p : ι × Worker T τ R => p.2.live) hk (i, e.worker)
  have hwg := h.wg
  have hlive := he.live
  simp only at hworkers
  show s.wg - e.done = ((s.workers.set k (i, e.worker)).map fun p => p.2.live).sum
  omega

theorem Inv.waits_le (h : s.Inv L srcs Result) (hmem : (i, w) ∈ s.workers) :
    w.waits ≤ (s.input i).chan.waiting := by
  rw [h.waits i]
  refine List.single_le_sum (by simp) _ (List.mem_map.mpr ⟨_, hmem, ?_⟩)
  simp

theorem Inv.waits_after (h : s.Inv L srcs Result) (hk : s.workers[k]? = some (i, w))
    (he : e.Keeps Result w (s.input i) s.out) (j : ι) :
    ((s.after k i e).input j).chan.waiting =
      ((s.after k i e).workers.map fun p => if p.1 = j then p.2.waits else 0).sum := by
  have hworkers := sum_map_set (fun p : ι × Worker T τ R => if p.1 = j then p.2.waits else 0) hk
    (i, e.worker)
  have hwaits := h.waits j
  show _ = ((s.workers.set k (i, e.worker)).map fun p => if p.1 = j then p.2.waits else 0).sum
  rw [input_after L]
  by_cases hj : j = i
  · subst hj
    have hmoved := he.waits (h.waits_le (List.mem_of_getElem? hk))
    simp only [if_true] at hworkers
    rw [Function.update_self]
    omega
  · simp only [if_neg (Ne.symm hj)] at hworkers
    rw [Function.update_of_ne hj]
    omega

/-- A step of a goroutine, seen from the channels: it is a reader, and puts nothing into them. -/
theorem reads_after (L : (i : ι) → Law (ins i)) (he : e.Keeps Result w (s.input i) s.out) (j : ι) :
    (s.input j).Reads ((s.after k i e).input j) ∧
      ((s.input j).chan.buf = [] → ((s.after k i e).input j).chan.buf = []) := by
  rw [input_after L]
  refine (Function.forall_update_iff s.input fun j w => (s.input j).Reads w ∧
    ((s.input j).chan.buf = [] → w.chan.buf = [])).mpr ⟨?_, ?_⟩ j
  · exact ⟨he.reads, he.empty⟩
  · exact fun _ _ => ⟨.rfl, id⟩

/-- A channel that is closed and empty remains so. -/
theorem drained_after (L : (i : ι) → Law (ins i)) (he : e.Keeps Result w (s.input i) s.out) {j : ι}
    (hd : (s.input j).Drained) : ((s.after k i e).input j).Drained := by
  obtain ⟨hreads, hempty⟩ := reads_after L he j
  exact hd.mono hreads.closed hempty

theorem Inv.after (h : s.Inv L srcs Result) (hk : s.workers[k]? = some (i, w))
    (he : e.Keeps Result w (s.input i) s.out) : (s.after k i e).Inv L srcs Result where
  ranges := h.ranges_after hk
  inputs := (Function.forall_update_iff s.inputs fun j t => (L j).Inv t).mpr
    ⟨(L i).reads (h.inputs i) he.reads, fun j _ => h.inputs j⟩
  items := h.items_after hk he
  sent := h.sent_after hk he
  results p hp := by
    rcases List.mem_append.mp hp with hp | hp
    · exact h.results p hp
    · exact he.results p hp
  wg := h.wg_after hk he
  waits := h.waits_after hk he
  left p hp hleft := by
    rcases List.mem_or_eq_of_mem_set hp with hp | rfl
    · exact drained_after L he (h.left p hp hleft)
    · rcases he.left hleft with hw | hd
      · exact drained_after L he (h.left (i, w) (List.mem_of_getElem? hk) hw)
      · exact drained_after L he hd
  closed := he.closed.trans h.closed
  closer hgone := by
    show s.wg - e.done = 0
    rw [h.closer hgone, Nat.zero_sub]
  quiet := he.quiet.trans h.quiet

end

theorem Inv.close (h : s.Inv L srcs Result) : s.closer.Inv L srcs Result := by
  unfold StageState.closer
  split_ifs with hwait
  · have hopen : s.out.chan.closed = false := h.closed.trans hwait.2
    exact { h with
      closed := rfl
      closer := fun _ => hwait.1
      quiet := (Wire.panicked_close hopen).trans h.quiet }
  · exact h

/-- Nobody is left to send when the channel is closed. -/
theorem Inv.gone_of_closed (h : s.Inv L srcs Result) (hclosed : s.out.chan.closed = true)
    {p : ι × Worker T τ R} (hp : p ∈ s.workers) : p.2 = .gone := by
  have hwg : (s.workers.map fun p => p.2.live).sum = 0 :=
    h.wg.symm.trans (h.closer (h.closed.symm.trans hclosed))
  have hle : p.2.live ≤ 0 := by
    rw [← hwg]
    exact List.single_le_sum (by simp) _ (List.mem_map_of_mem hp)
  cases hw : p.2 with
  | gone => rfl
  | _ => simp [hw] at hle

variable {H : Handler T R τ O} {HL : H.Law}

theorem Inv.keeps (h : s.Inv L srcs HL.Result) {k : ℕ} {i : ι} {w : Worker T τ R}
    (hk : s.workers[k]? = some (i, w)) (giveUp : Bool) (o : O) :
    (w.step H false giveUp o (s.input i) s.out).Keeps HL.Result w (s.input i) s.out :=
  w.keeps HL giveUp o _ _ fun hclosed => h.gone_of_closed hclosed (List.mem_of_getElem? hk)

theorem Inv.step (h : s.Inv L srcs HL.Result) (m : StageMove ins O) :
    (s.step H false m).Inv L srcs HL.Result := by
  cases m with
  | input i m => exact h.input i m
  | worker k giveUp o =>
    cases hk : s.workers[k]? with
    | none =>
      rw [step_worker_of_none hk]
      exact h
    | some p =>
      rw [step_worker hk]
      exact h.after hk (h.keeps hk giveUp o)
  | closer => exact h.close

theorem Inv.writes (h : s.Inv L srcs HL.Result) (m : StageMove ins O) :
    s.out.Writes (s.step H false m).out := by
  cases m with
  | input i m => exact .rfl
  | worker k giveUp o =>
    cases hk : s.workers[k]? with
    | none =>
      rw [step_worker_of_none hk]
      exact .rfl
    | some p =>
      rw [step_worker hk]
      exact (h.keeps hk giveUp o).writes
  | closer =>
    show s.out.Writes s.closer.out
    unfold StageState.closer
    split_ifs with hwait
    · exact Wire.writes_close (h.closed.trans hwait.2)
    · exact .rfl

end StageState

section

variable (L : (i : ι) → Law (ins i)) (srcs : List ι) (Result : T → Option R → Prop)

/-- All values of the feeds have been worked on, and all results have been sent. -/
structure StageState.Complete (s : StageState ins τ R cap) : Prop where
  inputs : ∀ i ∈ srcs, (L i).Complete (s.inputs i)
  items : (↑(s.results.map Prod.fst) : Multiset T) = ∑ i ∈ srcs.toFinset, ↑(s.input i).sent
  sent : (↑s.out.sent : Multiset R) = ↑(s.results.filterMap Prod.snd)
  results : ∀ p ∈ s.results, Result p.1 p.2

end

theorem StageState.Inv.complete {L : (i : ι) → Law (ins i)} {srcs : List ι}
    {Result : T → Option R → Prop} {s : StageState ins τ R cap} (h : s.Inv L srcs Result)
    (hclosed : s.out.chan.closed = true) : s.Complete L srcs Result := by
  have hgone : ∀ p ∈ s.workers, p.2 = .gone := fun p hp => h.gone_of_closed hclosed hp
  have hdrained : ∀ i ∈ srcs, (s.input i).Drained := by
    intro i hi
    rw [← h.ranges] at hi
    obtain ⟨p, hp, rfl⟩ := List.mem_map.mp hi
    exact h.left p hp (by rw [hgone p hp]; trivial)
  have hhands : (s.workers.map fun p => p.2.hand).sum = 0 :=
    Worker.sum_of_gone Worker.hand rfl hgone
  have hpending : (s.workers.map fun p => p.2.pending).sum = 0 :=
    Worker.sum_of_gone Worker.pending rfl hgone
  refine ⟨fun i hi => (L i).complete (h.inputs i) (hdrained i hi).1, ?_, ?_, h.results⟩
  · rw [← zero_add (↑(s.results.map Prod.fst) : Multiset T), ← hhands, ← h.items]
    refine Finset.sum_congr rfl fun i hi => ?_
    rw [(hdrained i (List.mem_toFinset.mp hi)).sent_eq]
  · rw [h.sent, hpending, zero_add]

/-! ### Progress of a stage -/

/-- How much a goroutine has to do, if every result counts `k`. -/
def Worker.rank (size : τ → ℕ) (k : ℕ) : Worker T τ R → ℕ
  | gone => 0
  | leaving => 1
  | waiting => 2
  | idle => 3
  | sending _ => k + 4
  | busy _ t => k + 5 + size t

/-- How much a value counts for the goroutine that receives it. -/
def Handler.Law.weight {H : Handler T R τ O} (HL : H.Law) (k : ℕ) : ℕ := k + HL.bound + 3

theorem Phase.rank_lt {Result : T → Option R → Prop} {size : τ → ℕ} {n : ℕ} {x : T} {p : Phase τ R}
    (hp : p.Fits Result size n x) (k : ℕ) : (p.worker x).rank size k < k + 5 + n := by
  cases p with
  | busy t =>
    have : size t < n := hp
    simp only [worker, Worker.rank]
    omega
  | emit r =>
    simp only [worker, Worker.rank]
    omega
  | skip =>
    simp only [worker, Worker.rank]
    omega
  | quit => exact hp.elim

/-- A step of a goroutine that is not held up, by its feed or by the reader. -/
theorem Worker.progress {H : Handler T R τ O} (HL : H.Law) (k : ℕ) (giveUp : Bool) (o : O)
    {w : Worker T τ R} {input : Wire T c} {out : Wire R cap} (hgone : w ≠ .gone)
    (hopen : out.chan.closed = false) (hroom : out.chan.hasRoom = true)
    (hinput : w = .waiting → input.chan.closed = false → input.chan.buf ≠ []) :
    let e := w.step H false giveUp o input out
    e.worker.rank HL.size k + k * e.out.chan.buf.length +
        HL.weight k * e.input.chan.buf.length <
      w.rank HL.size k + k * out.chan.buf.length + HL.weight k * input.chan.buf.length := by
  cases w with
  | idle =>
    simp only [step, rank, Wire.await, Chan.await]
    omega
  | waiting =>
    rcases input.recv_cases with ⟨x, rest, hbuf, hfst, -, hchan⟩ | ⟨hdrained, hfst, -, hchan⟩ |
      ⟨hbuf, hclosed, -⟩
    · have hlt := Phase.rank_lt (HL.enter x) k
      have hrank : (waiting : Worker T τ R).rank HL.size k = 2 := rfl
      simp only [step, hfst, hchan, hbuf, List.length_cons, Nat.mul_add, Handler.Law.weight]
      omega
    · simp only [step, hfst, hchan, rank, Chan.leave]
      omega
    · exact absurd hbuf (hinput rfl hclosed)
  | busy x t =>
    have hlt := Phase.rank_lt (HL.step o x t) k
    have hrank : (busy x t : Worker T τ R).rank HL.size k = k + 5 + HL.size t := rfl
    simp only [step]
    omega
  | sending r =>
    rcases Wire.send_cases hopen r with ⟨-, hfst, -, hchan, -⟩ | ⟨hfull, -⟩
    · simp only [step, hfst, hchan, Bool.false_and, Bool.false_eq_true, if_false, rank,
        List.length_append, List.length_singleton, Nat.mul_add]
      omega
    · simp [hroom] at hfull
  | leaving =>
    simp only [step, rank]
    omega
  | gone => exact absurd rfl hgone

namespace StageState

variable {L : (i : ι) → Law (ins i)} {srcs : List ι} {H : Handler T R τ O} {HL : H.Law}
  {s : StageState ins τ R cap}

/-- How much there is to do for a feed and with what it has sent. -/
def load (L : (i : ι) → Law (ins i)) (n : ℕ) (i : ι) (t : (ins i).State) : ℕ :=
  (L i).rank n t + n * ((ins i).wire t).chan.buf.length

/-- How much there is to do, if every result counts `k`. -/
def rank (L : (i : ι) → Law (ins i)) (srcs : List ι) (HL : H.Law) (k : ℕ)
    (s : StageState ins τ R cap) : ℕ :=
  ∑ i ∈ srcs.toFinset, load L (HL.weight k) i (s.inputs i) +
    (s.workers.map fun p => p.2.rank HL.size k).sum + (!s.closerGone).toNat

theorem rank_setInput_lt {k : ℕ} {i : ι} (hi : i ∈ srcs.toFinset) {t : (ins i).State}
    (hlt : load L (HL.weight k) i t < load L (HL.weight k) i (s.inputs i)) :
    (s.setInput i t).rank L srcs HL k < s.rank L srcs HL k := by
  have hsum := sum_update (load L (HL.weight k)) hi s.inputs t
  simp only [rank, setInput]
  omega

theorem rank_after_lt {k n : ℕ} {i : ι} {w : Worker T τ R} {e : Effect T τ R (ins i).cap cap}
    (hi : i ∈ srcs.toFinset) (hn : s.workers[n]? = some (i, w))
    (hlt : e.worker.rank HL.size k + k * e.out.chan.buf.length +
        HL.weight k * e.input.chan.buf.length <
      w.rank HL.size k + k * s.out.chan.buf.length + HL.weight k * (s.input i).chan.buf.length) :
    (s.after n i e).rank L srcs HL k + k * e.out.chan.buf.length <
      s.rank L srcs HL k + k * s.out.chan.buf.length := by
  have hsum := sum_update (load L (HL.weight k)) hi s.inputs
    ((ins i).setWire e.input (s.inputs i))
  have hworkers := sum_map_set (fun p : ι × Worker T τ R => p.2.rank HL.size k) hn (i, e.worker)
  have hload : load L (HL.weight k) i ((ins i).setWire e.input (s.inputs i)) =
      (L i).rank (HL.weight k) (s.inputs i) + HL.weight k * e.input.chan.buf.length := by
    rw [load, (L i).rank_setWire, (L i).wire_setWire]
  have hload' : load L (HL.weight k) i (s.inputs i) =
      (L i).rank (HL.weight k) (s.inputs i) + HL.weight k * (s.input i).chan.buf.length := rfl
  simp only [rank, after]
  simp only at hworkers
  omega

/-- The last step, when all other goroutines are gone. -/
theorem rank_closer_lt (hwg : s.wg = 0) (hgone : s.closerGone = false) (k : ℕ) :
    s.closer.rank L srcs HL k + k * s.closer.out.chan.buf.length <
      s.rank L srcs HL k + k * s.out.chan.buf.length := by
  have hclose : s.closer = { s with out := s.out.close, closerGone := true } :=
    if_pos ⟨hwg, hgone⟩
  simp only [hclose, rank, Wire.close, Chan.close, hgone, Bool.not_true, Bool.not_false,
    Bool.toNat_true, Bool.toNat_false]
  omega

theorem Inv.progress [Inhabited O] (h : s.Inv L srcs HL.Result) (k : ℕ)
    (hopen : s.out.chan.closed = false) (hbuf : s.out.chan.buf = [])
    (hwaiting : 0 < s.out.chan.waiting) :
    ∃ m, (s.step H false m).rank L srcs HL k + k * (s.step H false m).out.chan.buf.length <
      s.rank L srcs HL k := by
  have hroom : s.out.chan.hasRoom = true := by
    simp only [Chan.hasRoom, hbuf, List.length_nil, decide_eq_true_eq]
    omega
  have hbufk : k * s.out.chan.buf.length = 0 := by rw [hbuf, List.length_nil, Nat.mul_zero]
  rw [← Nat.add_zero (s.rank L srcs HL k), ← hbufk]
  by_cases hall : ∀ p ∈ s.workers, p.2 = .gone
  · have hwg : s.wg = 0 := h.wg.trans (Worker.sum_of_gone Worker.live rfl hall)
    exact ⟨.closer, rank_closer_lt hwg (h.closed.symm.trans hopen) k⟩
  · push Not at hall
    obtain ⟨⟨i, w⟩, hmem, hgone⟩ := hall
    obtain ⟨n, hn⟩ := List.mem_iff_getElem?.mp hmem
    by_cases hheld : w = .waiting ∧ (s.input i).chan.closed = false ∧ (s.input i).chan.buf = []
    · -- the goroutine waits for its feed, which can go on
      obtain ⟨rfl, hfeed, hnil⟩ := hheld
      have hwait : 0 < (s.input i).chan.waiting := lt_of_lt_of_le Nat.one_pos (h.waits_le hmem)
      obtain ⟨m, hm⟩ := (L i).progress (HL.weight k) (h.inputs i) hfeed hnil hwait
      have hlt := rank_setInput_lt (s := s) (h.mem_srcs hn) (lt_of_lt_of_le hm
        (Nat.le_add_right _ _))
      exact ⟨.input i m, Nat.add_lt_add_right hlt _⟩
    · refine ⟨.worker n false default, ?_⟩
      rw [step_worker hn]
      refine rank_after_lt (h.mem_srcs hn) hn ?_
      exact Worker.progress HL k false default hgone hopen hroom fun hw hfeed hnil =>
        hheld ⟨hw, hfeed, hnil⟩

end StageState

/-- The channels that a stage reads from stay closed. -/
theorem StageState.Inv.staysClosed_input {L : (i : ι) → Law (ins i)} {srcs : List ι}
    {H : Handler T R τ O} {HL : H.Law} {s : StageState ins τ R cap}
    (h : s.Inv L srcs HL.Result) (m : StageMove ins O) (i : ι) :
    (s.input i).StaysClosed ((s.step H false m).input i) := by
  cases m with
  | input j m => exact (h.writes_input j m i).staysClosed
  | worker k giveUp o =>
    cases hk : s.workers[k]? with
    | none =>
      rw [step_worker_of_none hk]
      exact Wire.Reads.rfl.staysClosed
    | some p =>
      rw [step_worker hk]
      exact (reads_after L (h.keeps hk giveUp o) i).1.staysClosed
  | closer =>
    have heq : s.closer.input i = s.input i := by
      unfold StageState.closer
      split_ifs <;> rfl
    show (s.input i).StaysClosed (s.closer.input i)
    rw [heq]
    exact Wire.Reads.rfl.staysClosed

/-- A stage works on the values of its feeds and sends the results, and then closes its channel. -/
def Law.stage [Inhabited O] (L : (i : ι) → Law (ins i)) (srcs : List ι) {H : Handler T R τ O}
    (HL : H.Law) (cap : ℕ) : Law (stage ins srcs H cap) where
  Inv := StageState.Inv L srcs HL.Result
  Complete := StageState.Complete L srcs HL.Result
  rank := StageState.rank L srcs HL
  wire_setWire _ _ := rfl
  wire_init := rfl
  init := StageState.Inv.init
  step m h := h.step m
  writes m h := h.writes m
  reads h hw :=
    { h with
      sent := hw.sent ▸ h.sent
      closed := hw.closed.trans h.closed
      quiet := hw.panicked.trans h.quiet }
  quiet h := h.quiet
  complete h hclosed := h.complete hclosed
  rank_setWire _ _ _ := rfl
  progress k _ h hopen hbuf hwaiting := h.progress k hopen hbuf hwaiting

/-- The channels that a stage reads from are sealed too. -/
theorem Law.sealed_input [Inhabited O] (L : (i : ι) → Law (ins i)) (srcs : List ι)
    {H : Handler T R τ O} (HL : H.Law) (cap : ℕ) (i : ι) :
    Sealed (Feed.stage ins srcs H cap) fun s => StageState.input s.feed i := by
  refine (Law.stage L srcs HL cap).sealed_of_step ?_ fun h => (L i).quiet (h.feed.inputs i)
  intro s m h hm
  cases m with
  | inner m =>
    have hstep := StageState.Inv.staysClosed_input h.feed m i
    rw [← h.cancelled] at hstep
    exact hstep
  | consumer =>
    have heq : StageState.input s.consume.feed i = StageState.input s.feed i := by
      rcases s.feed_consume with heq | ⟨w, -, heq⟩
      · rw [heq]
      · rw [heq]
        rfl
    show (StageState.input s.feed i).StaysClosed (StageState.input s.consume.feed i)
    rw [heq]
    exact Wire.Reads.rfl.staysClosed
  | cancel => exact absurd rfl hm

end Feed

end Go
