import WolfCore.Lib.Chan
import WolfCore.Lib.Go
import WolfCore.Lib.Sums
import Mathlib.Data.Multiset.AddSub

/-!
# The worker pool (`infra/concurrency/workerpool.go`)

A `WorkerPool` has a buffered channel of items and a number of goroutines that range over it.
`Submit` puts an item into the channel or fails if it is full, and `Stop` closes the channel and
waits for the workers.

* `State`, `Move`, `State.advance`: `Start` and `Stop` of the owner, calls of `Submit`, and the loop
  of the workers, step by step;
* `Inv`: where the items and the errors are;
* `drains`: what holds of every run in which nothing is submitted once `Stop` has begun and the
  context is not cancelled.
-/

namespace WolfCore.Concurrency.WorkerPool

open Go Sums

variable {T ε : Type}

/-- A pool, as `NewWorkerPool` makes it. -/
structure Pool where
  workers : ℕ
  queueSize : ℕ
  hasOnError : Bool
  workers_pos : 0 < workers
  queueSize_pos : 0 < queueSize

/-- `NewWorkerPool`. -/
def new (workers queueSize : ℤ) (hasOnError : Bool) : Pool :=
  let workers' := if workers ≤ 0 then 1 else workers
  let queueSize' := if queueSize ≤ 0 then workers' * 2 else queueSize
  { workers := workers'.toNat
    queueSize := queueSize'.toNat
    hasOnError
    workers_pos := by simp only [workers']; split_ifs <;> omega
    queueSize_pos := by simp only [queueSize', workers']; split_ifs <;> omega }

/-- What happens to items and errors. -/
inductive Event (T ε : Type)
  /-- `Submit` returns, or panics because the channel is closed -/
  | submitted (x : T) (out : Outcome (Option Err))
  /-- the handler is called -/
  | called (x : T)
  /-- the handler returns -/
  | returned (x : T) (err : Option ε)
  /-- `onError` is called -/
  | reported (err : ε)

/-- Where a worker is in its loop. -/
inductive Worker (T ε : Type)
  /-- not started yet -/
  | absent
  /-- before it receives -/
  | idle
  | waiting
  /-- before it looks at the context -/
  | received (x : T)
  | handling (x : T)
  /-- before it reports the error of the handler -/
  | failed (err : ε)
  /-- before the deferred `wg.Done` -/
  | leaving
  | gone

/-- Where the owner of the pool is. -/
inductive Owner
  | created
  /-- in `Start`, with the number of workers that have been started -/
  | starting (k : ℕ)
  | started
  /-- in `Stop`, after `close(p.queue)` -/
  | stopping
  | stopped
  deriving DecidableEq

structure State (pool : Pool) (T ε : Type) where
  owner : Owner
  queue : Chan T pool.queueSize
  wg : ℕ
  cancelled : Bool
  workers : List (Worker T ε)
  /-- newest first -/
  log : List (Event T ε)

/-- The next step of `Start` or of `Stop`, a call of `Submit`, the next step of a worker, with the
error of its handler in case the handler returns, or the cancellation of the context of the
caller. -/
inductive Move (T ε : Type)
  | start
  | stop
  | submit (x : T)
  | worker (i : ℕ) (err : Option ε)
  | cancel

/-! ### The code -/

/-- What a step of a worker does: where the worker is then, the queue, the events, and how often it
calls `wg.Done`. -/
structure Effect (pool : Pool) (T ε : Type) where
  worker : Worker T ε
  queue : Chan T pool.queueSize
  events : List (Event T ε)
  done : ℕ

variable {pool : Pool}

/-- `WorkerPool.run`. -/
def Worker.step (cancelled : Bool) (err : Option ε) (queue : Chan T pool.queueSize) :
    Worker T ε → Effect pool T ε
  | absent => ⟨absent, queue, [], 0⟩
  | idle => ⟨waiting, queue.await, [], 0⟩
  | waiting =>
      match queue.recv with
      | (.received x, queue') => ⟨received x, queue', [], 0⟩
      | (.closed, queue') => ⟨leaving, queue', [], 0⟩
      | (.blocked, queue') => ⟨waiting, queue', [], 0⟩
  | received x =>
      if cancelled then ⟨leaving, queue, [], 0⟩ else ⟨handling x, queue, [.called x], 0⟩
  | handling x =>
      match err with
      | some e =>
          if pool.hasOnError then ⟨failed e, queue, [.returned x (some e)], 0⟩
          else ⟨idle, queue, [.returned x (some e)], 0⟩
      | none => ⟨idle, queue, [.returned x none], 0⟩
  | failed e => ⟨idle, queue, [.reported e], 0⟩
  | leaving => ⟨gone, queue, [], 1⟩
  | gone => ⟨gone, queue, [], 0⟩

/-- `fmt.Errorf("workerpool: queue is full (capacity %d)", cap(p.queue))`. -/
def errQueueFull (pool : Pool) : Err :=
  .msg ("workerpool: queue is full (capacity " ++ toString pool.queueSize ++ ")")

/-- What `Submit` makes of the send in its `select`. -/
def submitOutcome (pool : Pool) : SendResult → Outcome (Option Err)
  | .sent => .returned none
  | .blocked => .returned (some (errQueueFull pool))
  | .panicked => .panicked "send on closed channel"

namespace State

/-- The pool before `Start`. -/
def init (pool : Pool) : State pool T ε :=
  ⟨.created, Chan.make, 0, false, List.replicate pool.workers .absent, []⟩

/-- `WorkerPool.Start`, step by step. -/
def start (s : State pool T ε) : State pool T ε :=
  match s.owner with
  | .created => { s with owner := .starting 0 }
  | .starting k =>
      if k < pool.workers then
        { s with owner := .starting (k + 1), wg := s.wg + 1, workers := s.workers.set k .idle }
      else { s with owner := .started }
  | _ => s

/-- `WorkerPool.Stop`, step by step. -/
def stop (s : State pool T ε) : State pool T ε :=
  match s.owner with
  | .started => { s with owner := .stopping, queue := s.queue.close }
  | .stopping => if s.wg = 0 then { s with owner := .stopped, cancelled := true } else s
  | _ => s

/-- `WorkerPool.Submit`. -/
def submit (s : State pool T ε) (x : T) : State pool T ε :=
  { s with
    queue := (s.queue.send x).2
    log := .submitted x (submitOutcome pool (s.queue.send x).1) :: s.log }

/-- A step of worker `i`. -/
def step (s : State pool T ε) (i : ℕ) (err : Option ε) : State pool T ε :=
  match s.workers[i]? with
  | some w =>
      let e := w.step s.cancelled err s.queue
      { s with
        queue := e.queue
        wg := s.wg - e.done
        workers := s.workers.set i e.worker
        log := e.events ++ s.log }
  | none => s

def advance (s : State pool T ε) : Move T ε → State pool T ε
  | .start => s.start
  | .stop => s.stop
  | .submit x => s.submit x
  | .worker i err => s.step i err
  | .cancel => { s with cancelled := true }

def run (s : State pool T ε) (ms : List (Move T ε)) : State pool T ε := ms.foldl advance s

/-- `Stop` has begun. -/
def stopBegun (s : State pool T ε) : Bool := s.owner = .stopping ∨ s.owner = .stopped

/-- Nothing is submitted once `Stop` has begun, and the context is not cancelled. -/
def Admits (s : State pool T ε) : Move T ε → Prop
  | .submit _ => s.stopBegun = false
  | .cancel => False
  | _ => True

def AdmitsAll : State pool T ε → List (Move T ε) → Prop
  | _, [] => True
  | s, m :: ms => s.Admits m ∧ (s.advance m).AdmitsAll ms

end State

/-! ### Items and errors -/

/-- The items whose `Submit` returned nil. -/
def accepted (log : List (Event T ε)) : List T :=
  log.filterMap fun
    | .submitted x (.returned none) => some x
    | _ => none

def called (log : List (Event T ε)) : List T :=
  log.filterMap fun
    | .called x => some x
    | _ => none

def returned (log : List (Event T ε)) : List T :=
  log.filterMap fun
    | .returned x _ => some x
    | _ => none

def errors (log : List (Event T ε)) : List ε :=
  log.filterMap fun
    | .returned _ err => err
    | _ => none

/-- The errors that `onError` was called with. -/
def reported (log : List (Event T ε)) : List ε :=
  log.filterMap fun
    | .reported err => some err
    | _ => none

section

variable (new log : List (Event T ε))

@[simp] theorem accepted_append : accepted (new ++ log) = accepted new ++ accepted log :=
  List.filterMap_append

@[simp] theorem called_append : called (new ++ log) = called new ++ called log :=
  List.filterMap_append

@[simp] theorem returned_append : returned (new ++ log) = returned new ++ returned log :=
  List.filterMap_append

@[simp] theorem errors_append : errors (new ++ log) = errors new ++ errors log :=
  List.filterMap_append

@[simp] theorem reported_append : reported (new ++ log) = reported new ++ reported log :=
  List.filterMap_append

end

namespace Worker

/-- The item a worker has received and not handled yet. -/
@[simp] def hand : Worker T ε → Multiset T
  | received x => {x}
  | _ => 0

/-- The item in the handler of a worker. -/
@[simp] def inHandler : Worker T ε → Multiset T
  | handling x => {x}
  | _ => 0

/-- The error a worker has to report. -/
@[simp] def unreported : Worker T ε → Multiset ε
  | failed err => {err}
  | _ => 0

/-- Whether the wait group counts the worker. -/
@[simp] def live : Worker T ε → ℕ
  | absent => 0
  | gone => 0
  | _ => 1

/-- The worker has left its loop. -/
@[simp] def out : Worker T ε → Prop
  | leaving => True
  | gone => True
  | _ => False

end Worker

/-- What every step of a worker keeps, as long as the context is not cancelled. -/
structure Effect.Keeps (w : Worker T ε) (queue : Chan T pool.queueSize) (e : Effect pool T ε) :
    Prop where
  /-- no item is lost -/
  items : (↑queue.buf + w.hand : Multiset T) = ↑e.queue.buf + e.worker.hand + ↑(called e.events)
  handler : (w.inHandler + ↑(called e.events) : Multiset T) =
    e.worker.inHandler + ↑(returned e.events)
  /-- no error is lost, if there is an `onError` -/
  errors : pool.hasOnError = true →
    (w.unreported + ↑(errors e.events) : Multiset ε) = e.worker.unreported + ↑(reported e.events)
  reported_nil : pool.hasOnError = false → w.unreported = 0 →
    e.worker.unreported = 0 ∧ reported e.events = []
  live : w.live = e.worker.live + e.done
  absent : e.worker = .absent ↔ w = .absent
  /-- workers leave when the channel is closed and empty -/
  out : e.worker.out → w.out ∨ (queue.closed = true ∧ queue.buf = [])
  closed : e.queue.closed = queue.closed
  empty : queue.buf = [] → e.queue.buf = []
  accepted_nil : accepted e.events = []

/-- A step in which nothing happens to items and errors. -/
theorem Effect.Keeps.of_quiet {w w' : Worker T ε} {queue queue' : Chan T pool.queueSize} {done : ℕ}
    (hbuf : queue'.buf = queue.buf) (hclosed : queue'.closed = queue.closed)
    (hhand : w'.hand = w.hand) (hhandler : w'.inHandler = w.inHandler)
    (hunreported : w'.unreported = w.unreported) (hlive : w.live = w'.live + done)
    (habsent : w' = .absent ↔ w = .absent)
    (hout : w'.out → w.out ∨ (queue.closed = true ∧ queue.buf = [])) :
    Effect.Keeps w queue ⟨w', queue', [], done⟩ where
  items := by rw [hbuf, hhand]; exact (add_zero _).symm
  handler := by rw [hhandler]; rfl
  errors := fun _ => by rw [hunreported]; rfl
  reported_nil := fun _ hw => ⟨hunreported.trans hw, rfl⟩
  live := hlive
  absent := habsent
  out := hout
  closed := hclosed
  empty := fun h => hbuf.trans h
  accepted_nil := rfl

theorem Worker.step_keeps (w : Worker T ε) (queue : Chan T pool.queueSize) (err : Option ε) :
    (w.step false err queue).Keeps w queue := by
  cases w with
  | absent => exact .of_quiet rfl rfl rfl rfl rfl rfl Iff.rfl Or.inl
  | idle => exact .of_quiet rfl rfl rfl rfl rfl rfl (by simp) False.elim
  | waiting =>
    rw [step]
    rcases queue.recv_cases with ⟨x, rest, hbuf, heq⟩ | ⟨hbuf, hclosed, heq⟩ | ⟨hbuf, -, heq⟩
    · rw [heq]
      constructor
      case items =>
        rw [hbuf, ← Multiset.cons_coe, ← Multiset.singleton_add]
        simp [called, add_comm]
      all_goals simp [hbuf, called, returned, errors, reported, accepted]
    · rw [heq]
      exact .of_quiet rfl rfl rfl rfl rfl rfl (by simp) fun _ => Or.inr ⟨hclosed, hbuf⟩
    · rw [heq]
      exact .of_quiet rfl rfl rfl rfl rfl rfl Iff.rfl False.elim
  | received x =>
    constructor <;> simp [step, called, returned, errors, reported, accepted]
  | handling x =>
    cases err with
    | none => constructor <;> simp [step, called, returned, errors, reported, accepted]
    | some e =>
      by_cases hon : pool.hasOnError = true
      · constructor <;> simp [step, hon, called, returned, errors, reported, accepted]
      · constructor <;> simp [step, hon, called, returned, errors, reported, accepted]
  | failed e => constructor <;> simp [step, called, returned, errors, reported, accepted]
  | leaving => exact .of_quiet rfl rfl rfl rfl rfl rfl (by simp) fun _ => Or.inl trivial
  | gone => exact .of_quiet rfl rfl rfl rfl rfl rfl Iff.rfl Or.inl

/-- A worker that is not running does nothing, cancelled or not. -/
theorem Worker.step_of_not_live {w : Worker T ε} (hw : w.live = 0) (cancelled : Bool)
    (queue : Chan T pool.queueSize) (err : Option ε) :
    w.step cancelled err queue = w.step false err queue := by
  cases w <;> simp_all [step]

/-! ### The invariant -/

/-- Worker `i` has been started. -/
def Owner.hasStarted (i : ℕ) : Owner → Prop
  | created => False
  | starting k => i < k
  | _ => True

structure Inv (s : State pool T ε) : Prop where
  length_eq : s.workers.length = pool.workers
  /-- an accepted item is in the queue, with a worker, or has been handled -/
  items : (↑(accepted s.log) : Multiset T) =
    ↑s.queue.buf + (s.workers.map Worker.hand).sum + ↑(called s.log)
  handler : (↑(called s.log) : Multiset T) =
    (s.workers.map Worker.inHandler).sum + ↑(returned s.log)
  errors : pool.hasOnError = true → (↑(errors s.log) : Multiset ε) =
    (s.workers.map Worker.unreported).sum + ↑(reported s.log)
  silent : pool.hasOnError = false → reported s.log = [] ∧ ∀ w ∈ s.workers, w.unreported = 0
  wg_eq : s.wg = (s.workers.map Worker.live).sum
  absent : ∀ {i w}, s.workers[i]? = some w → (w = .absent ↔ ¬s.owner.hasStarted i)
  closed : s.queue.closed = s.stopBegun
  /-- workers have left only if there is nothing more to do -/
  out : ∀ w ∈ s.workers, w.out → s.queue.closed = true ∧ s.queue.buf = []
  cancelled : s.cancelled = true → s.owner = .stopped
  stopped : s.owner = .stopped → s.wg = 0

namespace Inv

variable {s : State pool T ε}

theorem init : Inv (State.init pool : State pool T ε) where
  length_eq := List.length_replicate
  items := by simp [State.init, Chan.make, accepted, called]
  handler := by simp [State.init, called, returned]
  errors := fun _ => by simp [State.init, WorkerPool.errors, reported]
  silent := fun _ => ⟨rfl, fun w hw => by rw [List.eq_of_mem_replicate hw]; rfl⟩
  wg_eq := by simp [State.init]
  absent := fun {i w} hw => by
    have hmem := List.mem_of_getElem? hw
    exact iff_of_true (List.eq_of_mem_replicate hmem) id
  closed := rfl
  out := fun w hw hout => by
    rw [List.eq_of_mem_replicate hw] at hout
    exact hout.elim
  cancelled := nofun
  stopped := nofun

/-- No worker has left before `Stop` begins. -/
theorem not_out (hs : Inv s) (hstop : s.stopBegun = false) {w : Worker T ε} (hw : w ∈ s.workers) :
    ¬w.out := fun hout => by
  have hclosed := (hs.out w hw hout).1
  rw [hs.closed, hstop] at hclosed
  cases hclosed

/-- The context is not cancelled before `Stop` returns. -/
theorem not_cancelled (hs : Inv s) (howner : s.owner ≠ .stopped) : s.cancelled = false := by
  by_contra hc
  exact howner (hs.cancelled (by simpa using hc))

theorem setOwner (hs : Inv s) {o : Owner}
    (hstart : ∀ i < pool.workers, (o.hasStarted i ↔ s.owner.hasStarted i))
    (hclosed : s.queue.closed = { s with owner := o }.stopBegun) (hcancel : s.cancelled = false)
    (hstopped : o ≠ .stopped) : Inv { s with owner := o } :=
  { hs with
    absent := fun {i w} hw => by
      have hi : i < s.workers.length := (List.getElem?_eq_some_iff.1 hw).1
      rw [hstart i (hs.length_eq ▸ hi)]
      exact hs.absent hw
    closed := hclosed
    cancelled := fun hc => absurd hc (by simp [hcancel])
    stopped := fun ho => absurd ho hstopped }

theorem launch (hs : Inv s) {k : ℕ} (howner : s.owner = .starting k) (hk : k < pool.workers) :
    Inv { s with
      owner := .starting (k + 1), wg := s.wg + 1, workers := s.workers.set k .idle } := by
  have hbegun : s.stopBegun = false := by simp [State.stopBegun, howner]
  obtain ⟨w, hw⟩ : ∃ w, s.workers[k]? = some w :=
    ⟨_, List.getElem?_eq_getElem (hs.length_eq ▸ hk)⟩
  have habsent : w = .absent := (hs.absent hw).2 (by simp [howner, Owner.hasStarted])
  subst habsent
  have hhand := sum_map_set Worker.hand hw .idle
  have hhandler := sum_map_set Worker.inHandler hw .idle
  have hunreported := sum_map_set Worker.unreported hw .idle
  have hlive := sum_map_set Worker.live hw .idle
  simp only [Worker.hand, Worker.inHandler, Worker.unreported, Worker.live, add_zero]
    at hhand hhandler hunreported hlive
  refine
    { length_eq := (List.length_set ..).trans hs.length_eq
      items := by rw [hhand]; exact hs.items
      handler := by rw [hhandler]; exact hs.handler
      errors := fun hon => by rw [hunreported]; exact hs.errors hon
      silent := fun hon => ⟨(hs.silent hon).1, fun w hw => ?_⟩
      wg_eq := by rw [hlive, ← hs.wg_eq]
      absent := fun {i w} hw => ?_
      closed := by rw [hs.closed, hbegun]; rfl
      out := fun w hw hout => ?_
      cancelled := fun hc => absurd hc (by simp [hs.not_cancelled (by simp [howner])])
      stopped := nofun }
  · rcases List.mem_or_eq_of_mem_set hw with hw | rfl
    · exact (hs.silent hon).2 w hw
    · rfl
  · rw [List.getElem?_set] at hw
    split_ifs at hw with hki hlen
    · cases hw
      simp [Owner.hasStarted, hki]
    · rw [hs.absent hw, howner]
      simp only [Owner.hasStarted]
      omega
  · rcases List.mem_or_eq_of_mem_set hw with hw | rfl
    · exact absurd hout (hs.not_out hbegun hw)
    · exact hout.elim

theorem start (hs : Inv s) : Inv s.start := by
  unfold State.start
  cases howner : s.owner with
  | created =>
    refine hs.setOwner (fun i _ => ?_) ?_ (hs.not_cancelled (by simp [howner])) nofun
    · simp [howner, Owner.hasStarted]
    · rw [hs.closed]
      simp [State.stopBegun, howner]
  | starting k =>
    show Inv (if k < pool.workers then _ else _)
    split_ifs with hk
    · exact hs.launch howner hk
    · refine hs.setOwner (fun i hi => ?_) ?_ (hs.not_cancelled (by simp [howner])) nofun
      · rw [howner]
        simp only [Owner.hasStarted, true_iff]
        omega
      · rw [hs.closed]
        simp [State.stopBegun, howner]
  | started => exact hs
  | stopping => exact hs
  | stopped => exact hs

theorem stop (hs : Inv s) : Inv s.stop := by
  unfold State.stop
  cases howner : s.owner with
  | started =>
    have hbegun : s.stopBegun = false := by simp [State.stopBegun, howner]
    exact
      { hs with
        absent := fun {i w} hw => (hs.absent hw).trans (by simp [howner, Owner.hasStarted])
        closed := rfl
        out := fun w hw hout => absurd hout (hs.not_out hbegun hw)
        cancelled := fun hc => absurd hc (by simp [hs.not_cancelled (by simp [howner])])
        stopped := nofun }
  | stopping =>
    show Inv (if s.wg = 0 then _ else _)
    split_ifs with hwg
    · exact
        { hs with
          absent := fun {i w} hw => (hs.absent hw).trans (by simp [howner, Owner.hasStarted])
          closed := hs.closed.trans (by simp [State.stopBegun, howner])
          cancelled := fun _ => rfl
          stopped := fun _ => hwg }
    · exact hs
  | _ => exact hs

theorem submit (hs : Inv s) (hbegun : s.stopBegun = false) (x : T) : Inv (s.submit x) := by
  have hopen : s.queue.closed = false := hs.closed.trans hbegun
  have hbase : ∀ (out : Outcome (Option Err)) (queue : Chan T pool.queueSize),
      queue.closed = false →
      (↑(accepted (.submitted x out :: s.log)) : Multiset T) =
        ↑queue.buf + (s.workers.map Worker.hand).sum + ↑(called s.log) →
      Inv { s with queue := queue, log := .submitted x out :: s.log } :=
    fun out queue hqueue hitems =>
      { hs with
        items := hitems
        closed := hqueue.trans hbegun.symm
        out := fun w hw hout => absurd hout (hs.not_out hbegun hw) }
  rcases s.queue.send_cases x with ⟨hclosed, -⟩ | ⟨-, -, heq⟩ | ⟨-, -, heq⟩
  · rw [hopen] at hclosed
    cases hclosed
  · rw [State.submit, heq]
    refine hbase _ _ hopen ?_
    have haccepted : accepted (.submitted x (submitOutcome pool .sent) :: s.log) =
        x :: accepted s.log := rfl
    rw [haccepted, ← Multiset.cons_coe, ← Multiset.singleton_add, hs.items, ← Multiset.coe_add,
      ← Multiset.coe_singleton]
    abel
  · rw [State.submit, heq]
    exact hbase _ _ hopen hs.items

section

variable {i : ℕ} {w : Worker T ε} {e : Effect pool T ε}

/-- Where the items are after a step of worker `i`. -/
theorem items_effect (hs : Inv s) (hi : s.workers[i]? = some w) (hkeeps : e.Keeps w s.queue) :
    (↑(accepted (e.events ++ s.log)) : Multiset T) =
      ↑e.queue.buf + ((s.workers.set i e.worker).map Worker.hand).sum +
        ↑(called (e.events ++ s.log)) := by
  have hsum : ↑e.queue.buf + ((s.workers.set i e.worker).map Worker.hand).sum +
      (↑s.queue.buf + w.hand) = ↑s.queue.buf + (s.workers.map Worker.hand).sum +
        (↑e.queue.buf + e.worker.hand) := by
    rw [add_add_add_comm, sum_map_set Worker.hand hi e.worker]
    abel
  have hpass := pass_on hs.items ((add_zero _).trans hkeeps.items) hsum
  rw [zero_add] at hpass
  rw [accepted_append, hkeeps.accepted_nil, List.nil_append, called_append, ← Multiset.coe_add]
  exact hpass

theorem wg_effect (hs : Inv s) (hi : s.workers[i]? = some w) (hkeeps : e.Keeps w s.queue) :
    s.wg - e.done = ((s.workers.set i e.worker).map Worker.live).sum := by
  have hsum := sum_map_set Worker.live hi e.worker
  have hlive := hkeeps.live
  have hwg := hs.wg_eq
  omega

theorem absent_effect (hs : Inv s) (hi : s.workers[i]? = some w) (hkeeps : e.Keeps w s.queue)
    {j : ℕ} {w' : Worker T ε} (hw' : (s.workers.set i e.worker)[j]? = some w') :
    w' = .absent ↔ ¬s.owner.hasStarted j := by
  rw [List.getElem?_set] at hw'
  split_ifs at hw' with hij hlen
  · cases hw'
    subst hij
    exact hkeeps.absent.trans (hs.absent hi)
  · exact hs.absent hw'

theorem effect (hs : Inv s) (hi : s.workers[i]? = some w) (hkeeps : e.Keeps w s.queue) :
    Inv { s with
      queue := e.queue
      wg := s.wg - e.done
      workers := s.workers.set i e.worker
      log := e.events ++ s.log } where
  length_eq := (List.length_set ..).trans hs.length_eq
  items := hs.items_effect hi hkeeps
  handler := by
    rw [called_append, returned_append, ← Multiset.coe_add, ← Multiset.coe_add]
    exact pass_on hs.handler hkeeps.handler (sum_map_set Worker.inHandler hi e.worker)
  errors hon := by
    rw [errors_append, reported_append, ← Multiset.coe_add, ← Multiset.coe_add]
    exact pass_on (hs.errors hon) (hkeeps.errors hon) (sum_map_set Worker.unreported hi e.worker)
  silent hon := by
    obtain ⟨hreported, hworkers⟩ := hs.silent hon
    obtain ⟨hworker, hevents⟩ := hkeeps.reported_nil hon (hworkers w (List.mem_of_getElem? hi))
    refine ⟨?_, fun w' hw' => ?_⟩
    · rw [reported_append, hevents, hreported, List.nil_append]
    · rcases List.mem_or_eq_of_mem_set hw' with hw' | rfl
      · exact hworkers w' hw'
      · exact hworker
  wg_eq := hs.wg_effect hi hkeeps
  absent := hs.absent_effect hi hkeeps
  closed := hkeeps.closed.trans hs.closed
  out w' hw' hout := by
    have hdrained : s.queue.closed = true ∧ s.queue.buf = [] →
        e.queue.closed = true ∧ e.queue.buf = [] := fun h =>
      ⟨hkeeps.closed.trans h.1, hkeeps.empty h.2⟩
    rcases List.mem_or_eq_of_mem_set hw' with hw' | rfl
    · exact hdrained (hs.out w' hw' hout)
    · rcases hkeeps.out hout with hout | hend
      · exact hdrained (hs.out w (List.mem_of_getElem? hi) hout)
      · exact hdrained hend
  cancelled := hs.cancelled
  stopped ho := by rw [hs.stopped ho, Nat.zero_sub]

end

theorem step (hs : Inv s) (i : ℕ) (err : Option ε) : Inv (s.step i err) := by
  unfold State.step
  cases hi : s.workers[i]? with
  | none => exact hs
  | some w =>
    -- If the context has been cancelled, the worker is gone.
    have hstep : w.step s.cancelled err s.queue = w.step false err s.queue := by
      cases hc : s.cancelled with
      | false => rfl
      | true =>
        have hwg := hs.stopped (hs.cancelled hc)
        rw [hs.wg_eq, List.sum_eq_zero_iff] at hwg
        exact Worker.step_of_not_live
          (hwg _ (List.mem_map_of_mem (List.mem_of_getElem? hi))) _ _ _
    simp only [hstep]
    exact hs.effect hi (w.step_keeps s.queue err)

theorem advance (hs : Inv s) {m : Move T ε} (hm : s.Admits m) : Inv (s.advance m) := by
  cases m with
  | start => exact hs.start
  | stop => exact hs.stop
  | submit x => exact hs.submit hm x
  | worker i err => exact hs.step i err
  | cancel => exact hm.elim

theorem run (hs : Inv s) {ms : List (Move T ε)} (hms : s.AdmitsAll ms) : Inv (s.run ms) := by
  induction ms generalizing s with
  | nil => exact hs
  | cons m ms ih => exact ih (hs.advance hms.1) hms.2

/-! ### The end of a run -/

/-- When `Stop` has returned, all workers are gone, and the queue is empty. -/
theorem gone_of_stopped (hs : Inv s) (hstop : s.owner = .stopped) :
    s.queue.buf = [] ∧ ∀ w ∈ s.workers, w = .gone := by
  have hgone : ∀ w ∈ s.workers, w = .gone := by
    intro w hw
    have hwg := hs.stopped hstop
    rw [hs.wg_eq, List.sum_eq_zero_iff] at hwg
    have hlive := hwg _ (List.mem_map_of_mem hw)
    obtain ⟨i, hi⟩ := List.mem_iff_getElem?.1 hw
    have habsent := hs.absent hi
    rw [hstop] at habsent
    cases w <;> simp_all [Owner.hasStarted]
  have hne : s.workers ≠ [] := by
    rw [← List.length_pos_iff, hs.length_eq]
    exact pool.workers_pos
  obtain ⟨w, hw⟩ := List.exists_mem_of_ne_nil _ hne
  exact ⟨(hs.out w hw (by rw [hgone w hw]; trivial)).2, hgone⟩

theorem sum_eq_zero {M : Type} [AddCommMonoid M] {f : Worker T ε → M} (hf : f .gone = 0)
    {l : List (Worker T ε)} (hl : ∀ w ∈ l, w = .gone) : (l.map f).sum = 0 :=
  List.sum_eq_zero fun y hy => by
    obtain ⟨w, hw, rfl⟩ := List.mem_map.1 hy
    rw [hl w hw, hf]

/-- Handlers are called with accepted items only, each at most as often as it was accepted. -/
theorem called_subperm (hs : Inv s) : (called s.log).Subperm (accepted s.log) := by
  rw [← Multiset.coe_le, hs.items]
  exact le_add_self

theorem returned_subperm (hs : Inv s) : (returned s.log).Subperm (called s.log) := by
  rw [← Multiset.coe_le, hs.handler]
  exact le_add_self

theorem reported_subperm (hs : Inv s) : (reported s.log).Subperm (WorkerPool.errors s.log) := by
  cases hon : pool.hasOnError with
  | true =>
    rw [← Multiset.coe_le, hs.errors hon]
    exact le_add_self
  | false =>
    rw [(hs.silent hon).1]
    exact List.nil_subperm

theorem perm_of_stopped (hs : Inv s) (hstop : s.owner = .stopped) :
    (called s.log).Perm (accepted s.log) ∧ (returned s.log).Perm (accepted s.log) ∧
      (pool.hasOnError = true → (reported s.log).Perm (WorkerPool.errors s.log)) := by
  obtain ⟨hbuf, hgone⟩ := hs.gone_of_stopped hstop
  have hitems := hs.items
  have hhandler := hs.handler
  rw [hbuf, sum_eq_zero rfl hgone, Multiset.coe_nil, zero_add, zero_add, Multiset.coe_eq_coe]
    at hitems
  rw [sum_eq_zero rfl hgone, zero_add, Multiset.coe_eq_coe] at hhandler
  refine ⟨hitems.symm, (hitems.trans hhandler).symm, fun hon => ?_⟩
  have herrors := hs.errors hon
  rw [sum_eq_zero rfl hgone, zero_add, Multiset.coe_eq_coe] at herrors
  exact herrors.symm

end Inv

/-! ### `Stop` returns -/

/-- How far a worker is from its next receive, or from its end. -/
def Worker.rank : Worker T ε → ℕ
  | absent => 4
  | idle => 3
  | waiting => 2
  | received _ => 7
  | handling _ => 6
  | failed _ => 5
  | leaving => 1
  | gone => 0

def Owner.rank : Owner → ℕ
  | created => 4
  | starting _ => 3
  | started => 2
  | stopping => 1
  | stopped => 0

def State.rank (s : State pool T ε) : ℕ :=
  6 * s.queue.buf.length + (s.workers.map Worker.rank).sum + s.owner.rank

/-- On a closed channel every step of a worker brings it nearer to its end. -/
theorem Worker.step_rank {w : Worker T ε} (hlive : w.live ≠ 0) {queue : Chan T pool.queueSize}
    (hclosed : queue.closed = true) : 6 * (w.step false none queue).queue.buf.length +
      (w.step false none queue).worker.rank < 6 * queue.buf.length + w.rank := by
  cases w with
  | waiting =>
    rw [step]
    rcases queue.recv_cases with ⟨x, rest, hbuf, heq⟩ | ⟨hbuf, -, heq⟩ | ⟨-, hopen, heq⟩
    · simp [heq, hbuf, rank]
      omega
    · simp [heq, hbuf, rank, Chan.leave]
    · rw [hopen] at hclosed
      cases hclosed
  | absent => exact absurd rfl hlive
  | gone => exact absurd rfl hlive
  | _ => simp [step, rank, Chan.await]

/-- As long as `Stop` has not returned, some step brings its return nearer. -/
theorem Inv.exists_rank_lt {s : State pool T ε} (hs : Inv s) (hstop : s.owner ≠ .stopped) :
    ∃ m, s.Admits m ∧ (s.advance m).rank < s.rank := by
  cases howner : s.owner with
  | created =>
    refine ⟨.start, trivial, ?_⟩
    simp [State.advance, State.start, State.rank, howner, Owner.rank]
  | starting k =>
    refine ⟨.start, trivial, ?_⟩
    by_cases hk : k < pool.workers
    · obtain ⟨w, hw⟩ : ∃ w, s.workers[k]? = some w :=
        ⟨_, List.getElem?_eq_getElem (hs.length_eq ▸ hk)⟩
      have habsent : w = .absent := (hs.absent hw).2 (by simp [howner, Owner.hasStarted])
      subst habsent
      have hrank := sum_map_set Worker.rank hw .idle
      simp only [Worker.rank] at hrank
      simp only [State.advance, State.start, howner, if_pos hk, State.rank, Owner.rank]
      omega
    · simp [State.advance, State.start, State.rank, howner, hk, Owner.rank]
  | started =>
    refine ⟨.stop, trivial, ?_⟩
    simp [State.advance, State.stop, State.rank, howner, Owner.rank, Chan.close]
  | stopping =>
    by_cases hwg : s.wg = 0
    · refine ⟨.stop, trivial, ?_⟩
      simp [State.advance, State.stop, State.rank, howner, hwg, Owner.rank]
    · -- Some worker is running.
      rw [hs.wg_eq, List.sum_eq_zero_iff] at hwg
      push Not at hwg
      obtain ⟨n, hn, hne⟩ := hwg
      obtain ⟨w, hw, rfl⟩ := List.mem_map.1 hn
      obtain ⟨i, hi⟩ := List.mem_iff_getElem?.1 hw
      refine ⟨.worker i none, trivial, ?_⟩
      have hclosed : s.queue.closed = true := by
        rw [hs.closed]
        simp [State.stopBegun, howner]
      have hrank := sum_map_set Worker.rank hi (w.step false none s.queue).worker
      have hlt := Worker.step_rank hne hclosed
      simp only [State.advance, State.step, hi, hs.not_cancelled hstop, State.rank]
      omega
  | stopped => exact absurd howner hstop

theorem Inv.exists_stopped {s : State pool T ε} (hs : Inv s) :
    ∃ ms, s.AdmitsAll ms ∧ (s.run ms).owner = .stopped := by
  induction hn : s.rank using Nat.strong_induction_on generalizing s with
  | _ n ih =>
    by_cases hstop : s.owner = .stopped
    · exact ⟨[], trivial, hstop⟩
    · obtain ⟨m, hm, hlt⟩ := hs.exists_rank_lt hstop
      obtain ⟨ms, hms, hend⟩ := ih _ (hn ▸ hlt) (hs.advance hm) rfl
      exact ⟨m :: ms, ⟨hm, hms⟩, hend⟩

/-- **The pool drains.**  Let nothing be submitted once `Stop` has begun, and let the context not be
cancelled.  Under every schedule handlers are called with accepted items only, no more often than
they were accepted, and no error is reported that no handler returned.  When `Stop` has returned,
the handler has been called and has returned exactly once for each accepted item, and every error of
a handler has been reported once, if there is an `onError`.  Every run can be continued until `Stop`
returns. -/
theorem drains (workers queueSize : ℤ) (hasOnError : Bool) {ms : List (Move T ε)}
    (hms : (State.init (new workers queueSize hasOnError) : State _ T ε).AdmitsAll ms) :
    let s := (State.init (new workers queueSize hasOnError) : State _ T ε).run ms
    (called s.log).Subperm (accepted s.log) ∧
      (returned s.log).Subperm (called s.log) ∧
      (reported s.log).Subperm (errors s.log) ∧
      (s.owner = .stopped →
        (called s.log).Perm (accepted s.log) ∧ (returned s.log).Perm (accepted s.log) ∧
          if hasOnError then (reported s.log).Perm (errors s.log) else reported s.log = []) ∧
      ∃ ms', s.AdmitsAll ms' ∧ (s.run ms').owner = .stopped := by
  intro s
  have hs : Inv s := Inv.init.run hms
  refine ⟨hs.called_subperm, hs.returned_subperm, hs.reported_subperm, fun hstop => ?_,
    hs.exists_stopped⟩
  obtain ⟨hcalled, hreturned, hreported⟩ := hs.perm_of_stopped hstop
  refine ⟨hcalled, hreturned, ?_⟩
  cases hasOnError with
  | true => exact hreported rfl
  | false => exact (hs.silent rfl).1

/-- Two workers and room for two items: the third is rejected.  The first two are handled side by
side, one more is accepted, and the handler of the second fails after `Stop` has begun. -/
def twoWorkers : List (Move ℕ String) :=
  [.submit 7, .submit 8, .submit 9, .start, .start, .start, .start,
    .worker 0 none, .worker 1 none, .worker 0 none, .worker 1 none, .worker 1 none, .worker 0 none,
    .submit 10, .stop, .worker 1 (some "boom"), .worker 0 none, .worker 1 none,
    .worker 0 none, .worker 0 none, .worker 0 none, .worker 0 none, .worker 0 none, .worker 0 none,
    .worker 1 none, .worker 1 none, .worker 1 none, .worker 0 none, .stop]

theorem drains_twoWorkers :
    let s := (State.init (new 2 2 true)).run twoWorkers
    s.owner = .stopped ∧ .submitted 9 (.returned (some (errQueueFull (new 2 2 true)))) ∈ s.log ∧
      (called s.log).Perm [10, 8, 7] ∧ (returned s.log).Perm [10, 8, 7] ∧
      (reported s.log).Perm ["boom"] := by
  intro s
  have hms : (State.init (new 2 2 true)).AdmitsAll twoWorkers := by
    refine ⟨rfl, rfl, rfl, ?_, ?_, ?_, ?_, ?_, ?_, ?_, ?_, ?_, ?_, rfl, ?_⟩
    all_goals trivial
  have hstop : s.owner = .stopped := rfl
  obtain ⟨hcalled, hreturned, hreported⟩ := (drains 2 2 true hms).2.2.2.1 hstop
  exact ⟨hstop, List.mem_of_getElem? (i := 8) rfl, hcalled, hreturned, hreported⟩

end WolfCore.Concurrency.WorkerPool
