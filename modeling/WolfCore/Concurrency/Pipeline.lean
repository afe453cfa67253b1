import WolfCore.Lib.Go
import WolfCore.Lib.Stage

/-!
# Fan-out and fan-in (`infra/concurrency/pipeline.go`)

`FanOut` starts workers that share one input channel and send the results of a stage function to one
output channel; `FanIn` merges channels into one.  Both close their output when all workers have
returned.

A channel is a feed: with the goroutines behind it.  So the input of one of the functions can be the
output of another, and a pipeline is a feed.  As long as the context is not cancelled, no value is
lost or duplicated, for every number of workers, every stage function and every schedule:
`conserves_fanOut`, `conserves_fanIn`, and `pipeline_conservation` for the two and for their
composition.
-/

namespace WolfCore.Concurrency.Pipeline

open Go Go.Feed

variable {T R World ι : Type}

/-- `Stage`: what the function returns for an item, given whether the context is cancelled and
whatever else it depends on. -/
def Stage (World In Out : Type) : Type := Bool → World → In → Except Err Out

/-- Where the loop of `FanOut` is, with the item it has received: before `ctx.Err()`, or in the
stage function. -/
inductive Call
  | received
  | calling

/-- The body of the loop of `FanOut`, up to the `select`. -/
def fanOutBody (fn : Stage World T R) : Handler T R Call World where
  enter _ := .busy .received
  step cancelled world item
    | .received => if cancelled then .quit else .busy .calling
    | .calling =>
        match fn cancelled world item with
        | .ok result => .emit result
        | .error _ => .skip

/-- The number of workers that `FanOut` starts. -/
def workerCount (workers : ℤ) : ℕ := if workers ≤ 0 then 1 else workers.toNat

/-- `FanOut`. -/
def fanOut (input : Feed T) (workers : ℤ) (fn : Stage World T R) : Feed R :=
  stage (fun _ : Unit => input) (List.replicate (workerCount workers) ()) (fanOutBody fn)
    (workerCount workers)

/-- The body of the loop of `FanIn`, which is the `select` and nothing else. -/
def fanInBody : Handler T T Empty Unit where
  enter item := .emit item
  step _ _ _ t := t.elim

/-- `FanIn`.  The channels are named by `ι`, and the arguments may name one several times. -/
def fanIn [DecidableEq ι] (feeds : ι → Feed T) (channels : List ι) : Feed T :=
  stage feeds channels fanInBody channels.length

/-- The items for which the stage function has returned, with the results; `none` is an error. -/
def calls {input : Feed T} {workers : ℤ} {fn : Stage World T R}
    (s : (fanOut input workers fn).State) : List (T × Option R) :=
  StageState.results s

def successes (calls : List (T × Option R)) : List R := calls.filterMap Prod.snd

/-- The channels that `FanIn` reads from, with what is behind them. -/
def behind [DecidableEq ι] {feeds : ι → Feed T} {channels : List ι}
    (s : (fanIn feeds channels).State) (i : ι) : (feeds i).State :=
  StageState.inputs s i

/-- The calls are calls of the stage function, one for each of the items `xs`. -/
structure CallsOf (fn : Stage World T R) (xs : List T) (calls : List (T × Option R)) : Prop where
  items : (calls.map Prod.fst).Perm xs
  results : ∀ p ∈ calls, ∃ world, p.2 = (fn false world p.1).toOption

/-- If the results are those of a function, then so are the successes. -/
theorem successes_eq {calls : List (T × Option R)} {f : T → Option R}
    (h : ∀ p ∈ calls, p.2 = f p.1) : successes calls = (calls.map Prod.fst).filterMap f := by
  rw [successes, List.filterMap_map]
  exact List.filterMap_congr h

theorem CallsOf.successes_perm {fn : Stage World T R} {xs : List T} {calls : List (T × Option R)}
    (h : CallsOf fn xs calls) {f : T → Option R}
    (hf : ∀ world x, (fn false world x).toOption = f x) :
    (successes calls).Perm (xs.filterMap f) := by
  have hcalls : ∀ p ∈ calls, p.2 = f p.1 := by
    intro p hp
    obtain ⟨world, heq⟩ := h.results p hp
    rw [heq, hf]
  rw [successes_eq hcalls]
  exact h.items.filterMap f

/-! ### The laws of the two -/

/-- A worker of `FanOut` takes two steps, and gets a result of the stage function. -/
def fanOutBody.law (fn : Stage World T R) : (fanOutBody fn).Law where
  Result item result := ∃ world, result = (fn false world item).toOption
  size
    | .received => 1
    | .calling => 0
  bound := 2
  enter _ := Nat.one_lt_two
  step world item t := by
    cases t with
    | received => exact Nat.one_pos
    | calling =>
      cases hfn : fn false world item with
      | ok result =>
        have heq : (fanOutBody fn).step false world item .calling = .emit result := by
          simp only [fanOutBody, hfn]
        rw [heq]
        exact ⟨world, by rw [hfn]; rfl⟩
      | error err =>
        have heq : (fanOutBody fn).step false world item .calling = .skip := by
          simp only [fanOutBody, hfn]
        rw [heq]
        exact ⟨world, by rw [hfn]; rfl⟩

/-- A worker of `FanIn` sends what it has received. -/
def fanInBody.law : (fanInBody : Handler T T Empty Unit).Law where
  Result item result := result = some item
  size t := t.elim
  bound := 0
  enter _ := rfl
  step _ _ t := t.elim

def fanOut.law [Inhabited World] {input : Feed T} (L : Law input) (workers : ℤ)
    (fn : Stage World T R) : Law (fanOut input workers fn) :=
  Law.stage (fun _ => L) _ (fanOutBody.law fn) _

def fanIn.law [DecidableEq ι] {feeds : ι → Feed T} (L : (i : ι) → Law (feeds i))
    (channels : List ι) : Law (fanIn feeds channels) :=
  Law.stage L channels fanInBody.law _

theorem workerCount_pos (workers : ℤ) : 0 < workerCount workers := by
  unfold workerCount
  split_ifs <;> omega

/-- When the output of `FanOut` is closed, the stage function has been called for all items of the
input, and the successful results have been sent. -/
theorem fanOut.complete [Inhabited World] {input : Feed T} {L : Law input} {workers : ℤ}
    {fn : Stage World T R} {s : (fanOut input workers fn).State}
    (h : (fanOut.law L workers fn).Complete s) :
    L.Complete (StageState.inputs s ()) ∧
      CallsOf fn (input.wire (StageState.inputs s ())).sent (calls s) ∧
      ((fanOut input workers fn).wire s).sent.Perm (successes (calls s)) := by
  have hmem : () ∈ List.replicate (workerCount workers) () :=
    List.mem_replicate.mpr ⟨(workerCount_pos workers).ne', rfl⟩
  have hsrcs : (List.replicate (workerCount workers) ()).toFinset = {()} :=
    List.toFinset_replicate_of_ne_zero (workerCount_pos workers).ne'
  have hitems := h.items
  rw [hsrcs, Finset.sum_singleton] at hitems
  exact ⟨h.inputs () hmem, ⟨Multiset.coe_eq_coe.mp hitems, h.results⟩,
    Multiset.coe_eq_coe.mp h.sent⟩

/-- When the output of `FanIn` is closed, all that was sent to the inputs has been sent. -/
theorem fanIn.complete [DecidableEq ι] {feeds : ι → Feed T} {L : (i : ι) → Law (feeds i)}
    {channels : List ι} {s : (fanIn feeds channels).State}
    (h : (fanIn.law L channels).Complete s) :
    (∀ i ∈ channels, (L i).Complete (behind s i)) ∧
      (↑((fanIn feeds channels).wire s).sent : Multiset T) =
        ∑ i ∈ channels.toFinset, ↑((feeds i).wire (behind s i)).sent := by
  refine ⟨h.inputs, ?_⟩
  have hall : successes (StageState.results s) = (StageState.results s).map Prod.fst := by
    rw [successes_eq h.results, List.filterMap_some]
  refine (h.sent.trans ?_).trans h.items
  exact congrArg _ hall

/-! ### Conservation -/

section

variable [Inhabited World] [DecidableEq ι]

theorem conserves_fanOut {input : Feed T} (L : Law input) (workers : ℤ) (fn : Stage World T R) :
    Conserves (fanOut input workers fn) fun s delivered =>
      L.Complete (StageState.inputs s ()) ∧
        CallsOf fn (input.wire (StageState.inputs s ())).sent (calls s) ∧
        delivered.Perm (successes (calls s)) :=
  (fanOut.law L workers fn).conserves fanOut.complete

theorem conserves_fanIn {feeds : ι → Feed T} (L : (i : ι) → Law (feeds i)) (channels : List ι) :
    Conserves (fanIn feeds channels) fun s delivered =>
      (∀ i ∈ channels, (L i).Complete (behind s i)) ∧
        (↑delivered : Multiset T) =
          ∑ i ∈ channels.toFinset, ↑((feeds i).wire (behind s i)).sent :=
  (fanIn.law L channels).conserves fanIn.complete

end

/-- `FanOut`, `FanIn`, and `FanIn` over several `FanOut`s, for all finite inputs, numbers of workers
and stage functions, and for every schedule in which the context is not cancelled and the consumer
reads until the output is closed.  Behind an output that is closed nobody sends any more. -/
theorem pipeline_conservation :
    (∀ {T R World : Type} [Inhabited World] (xs : List T) (cap : ℕ) (workers : ℤ)
        (fn : Stage World T R),
      Conserves (fanOut (source xs cap) workers fn) fun s delivered =>
        CallsOf fn xs (calls s) ∧ delivered.Perm (successes (calls s)) ∧
        ∀ f, (∀ world x, (fn false world x).toOption = f x) →
          delivered.Perm (xs.filterMap f)) ∧
    (∀ {T ι : Type} [DecidableEq ι] (xs : ι → List T) (cap : ι → ℕ) (channels : List ι),
      Conserves (fanIn (fun i => source (xs i) (cap i)) channels) fun _ delivered =>
        (↑delivered : Multiset T) = ∑ i ∈ channels.toFinset, ↑(xs i)) ∧
    (∀ {R ι : Type} {In World : ι → Type} [DecidableEq ι] [∀ i, Inhabited (World i)]
        (xs : (i : ι) → List (In i)) (cap : ι → ℕ) (workers : ι → ℤ)
        (fn : (i : ι) → Stage (World i) (In i) R) (channels : List ι),
      Conserves (fanIn (fun i => fanOut (source (xs i) (cap i)) (workers i) (fn i)) channels)
          (fun s delivered =>
            (∀ i ∈ channels, CallsOf (fn i) (xs i) (calls (behind s i))) ∧
            (↑delivered : Multiset R) =
              ∑ i ∈ channels.toFinset, ↑(successes (calls (behind s i)))) ∧
        ∀ i, Sealed (fanIn (fun i => fanOut (source (xs i) (cap i)) (workers i) (fn i)) channels)
          fun s => (fanOut (source (xs i) (cap i)) (workers i) (fn i)).wire (behind s.feed i)) := by
  refine ⟨?_, ?_, ?_⟩
  · intro T R World _ xs cap workers fn
    refine (conserves_fanOut (Law.source xs cap) workers fn).mono ?_
    rintro s delivered ⟨hinput, hcalls, hdelivered⟩
    rw [Law.sent_of_source hinput] at hcalls
    exact ⟨hcalls, hdelivered, fun f hf => hdelivered.trans (hcalls.successes_perm hf)⟩
  · intro T ι _ xs cap channels
    refine (conserves_fanIn (fun i => Law.source (xs i) (cap i)) channels).mono ?_
    rintro s delivered ⟨hinputs, hdelivered⟩
    rw [hdelivered]
    refine Finset.sum_congr rfl fun i hi => ?_
    rw [Law.sent_of_source (hinputs i (List.mem_toFinset.mp hi))]
  · intro R ι In World _ _ xs cap workers fn channels
    let L (i : ι) := fanOut.law (Law.source (xs i) (cap i)) (workers i) (fn i)
    refine ⟨(conserves_fanIn L channels).mono ?_, fun i =>
      Law.sealed_input L channels fanInBody.law _ i⟩
    rintro s delivered ⟨hinputs, hdelivered⟩
    have hfanOut : ∀ i ∈ channels, CallsOf (fn i) (xs i) (calls (behind s i)) ∧
        ((fanOut (source (xs i) (cap i)) (workers i) (fn i)).wire (behind s i)).sent.Perm
          (successes (calls (behind s i))) := by
      intro i hi
      obtain ⟨hinput, hcalls, hsent⟩ := fanOut.complete (hinputs i hi)
      rw [Law.sent_of_source hinput] at hcalls
      exact ⟨hcalls, hsent⟩
    refine ⟨fun i hi => (hfanOut i hi).1, ?_⟩
    rw [hdelivered]
    refine Finset.sum_congr rfl fun i hi => ?_
    exact Multiset.coe_eq_coe.mpr (hfanOut i (List.mem_toFinset.mp hi)).2

/-- Two workers halve numbers that come from an unbuffered channel, and drop those that are odd: the
consumer can end, and it has the halves then. -/
theorem pipeline_conservation_halves :
    let halve : Stage Unit ℕ ℕ := fun _ _ n =>
      if n % 2 = 0 then .ok (n / 2) else .error (.msg "odd")
    ∃ ms, .cancel ∉ ms ∧
      ((Reading.init (fanOut (source [4, 3, 8] 0) 2 halve)).run ms).consumer = .ended ∧
      ((Reading.init (fanOut (source [4, 3, 8] 0) 2 halve)).run ms).delivered.Perm [2, 4] := by
  intro halve
  have h := pipeline_conservation.1 [4, 3, 8] 0 2 halve
  obtain ⟨ms, hms, hended⟩ := h.ends [] List.not_mem_nil
  refine ⟨ms, hms, hended, ?_⟩
  exact (h.delivered ms hms hended).2.2 (fun n => if n % 2 = 0 then some (n / 2) else none)
    fun _ n => by by_cases hn : n % 2 = 0 <;> simp [halve, hn, Except.toOption]

end WolfCore.Concurrency.Pipeline
