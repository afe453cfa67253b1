import WolfCore.Lib.Calls

/-!
# Load shedding (`infra/middleware/http/load_shedder.go`)

`LoadShedder.Middleware` counts a request in, decides from the value of the counter that it has just
written whether the request is served or rejected, and counts it out when it leaves, also when its
handler panics.  The requests run concurrently, and the operations of the counter are atomic.

* `counted`: the requests between their increment and their decrement;
* `executing`: the requests whose handler is executing;
* `executing_le_limit`: at most `limit` handlers execute at any moment, and the counter is the
  number of the requests that are counted;
* `rejects_at_capacity`: rejected requests are counted as well, so a request can be rejected while
  fewer handlers are executing; it is not if the counter has reached the limit only by handlers that
  execute.

The counter is an integer without a bound: `2 ^ 63` requests would have to be inside at once to
reach the largest value of an `int64`.
-/

namespace WolfCore.Middleware.LoadShedder

open Interleave

/-- How a handler ends. -/
inductive Outcome
  | returned
  | panicked
  deriving DecidableEq

/-- What reaches the load shedder: a request, or a reading of the gauge. -/
inductive Call
  | request
  | gauge
  deriving DecidableEq

inductive Cmd
  /-- a request arrives, or the gauge is read -/
  | arrive
  /-- `inflight.Add(delta)` -/
  | add (delta : ℤ)
  /-- `inflight.Load()` -/
  | load
  /-- `AbortServiceUnavailable`: the request is answered with 503 -/
  | abort (message : String)
  /-- `c.Next()` is called: the handler starts -/
  | next
  /-- `c.Next()` returns or panics: the handler has ended -/
  | done
  deriving DecidableEq

abbrev Reply : Cmd → Type
  | .arrive => Call
  | .add _ => ℤ
  | .load => ℤ
  | .abort _ => Unit
  | .next => Unit
  | .done => Outcome

/-- `c.Next()`. -/
def callNext : Prog Reply Outcome :=
  .call .next fun _ => .call .done .pure

/-- The message of a rejection. -/
def atCapacity : String := "server at capacity"

/-- `LoadShedder.Middleware`.  The decrement is deferred, so it is executed on every way out. -/
def middleware (limit : ℤ) : Prog Reply Outcome :=
  .call (.add 1) fun current =>
    if current > limit then
      .call (.abort atCapacity) fun _ => .call (.add (-1)) fun _ => .pure .returned
    else
      callNext.bind fun outcome => .call (.add (-1)) fun _ => .pure outcome

/-- `LoadShedder.InFlight`. -/
def inFlight : Prog Reply ℤ := .call .load .pure

/-- `LoadShed`. -/
def loadShed (maxConcurrent : ℤ) : Prog Reply Outcome :=
  if maxConcurrent ≤ 0 then callNext else middleware maxConcurrent

def serve (handler : Prog Reply Outcome) : Call → Prog Reply Unit
  | .request => handler.bind fun _ => .pure ()
  | .gauge => inFlight.bind fun _ => .pure ()

/-- What the surroundings choose: which call arrives, and how a handler ends. -/
structure Choice where
  call : Call
  outcome : Outcome

/-- The state of the load shedder is its counter. -/
def exec : (e : Cmd) → Choice → ℤ → Reply e × ℤ
  | .arrive, o, inflight => (o.call, inflight)
  | .add delta, _, inflight => (inflight + delta, inflight + delta)
  | .load, _, inflight => (inflight, inflight)
  | .abort _, _, inflight => ((), inflight)
  | .next, _, inflight => ((), inflight)
  | .done, o, inflight => (o.outcome, inflight)

/-- Goroutines that serve one call after the other through the middleware `handler`. -/
def machine (handler : Prog Reply Outcome) : Machine Reply ℤ Choice Unit Empty where
  exec := exec
  body := fun _ _ => .call .arrive (serve handler)
  boot := fun _ => ()
  env := fun a _ => a.elim

/-! ### Who is inside -/

/-- An increment that returned a value with `p`. -/
def increments (p : ℤ → Bool) : Logged Reply → Bool
  | ⟨_, .add delta, current⟩ => delta = 1 && p current
  | _ => false

def decrements (ev : Logged Reply) : Bool := ev.cmd = .add (-1)

/-- The goroutines whose request is between its increment, which returned a value with `p`, and its
decrement. -/
def entrants (p : ℤ → Bool) (h : History Reply) : Finset ℕ := within (increments p) decrements h

/-- The requests between their increment and their decrement. -/
def counted (h : History Reply) : Finset ℕ := entrants (fun _ => true) h

/-- Those of them that are served. -/
def admitted (limit : ℤ) (h : History Reply) : Finset ℕ := entrants (fun n => n ≤ limit) h

/-- Those of them that are rejected. -/
def rejected (limit : ℤ) (h : History Reply) : Finset ℕ := entrants (fun n => limit < n) h

def executing (h : History Reply) : Finset ℕ :=
  within (fun ev => ev.cmd = .next) (fun ev => ev.cmd = .done) h

section Events

variable {p : ℤ → Bool} {limit : ℤ} {i : ℕ} {h h' : History Reply}

theorem entrants_subset_counted : entrants p h ⊆ counted h :=
  within_mono (fun ev hev => by
    obtain ⟨_, e, r⟩ := ev
    cases e <;> simp_all [increments]) h

theorem entrants_add {n : ℤ} (hp : p n = true) :
    entrants p (⟨i, .add 1, n⟩ :: h) = insert i (entrants p h) :=
  within_cons_of_opens (by simp [increments, hp])

theorem entrants_add_of_not {n : ℤ} (hp : p n = false) :
    entrants p (⟨i, .add 1, n⟩ :: h) = entrants p h :=
  within_cons_of_not (by simp [increments, hp]) (by simp [decrements])

theorem entrants_sub (n : ℤ) : entrants p (⟨i, .add (-1), n⟩ :: h) = (entrants p h).erase i :=
  within_cons_of_closes (by simp [increments]) (by simp [decrements])

theorem entrants_cons {ev : Logged Reply} (hev : ∀ delta, ev.cmd ≠ .add delta) :
    entrants p (ev :: h) = entrants p h := by
  obtain ⟨j, e, r⟩ := ev
  refine within_cons_of_not ?_ (by simp [decrements, hev (-1)])
  cases e with
  | add delta => exact absurd rfl (hev delta)
  | _ => rfl

theorem executing_next : executing (⟨i, .next, ()⟩ :: h) = insert i (executing h) :=
  within_cons_of_opens (by simp)

theorem executing_done (r : Outcome) : executing (⟨i, .done, r⟩ :: h) = (executing h).erase i :=
  within_cons_of_closes (by simp) (by simp)

theorem executing_cons {ev : Logged Reply} (hnext : ev.cmd ≠ .next) (hdone : ev.cmd ≠ .done) :
    executing (ev :: h) = executing h := within_cons_of_not (by simp [hnext]) (by simp [hdone])

theorem mem_entrants_of_others (ho : Others i h h') : i ∈ entrants p h' ↔ i ∈ entrants p h :=
  mem_within_of_others ho

theorem mem_executing_of_others (ho : Others i h h') : i ∈ executing h' ↔ i ∈ executing h :=
  mem_within_of_others ho

/-- What the others do, and commands of its own that leave the counter alone. -/
theorem mem_entrants_later {ev : Logged Reply} (ho : Others i h h')
    (hev : ∀ delta, ev.cmd ≠ .add delta) : i ∈ entrants p (ev :: h') ↔ i ∈ entrants p h := by
  rw [entrants_cons hev, mem_entrants_of_others ho]

end Events

/-! ### The invariant -/

/-- The command that counts a request in. -/
def isEntry (e : Cmd) : Bool := e = .add 1

/-- A reading of the gauge is the number of the requests that are counted at that moment. -/
def Reports : Logged Reply → History Reply → Prop
  | ⟨_, .load, n⟩, h => n = (counted h).card
  | _, _ => True

structure Inv (limit inflight : ℤ) (h : History Reply) : Prop where
  inflight_eq : inflight = (counted h).card
  admitted_le : ((admitted limit h).card : ℤ) ≤ limit
  executing_subset : executing h ⊆ admitted limit h
  /-- a request that is rejected has found the counter at the limit -/
  rejected_full : ∀ i ∈ rejected limit h, limit ≤ (counted (before isEntry i h)).card
  reports : Throughout Reports h

namespace Inv

variable {limit inflight : ℤ} {h : History Reply}

theorem empty (hlimit : 0 ≤ limit) : Inv limit 0 [] :=
  ⟨rfl, hlimit, subset_rfl, fun i hi => absurd hi (Finset.notMem_empty i), trivial⟩

theorem other (hinv : Inv limit inflight h) {ev : Logged Reply} (hev : ∀ delta, ev.cmd ≠ .add delta)
    (hexec : executing (ev :: h) ⊆ admitted limit h) (hrep : Reports ev h) :
    Inv limit inflight (ev :: h) where
  inflight_eq := by
    rw [counted, entrants_cons hev]
    exact hinv.inflight_eq
  admitted_le := by
    rw [admitted, entrants_cons hev]
    exact hinv.admitted_le
  executing_subset := by
    rw [admitted, entrants_cons hev]
    exact hexec
  rejected_full := fun i hi => by
    rw [rejected, entrants_cons hev] at hi
    rw [before_cons (by simp [isEntry, hev 1])]
    exact hinv.rejected_full i hi
  reports := ⟨hrep, hinv.reports⟩

theorem increment (hinv : Inv limit inflight h) {i : ℕ} (hi : i ∉ counted h) :
    Inv limit (inflight + 1) (⟨i, .add 1, inflight + 1⟩ :: h) := by
  have hcounted : counted (⟨i, .add 1, inflight + 1⟩ :: h) = insert i (counted h) :=
    entrants_add rfl
  have hcard : inflight + 1 = (counted (⟨i, .add 1, inflight + 1⟩ :: h)).card := by
    rw [hcounted, Finset.card_insert_of_notMem hi, Nat.cast_add, Nat.cast_one, hinv.inflight_eq]
  have hexec : executing (⟨i, .add 1, inflight + 1⟩ :: h) = executing h :=
    executing_cons (by simp) (by simp)
  -- The other requests stay as they are.
  have hrest : ∀ j ∈ rejected limit h, limit ≤
      (counted (before isEntry j (⟨i, .add 1, inflight + 1⟩ :: h))).card := fun j hj => by
    have hne : i ≠ j := by
      rintro rfl
      exact hi (entrants_subset_counted hj)
    rw [before_cons_of_ne hne]
    exact hinv.rejected_full j hj
  by_cases hle : inflight + 1 ≤ limit
  · have hadmitted :
        admitted limit (⟨i, .add 1, inflight + 1⟩ :: h) = insert i (admitted limit h) :=
      entrants_add (by simpa using hle)
    refine ⟨hcard, ?_, ?_, fun j hj => ?_, trivial, hinv.reports⟩
    · have hsub := Finset.card_le_card (entrants_subset_counted (p := fun n => n ≤ limit)
        (h := ⟨i, .add 1, inflight + 1⟩ :: h))
      rw [← Int.ofNat_le] at hsub
      exact (hsub.trans hcard.ge).trans hle
    · rw [hexec, hadmitted]
      exact hinv.executing_subset.trans (Finset.subset_insert _ _)
    · rw [rejected, entrants_add_of_not (by simpa using hle)] at hj
      exact hrest j hj
  · have hadmitted : admitted limit (⟨i, .add 1, inflight + 1⟩ :: h) = admitted limit h :=
      entrants_add_of_not (by simpa using hle)
    refine ⟨hcard, ?_, ?_, fun j hj => ?_, trivial, hinv.reports⟩
    · rw [hadmitted]
      exact hinv.admitted_le
    · rw [hexec, hadmitted]
      exact hinv.executing_subset
    · rw [rejected, entrants_add (by simpa using hle), Finset.mem_insert] at hj
      rcases hj with rfl | hj
      · have hbefore : before isEntry j (⟨j, .add 1, inflight + 1⟩ :: h) = h := if_pos ⟨rfl, rfl⟩
        rw [hbefore, ← hinv.inflight_eq]
        omega
      · exact hrest j hj

theorem decrement (hinv : Inv limit inflight h) {i : ℕ} (hi : i ∈ counted h)
    (hexec : i ∉ executing h) :
    Inv limit (inflight - 1) (⟨i, .add (-1), inflight - 1⟩ :: h) where
  inflight_eq := by
    have hcard := Finset.card_erase_add_one hi
    rw [counted, entrants_sub, hinv.inflight_eq, ← hcard]
    simp [counted]
  admitted_le := by
    have hcard := Finset.card_erase_le (a := i) (s := admitted limit h)
    have hle := hinv.admitted_le
    rw [admitted, entrants_sub]
    rw [admitted] at hcard hle
    omega
  executing_subset := by
    rw [executing_cons (by simp) (by simp), admitted, entrants_sub]
    exact Finset.subset_erase.2 ⟨hinv.executing_subset, hexec⟩
  rejected_full := fun j hj => by
    rw [rejected, entrants_sub] at hj
    rw [before_cons (by simp [isEntry])]
    exact hinv.rejected_full j (Finset.mem_of_mem_erase hj)
  reports := ⟨trivial, hinv.reports⟩

end Inv

/-! ### Every run -/

/-- What a request must have done before each command. -/
def Ready (limit : ℤ) (i : ℕ) : Cmd → History Reply → Prop
  | .add delta, h =>
      (delta = 1 ∧ i ∉ counted h) ∨ (delta = -1 ∧ i ∈ counted h ∧ i ∉ executing h)
  | .abort _, h => i ∈ rejected limit h ∧ limit ≤ (counted (before isEntry i h)).card
  | .next, h => i ∈ admitted limit h
  | _, _ => True

/-- A goroutine between two calls is not counted. -/
def protocol (limit : ℤ) : Protocol (machine (middleware limit)) where
  inv := Inv limit
  pre := Ready limit
  idle := fun i _ h => i ∉ counted h
  allowed := fun _ _ _ _ _ => True
  step := fun {i e o s h} hinv _ hpre _ => by
    cases e with
    | arrive =>
      refine hinv.other (by simp) ?_ trivial
      rw [executing_cons (by simp) (by simp)]
      exact hinv.executing_subset
    | add delta =>
      rcases hpre with ⟨rfl, hi⟩ | ⟨rfl, hi, hexec⟩
      · exact hinv.increment hi
      · exact hinv.decrement hi hexec
    | load =>
      refine hinv.other (by simp) ?_ hinv.inflight_eq
      rw [executing_cons (by simp) (by simp)]
      exact hinv.executing_subset
    | abort message =>
      refine hinv.other (by simp) ?_ trivial
      rw [executing_cons (by simp) (by simp)]
      exact hinv.executing_subset
    | next =>
      refine hinv.other (by simp) ?_ trivial
      rw [executing_next]
      exact Finset.insert_subset hpre hinv.executing_subset
    | done =>
      refine hinv.other (by simp) ?_ trivial
      rw [executing_done]
      exact (Finset.erase_subset _ _).trans hinv.executing_subset
  env := fun {a} => a.elim

variable {limit : ℤ}

/-- The deferred decrement, at the end of a request. -/
theorem safe_leave {i : ℕ} {s : ℤ} {h : History Reply} (hi : i ∈ counted h)
    (hexec : i ∉ executing h) (outcome : Outcome) :
    Safe (protocol limit).contract i (fun _ _ h => i ∉ counted h)
      (.call (.add (-1)) fun _ => .pure outcome) s h := by
  refine Protocol.safe_call fun s₁ h₁ o ho _ _ _ => ⟨.inr ⟨rfl, ?_, ?_⟩, ?_⟩
  · exact (mem_entrants_of_others ho).2 hi
  · exact mt (mem_executing_of_others ho).1 hexec
  · refine Protocol.safe_pure fun s₂ h₂ ho₂ => ?_
    show i ∉ entrants _ h₂
    rw [mem_entrants_of_others ho₂, entrants_sub]
    exact Finset.notMem_erase i _

theorem safe_callNext {i : ℕ} {s : ℤ} {h : History Reply} (hi : i ∈ admitted limit h) :
    Safe (protocol limit).contract i (fun _ _ h => i ∈ counted h ∧ i ∉ executing h) callNext
      s h := by
  refine Protocol.safe_call fun s₁ h₁ o ho _ _ _ => ⟨(mem_entrants_of_others ho).2 hi, ?_⟩
  refine Protocol.safe_call fun s₂ h₂ o₂ ho₂ _ _ _ => ⟨trivial, ?_⟩
  refine Protocol.safe_pure fun s₃ h₃ ho₃ => ⟨?_, ?_⟩
  · have hnext : i ∈ counted (⟨i, .next, ()⟩ :: h₁) :=
      (mem_entrants_later ho (by simp)).2 (entrants_subset_counted hi)
    have hdone : i ∈ counted (⟨i, .done, o₂.outcome⟩ :: h₂) :=
      (mem_entrants_later ho₂ (by simp)).2 hnext
    exact (mem_entrants_of_others ho₃).2 hdone
  · rw [mem_executing_of_others ho₃]
    show i ∉ executing (⟨i, .done, o₂.outcome⟩ :: h₂)
    rw [executing_done]
    exact Finset.notMem_erase i _

theorem safe_middleware {i : ℕ} {s : ℤ} {h : History Reply} (hi : i ∉ counted h) :
    Safe (protocol limit).contract i (fun _ _ h => i ∉ counted h) (middleware limit) s h := by
  refine Protocol.safe_call fun s₁ h₁ o ho hinv _ _ => ?_
  have hi₁ : i ∉ counted h₁ := mt (mem_entrants_of_others ho).1 hi
  refine ⟨.inl ⟨rfl, hi₁⟩, ?_⟩
  have hin : ∀ {p : ℤ → Bool}, p (s₁ + 1) = true → i ∈ entrants p (⟨i, .add 1, s₁ + 1⟩ :: h₁) := by
    intro p hp
    rw [entrants_add hp]
    exact Finset.mem_insert_self _ _
  have hout : i ∉ executing (⟨i, .add 1, s₁ + 1⟩ :: h₁) := by
    rw [executing_cons (by simp) (by simp)]
    exact fun hmem => hi₁ (entrants_subset_counted (hinv.executing_subset hmem))
  show Safe _ _ _ (if s₁ + 1 > limit then _ else _) _ _
  split_ifs with hgt
  · refine Protocol.safe_call fun s₂ h₂ o₂ ho₂ hinv₂ _ _ => ⟨?_, ?_⟩
    · have hrejected : i ∈ rejected limit h₂ :=
        (mem_entrants_of_others ho₂).2 (hin (by simpa using hgt))
      exact ⟨hrejected, hinv₂.rejected_full i hrejected⟩
    · refine safe_leave ((mem_entrants_later ho₂ (by simp)).2 (hin rfl)) ?_ _
      rw [executing_cons (by simp) (by simp)]
      exact mt (mem_executing_of_others ho₂).1 hout
  · exact Protocol.safe_bind (safe_callNext (hin (by simpa using hgt)))
      fun outcome s₂ h₂ _ hq => safe_leave hq.1 hq.2 outcome

theorem safe_body {i : ℕ} {s : ℤ} {h : History Reply} (hi : i ∉ counted h) :
    Safe (protocol limit).contract i (fun _ _ h => i ∉ counted h)
      ((machine (middleware limit)).body i ()) s h := by
  refine Protocol.safe_call fun s₁ h₁ o ho _ _ _ => ⟨trivial, ?_⟩
  have hi₁ : i ∉ counted (⟨i, .arrive, o.call⟩ :: h₁) := mt (mem_entrants_later ho (by simp)).1 hi
  show Safe _ _ _ (serve (middleware limit) o.call) _ (⟨i, .arrive, o.call⟩ :: h₁)
  generalize o.call = call at hi₁ ⊢
  cases call with
  | request =>
    refine Protocol.safe_bind (safe_middleware hi₁) fun _ s₂ h₂ _ hq => ?_
    exact Protocol.safe_pure fun s₃ h₃ ho₃ => mt (mem_entrants_of_others ho₃).1 hq
  | gauge =>
    refine Protocol.safe_call fun s₂ h₂ o₂ ho₂ _ _ _ => ⟨trivial, ?_⟩
    refine Protocol.safe_pure fun s₃ h₃ ho₃ => mt (mem_entrants_of_others ho₃).1 ?_
    exact mt (mem_entrants_later ho₂ (by simp)).1 hi₁

/-- Calls served through `handler` from the start on. -/
def after (handler : Prog Reply Outcome) (as : List (Action Choice Empty)) : Pool Reply ℤ Unit :=
  (Pool.boot (machine handler) 0).run (machine handler) as

/-- No goroutine is killed: one whose handler panics still executes its deferred decrement. -/
theorem after_good (hlimit : 0 ≤ limit) {as : List (Action Choice Empty)}
    (hcrash : ∀ i, .crash i ∉ as) :
    (after (middleware limit) as).Good (protocol limit).contract := by
  refine Protocol.good (fun i _ h _ ho => ?_) (fun i _ _ _ hi => safe_body hi) (Inv.empty hlimit)
    (Along.of_mem _ (fun a _ p => OnStep.of_forall (fun _ _ _ _ _ => trivial) p a) _)
    fun i hi => absurd hi (hcrash i)
  exact mt (mem_entrants_of_others ho).1 (Finset.notMem_empty i)

theorem after_inv (hlimit : 0 ≤ limit) {as : List (Action Choice Empty)}
    (hcrash : ∀ i, .crash i ∉ as) :
    Inv limit (after (middleware limit) as).shared (after (middleware limit) as).hist :=
  (after_good hlimit hcrash).inv.1

theorem Inv.executing_le {inflight : ℤ} {h : History Reply} (hinv : Inv limit inflight h) :
    ((executing h).card : ℤ) ≤ limit := by
  have hcard := Finset.card_le_card hinv.executing_subset
  have hle := hinv.admitted_le
  omega

/-- **At most `limit` handlers execute at any moment**, the counter is the number of the requests
between their increment and their decrement, which is also what the gauge shows, and it is zero when
no call is being served. -/
theorem executing_le_limit {limit : ℤ} (hlimit : 0 ≤ limit) {as : List (Action Choice Empty)}
    (hcrash : ∀ i, .crash i ∉ as) :
    ((executing (after (middleware limit) as).hist).card : ℤ) ≤ limit ∧
      (after (middleware limit) as).shared = (counted (after (middleware limit) as).hist).card ∧
      Throughout Reports (after (middleware limit) as).hist ∧
      ((∀ i, ∃ l, (after (middleware limit) as).thread i = .pure l) →
        (after (middleware limit) as).shared = 0) := by
  have hgood := after_good hlimit hcrash
  have hinv := after_inv hlimit hcrash
  refine ⟨hinv.executing_le, hinv.inflight_eq, hinv.reports, fun hidle => ?_⟩
  have hempty : counted (after (middleware limit) as).hist = ∅ :=
    Finset.eq_empty_of_forall_notMem fun i => by
      obtain ⟨l, hl⟩ := hidle i
      have hsafe := hgood.safe i
      rw [hl] at hsafe
      exact hsafe _ _ (Others.refl i _) hgood.inv
  rw [hinv.inflight_eq, hempty, Finset.card_empty, Nat.cast_zero]

/-- A request arrives, and its handler will return. -/
def arrival : Choice := ⟨.request, .returned⟩

/-- Goroutine 1 is served.  Goroutine 2 is counted while the handler of the first one is executing,
and is still counted when the first one has left.  Then the request of goroutine 3 arrives. -/
def overlap : List (Action Choice Empty) :=
  [.resume 1, .step 1 arrival, .step 1 arrival, .step 1 arrival,
    .resume 2, .step 2 arrival, .step 2 arrival,
    .step 1 arrival, .step 1 arrival,
    .resume 3, .step 3 arrival]

theorem executing_le_limit_overlap :
    ((executing (after (middleware 1) overlap).hist).card : ℤ) ≤ 1 ∧
      (after (middleware 1) overlap).shared =
        (counted (after (middleware 1) overlap).hist).card ∧
      Throughout Reports (after (middleware 1) overlap).hist ∧
      ((∀ i, ∃ l, (after (middleware 1) overlap).thread i = .pure l) →
        (after (middleware 1) overlap).shared = 0) :=
  executing_le_limit (by decide) (by simp [overlap])

/-- `LoadShed` with a positive limit is the load shedder, and without one it rejects no request. -/
theorem loadShed_run (maxConcurrent : ℤ) {as : List (Action Choice Empty)}
    (hcrash : ∀ i, .crash i ∉ as) :
    if maxConcurrent ≤ 0 then
      Throughout (fun ev _ => ev.cmd ≠ .abort atCapacity) (after (loadShed maxConcurrent) as).hist
    else ((executing (after (loadShed maxConcurrent) as).hist).card : ℤ) ≤ maxConcurrent := by
  by_cases hoff : maxConcurrent ≤ 0
  · rw [if_pos hoff, loadShed, if_pos hoff]
    let P : Protocol (machine callNext) :=
      { inv := fun _ _ => True
        pre := fun _ e _ => e ≠ .abort atCapacity
        idle := fun _ _ _ => True
        allowed := fun _ _ _ _ _ => True
        step := fun _ _ _ _ => trivial
        env := fun _ => trivial }
    refine (Protocol.run (P := P) (fun _ _ => trivial) (fun i l s h _ => ?_) trivial
      (Along.of_mem _ (fun a _ p => OnStep.of_forall (fun _ _ _ _ _ => trivial) p a) _)).2
    refine Protocol.safe_free ⟨fun _ => nofun, fun call => ?_⟩
    cases call <;> simp [serve, callNext, inFlight, Prog.bind, Only, P]
  · rw [if_neg hoff, loadShed, if_neg hoff]
    exact (after_inv (by omega) hcrash).executing_le

/-! ### Rejections -/

/-- If `limit` requests are counted, `limit` handlers are executing. -/
def FullOfHandlers (limit : ℤ) (h : History Reply) : Prop :=
  limit ≤ (counted h).card → limit ≤ (executing h).card

/-- A request is rejected only if, at some moment between its increment and its rejection, `limit`
handlers were executing. -/
def RejectedAtCapacity (limit : ℤ) (ev : Logged Reply) (h : History Reply) : Prop :=
  ev.cmd = .abort atCapacity → ∃ h', h' <:+ h ∧
    (before isEntry ev.tid h).length < h'.length ∧ limit ≤ (executing h').card

/-- A request that was counted while `limit` handlers were executing is rejected at capacity. -/
theorem rejectedAtCapacity_of_full {h : History Reply}
    (hcond : Throughout (fun ev h => ev.cmd = .add 1 → FullOfHandlers limit h) h)
    {ev : Logged Reply}
    (hready : Ready limit ev.tid ev.cmd h) : RejectedAtCapacity limit ev h := by
  intro habort
  rw [habort] at hready
  obtain ⟨hrejected, hfull⟩ := hready
  obtain ⟨inc, hinc, htid, hincrements⟩ := exists_of_mem_within hrejected
  have hentry : isEntry inc.cmd = true := by
    obtain ⟨j, e, r⟩ := inc
    cases e <;> simp_all [increments, isEntry]
  obtain ⟨l, start, heq, -, hstart⟩ := exists_start hinc htid hentry
  have hcmd : start.cmd = .add 1 := by simpa [isEntry] using hstart
  refine ⟨start :: before isEntry ev.tid h, ⟨l, heq.symm⟩, by simp, ?_⟩
  -- The increment starts no handler and ends none.
  rw [executing_cons (by simp [hcmd]) (by simp [hcmd])]
  rw [heq] at hcond
  exact hcond.split hcmd hfull

theorem throughout_rejectedAtCapacity {h : History Reply}
    (hcond : Throughout (fun ev h => ev.cmd = .add 1 → FullOfHandlers limit h) h)
    (hready : Throughout (fun ev h => Ready limit ev.tid ev.cmd h) h) :
    Throughout (RejectedAtCapacity limit) h := by
  induction h with
  | nil => trivial
  | cons ev h ih => exact ⟨rejectedAtCapacity_of_full hcond.2 hready.1, ih hcond.2 hready.2⟩

/-- A request that is counted while the counter has reached the limit, but fewer handlers are
executing, can be rejected at once. -/
theorem not_rejectedAtCapacity (hlimit : 0 ≤ limit) {as : List (Action Choice Empty)}
    (hcrash : ∀ i, .crash i ∉ as) {i : ℕ}
    (hi : (after (middleware limit) as).thread i = serve (middleware limit) .request)
    (hcond : ¬FullOfHandlers limit (after (middleware limit) as).hist) (o o' : Choice) :
    ¬Throughout (RejectedAtCapacity limit)
      (after (middleware limit) (as ++ [.step i o, .step i o'])).hist := by
  have hinv := after_inv hlimit hcrash
  have hrun : after (middleware limit) (as ++ [.step i o, .step i o']) =
      (after (middleware limit) as).run _ [.step i o, .step i o'] := Pool.run_append _ _ _ _
  rw [hrun]
  generalize after (middleware limit) as = p at hinv hi hcond ⊢
  obtain ⟨hcounted, hfew⟩ := Classical.not_imp.1 hcond
  have hgt : p.shared + 1 > limit := by
    rw [hinv.inflight_eq]
    omega
  have hhist : (p.run (machine (middleware limit)) [.step i o, .step i o']).hist =
      ⟨i, .abort atCapacity, ()⟩ :: ⟨i, .add 1, p.shared + 1⟩ :: p.hist := by
    simp [Pool.run, Pool.advance, hi, serve, middleware, Prog.bind, Pool.exec, machine, exec, hgt]
  rw [hhist]
  rintro ⟨hrej, -⟩
  obtain ⟨h', hsuffix, hlong, hle⟩ := hrej rfl
  have hbefore : before isEntry i (⟨i, .add 1, p.shared + 1⟩ :: p.hist) = p.hist :=
    if_pos ⟨rfl, rfl⟩
  rw [hbefore] at hlong
  rcases List.suffix_cons_iff.1 hsuffix with rfl | hsuffix
  · rw [executing_cons (by simp) (by simp)] at hle
    exact hfew hle
  · exact absurd hsuffix.length_le (by omega)

/-- **A request is rejected only at capacity, if every request that is counted when the counter has
reached the limit is counted while `limit` handlers are executing.**  A request that is counted in
another state can be rejected below capacity. -/
theorem rejects_at_capacity {limit : ℤ} (hlimit : 1 ≤ limit) {as : List (Action Choice Empty)}
    (hcrash : ∀ i, .crash i ∉ as) :
    (Throughout (fun ev h => ev.cmd = .add 1 → FullOfHandlers limit h)
        (after (middleware limit) as).hist →
      Throughout (RejectedAtCapacity limit) (after (middleware limit) as).hist) ∧
    ∀ i, (after (middleware limit) as).thread i = serve (middleware limit) .request →
      ¬FullOfHandlers limit (after (middleware limit) as).hist → ∀ o o',
        ¬Throughout (RejectedAtCapacity limit)
          (after (middleware limit) (as ++ [.step i o, .step i o'])).hist := by
  refine ⟨fun hcond => ?_, fun i hi hfull => not_rejectedAtCapacity (by omega) hcrash hi hfull⟩
  exact throughout_rejectedAtCapacity hcond (after_good (by omega) hcrash).inv.2

/-- The request of goroutine 2 comes and goes while the handler of goroutine 1 is executing. -/
def nested : List (Action Choice Empty) :=
  [.resume 1, .step 1 arrival, .step 1 arrival, .step 1 arrival,
    .resume 2, .step 2 arrival, .step 2 arrival, .step 2 arrival, .step 2 arrival,
    .step 1 arrival, .step 1 arrival]

instance (limit : ℤ) (h : History Reply) : Decidable (FullOfHandlers limit h) :=
  inferInstanceAs (Decidable (_ → _))

theorem rejects_at_capacity_nested :
    ⟨2, .abort atCapacity, ()⟩ ∈ (after (middleware 1) nested).hist ∧
      Throughout (fun ev h => ev.cmd = .add 1 → FullOfHandlers 1 h)
        (after (middleware 1) nested).hist ∧
      Throughout (RejectedAtCapacity 1) (after (middleware 1) nested).hist := by
  have hcond : Throughout (fun ev h => ev.cmd = .add 1 → FullOfHandlers 1 h)
      (after (middleware 1) nested).hist := by decide
  have habort : ⟨2, .abort atCapacity, ()⟩ ∈ (after (middleware 1) nested).hist := by
    right; right; right; left
  exact ⟨habort, hcond, (rejects_at_capacity (by decide) (by simp [nested])).1 hcond⟩

/-- Goroutine 3 is rejected while no handler is executing, because goroutine 2, which is to be
rejected, is still counted. -/
theorem rejects_below_capacity :
    (∀ i, .crash i ∉ overlap ++ [.step 3 arrival, .step 3 arrival]) ∧
      executing (after (middleware 1) overlap).hist = ∅ ∧
      ¬Throughout (RejectedAtCapacity 1)
        (after (middleware 1) (overlap ++ [.step 3 arrival, .step 3 arrival])).hist :=
  ⟨by simp [overlap], by decide,
    not_rejectedAtCapacity (by decide) (by simp [overlap]) rfl (by decide) arrival arrival⟩

end WolfCore.Middleware.LoadShedder
