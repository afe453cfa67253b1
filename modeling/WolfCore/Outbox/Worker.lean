import WolfCore.Lib.Interleave
import WolfCore.Outbox.Store

/-!
# The outbox relay (`infra/events/outbox/worker.go`, `infra/events/deadletter/store.go`)

The worker's loop as a program over the atomic steps it shares with the other workers: the
statements of the store, the insert into the dead letter queue, the broker, and the circuit
breaker.  The workers are the threads of one pool over one database; a crash discards what a
worker has in memory, and other services insert rows and time passes between any two steps.

Every call of the database may fail, before or after it took effect (a lost acknowledgement); the
broker and the breaker answer as they like.  The circuit breaker (`gobreaker`) either rejects a
call with an error, without calling the function, or calls it and returns its result.
-/

namespace WolfCore.Outbox

open Go Interleave

/-- `maxBackoffShift`. -/
def maxBackoffShift : ℕ := 4

/-- `cleanupEvery`. -/
def cleanupEvery : ℕ := 100

/-- `deadletter.DLQEntry`, with the headers as the map that is marshalled. -/
structure DLQEntry where
  id : String
  subject : String
  data : String
  headers : StrMap
  error : Err
  attempts : ℤ
  originalAt : ℤ
  deadAt : ℤ

/-- The configuration of a `Worker`: whether a dead letter queue and a circuit breaker are
configured, and its numbers. -/
structure Worker where
  dlqStore : Bool
  cb : Bool
  pollInterval : ℤ
  batchSize : ℤ
  maxRetries : ℤ
  retention : ℤ

/-- What the `select` of `Worker.Start` woke up for. -/
inductive Wake
  | tick
  | notify

/-- The atomic steps of a worker.  `breaker` and `dlqInsert` also record the entry at hand. -/
inductive Cmd
  | wake
  | claimBatch (batchSize : ℤ)
  | breaker (entry : OutboxEntry)
  | publish (entry : OutboxEntry)
  | dlqInsert (entry : OutboxEntry) (dlqEntry : DLQEntry)
  | markPublished (ids : List String) (leaseToken : String)
  | releaseClaims (entries : List ReleaseEntry)
  | cleanup (retention : ℤ)

/-- The answer to each step; an `Option Err` is a Go error. -/
abbrev Reply : Cmd → Type
  | .wake => Wake
  | .claimBatch _ => Except Err (List OutboxEntry)
  | .breaker _ => Option Err
  | .publish _ => Option Err
  | .dlqInsert _ _ => Option Err
  | .markPublished _ _ => Option Err
  | .releaseClaims _ => Option Err
  | .cleanup _ => Except Err ℕ

/-! ### The program -/

/-- `Worker.publishEntry`. -/
def publishEntry (w : Worker) (entry : OutboxEntry) : Prog Reply (Option Err) := do
  if w.cb then
    match ← Prog.perform (Cmd.breaker entry) with
    | some err => return some err
    | none => Prog.perform (Cmd.publish entry)
  else
    Prog.perform (Cmd.publish entry)

/-- The entry `Worker.moveToDLQ` builds. -/
def dlqEntryOf (entry : OutboxEntry) : DLQEntry where
  id := entry.id
  subject := entry.eventType
  data := entry.payload
  headers := (((StrMap.empty.set "aggregate_type" entry.aggregateType).set
    "aggregate_id" entry.aggregateID).set "event_type" entry.eventType).assign
      entry.metadata.toMap
  error := entry.lastError
  attempts := entry.retryCount
  originalAt := entry.createdAt
  deadAt := 0

/-- `Worker.moveToDLQ`. -/
def moveToDLQ (entry : OutboxEntry) : Prog Reply (Option Err) := do
  match ← Prog.perform (Cmd.dlqInsert entry (dlqEntryOf entry)) with
  | some err => return some (.wrap "outbox: DLQ insert for %q: %w" (some entry.id) err)
  | none => return none

/-- `Worker.handleExhaustedEntry`. -/
def handleExhaustedEntry (w : Worker) (entry : OutboxEntry) : Prog Reply (Option Err) := do
  if w.dlqStore then
    match ← moveToDLQ entry with
    | some err => return some (.wrap "outbox: DLQ insert failed for %q: %w" (some entry.id) err)
    | none => return none
  else
    return none

/-- One round of the loop of `Worker.poll`. -/
def handleEntry (w : Worker) (entry : OutboxEntry) : Prog Reply (Option Err) :=
  if entry.retryCount ≥ w.maxRetries then handleExhaustedEntry w entry else publishEntry w entry

/-- The loop of `Worker.poll`, with `publishedIDs` and `failed`. -/
def pollEntries (w : Worker) : List OutboxEntry → List String → List ReleaseEntry →
    Prog Reply (List String × List ReleaseEntry)
  | [], publishedIDs, failed => return (publishedIDs, failed)
  | entry :: entries, publishedIDs, failed => do
    match ← handleEntry w entry with
    | some err => pollEntries w entries publishedIDs (failed ++ [⟨entry.id, err⟩])
    | none => pollEntries w entries (publishedIDs ++ [entry.id]) failed

/-- The end of `Worker.poll`: mark what was published, release what failed; errors of the two
statements are only logged. -/
def settle (leaseToken : String) (publishedIDs : List String) (failed : List ReleaseEntry) :
    Prog Reply (Option Err) := do
  if publishedIDs ≠ [] then
    let _ ← Prog.perform (Cmd.markPublished publishedIDs leaseToken)
  if failed ≠ [] then
    let _ ← Prog.perform (Cmd.releaseClaims failed)
  return none

/-- `Worker.poll`. -/
def poll (w : Worker) : Prog Reply (Option Err) := do
  match ← Prog.perform (Cmd.claimBatch w.batchSize) with
  | .error err => return some (.wrap "outbox: claim batch: %w" none err)
  | .ok [] => return none
  | .ok (entry :: entries) =>
    let (publishedIDs, failed) ← pollEntries w (entry :: entries) [] []
    settle entry.leaseToken publishedIDs failed

/-- What a worker keeps between two cycles; `interval` is the period of its ticker. -/
structure Local where
  cycle : ℕ
  consecutiveErr : ℕ
  interval : ℤ

/-- `Worker.adjustBackoff`. -/
def adjustBackoff (w : Worker) (l : Local) : Local :=
  { l with interval := w.pollInterval * 2 ^ min l.consecutiveErr maxBackoffShift }

/-- What `Worker.doPoll` does with the result of `poll`. -/
def afterPoll (w : Worker) (l : Local) : Option Err → Local
  | some _ => adjustBackoff w { l with consecutiveErr := l.consecutiveErr + 1 }
  | none =>
      if l.consecutiveErr > 0 then { l with consecutiveErr := 0, interval := w.pollInterval }
      else l

/-- `Worker.doPoll`. -/
def doPoll (w : Worker) (l : Local) : Prog Reply Local := do
  let err ← poll w
  let l := afterPoll w l err
  let l := { l with cycle := l.cycle + 1 }
  if l.cycle % cleanupEvery = 0 then
    let _ ← Prog.perform (Cmd.cleanup w.retention)
  return l

/-- One round of the loop of `Worker.Start`. -/
def startRound (w : Worker) (l : Local) : Prog Reply Local := do
  match ← Prog.perform Cmd.wake with
  | .tick => doPoll w l
  | .notify =>
    let l ← doPoll w l
    return { l with interval := w.pollInterval }

/-! ### The machine -/

/-- The database the workers share.  `claims` are the lease tokens generated so far, newest first,
each with the rows that were claimed under it; no statement reads it. -/
structure World where
  table : OutboxTable
  dlq : Sql.Table DLQEntry.id
  now : ℤ
  nextSeq : ℕ
  claims : List (String × List ℕ)

/-- The lease tokens generated so far. -/
def World.issued (w : World) : List String := w.claims.map (·.1)

/-- How a call of the database ends: it succeeds, or it reports an error, with or without its
effect. -/
inductive DbResult
  | ok
  | failed (applied : Bool) (err : Err)
  deriving DecidableEq

/-- Every choice of the environment a step may depend on. -/
structure Oracle where
  wake : Wake
  db : DbResult
  /-- the token drawn by `generateLeaseToken` -/
  token : String
  /-- the rows locked by concurrent transactions -/
  locked : String → Bool
  /-- the order of rows with equal `created_at` -/
  tie : String → ℕ
  /-- whether the circuit breaker rejects the call -/
  breaker : Option Err
  /-- what `bus.Publish` returns -/
  broker : Option Err
  /-- the worker's own clock -/
  appNow : ℤ
  /-- which stale rows the SELECT of `Cleanup` finds first -/
  pick : String → Bool

/-- Whether a database call has its effect. -/
def DbResult.applied : DbResult → Bool
  | .ok => true
  | .failed applied _ => applied

/-- The state after a database call with effect `w'`. -/
def DbResult.state {S : Type} (r : DbResult) (w w' : S) : S :=
  match r with
  | .ok => w'
  | .failed applied _ => if applied then w' else w

/-- The error a database call returns. -/
def DbResult.error (r : DbResult) (context : Err → Err) : Option Err :=
  match r with
  | .ok => none
  | .failed _ err => some (context err)

/-- The context `ReleaseClaim` or `ReleaseClaims` adds to an error. -/
def releaseContext : List ReleaseEntry → Err → Err
  | [e] => .wrap "outbox: release claim %q: %w" (some e.id)
  | _ => .wrap "outbox: batch release claims: %w" none

def exec (schema : Schema) : (e : Cmd) → Oracle → World → Reply e × World
  | .wake, o, w => (o.wake, w)
  | .claimBatch batchSize, o, w =>
      let r := claimBatch schema w.now o.locked o.tie o.token batchSize w.table
      let claimed := match r.1 with
        | .ok entries => entries.map (·.seq)
        | .error _ => []
      (match o.db with
        | .ok => r.1
        | .failed false err => .error (.wrap "outbox: begin tx: %w" none err)
        | .failed true err => .error (.wrap "outbox: commit tx: %w" none err),
        o.db.state { w with claims := (o.token, []) :: w.claims }
          { w with table := r.2, claims := (o.token, claimed) :: w.claims })
  | .breaker _, o, w => (o.breaker, w)
  | .publish _, o, w => (o.broker, w)
  | .dlqInsert _ d, o, w =>
      (o.db.error (.wrap "deadletter: insert %q: %w" (some d.id)),
        o.db.state w { w with dlq := w.dlq.insertIfAbsent { d with deadAt := w.now } })
  | .markPublished ids leaseToken, o, w =>
      if ids = [] then (none, w) else
      (o.db.error (.wrap "outbox: mark published: %w" none),
        o.db.state w { w with table := markPublished w.now ids leaseToken w.table })
  | .releaseClaims entries, o, w =>
      if entries = [] then (none, w) else
      let r := releaseClaims schema entries w.table
      (match r.1 with
        | some err => some err
        | none => o.db.error (releaseContext entries),
        o.db.state w { w with table := r.2 })
  | .cleanup retention, o, w =>
      let table := cleanup (o.appNow - retention) o.pick w.table
      (match o.db with
        | .ok => .ok (w.table.rows.length - table.rows.length)
        | .failed _ err => .error (.wrap "outbox: cleanup: %w" none err),
        o.db.state w { w with table := table })

/-- What happens around the workers: other services insert rows, and time passes. -/
inductive EnvAct
  | insert (r : NewRow)
  | elapse (d : ℕ)

def envStep (schema : Schema) : EnvAct → World → World
  | .insert r, w =>
      match insertRow schema w.table r w.nextSeq with
      | none => w
      | some t => { w with table := t, nextSeq := w.nextSeq + 1 }
  | .elapse d, w => { w with now := w.now + d }

def machine (schema : Schema) (workers : ℕ → Worker) :
    Machine Reply World Oracle Local EnvAct where
  exec := exec schema
  body := fun i l => startRound (workers i) l
  boot := fun i => ⟨0, 0, (workers i).pollInterval⟩
  env := envStep schema

/-- The workers before their first cycle, over the database `w`. -/
def start (workers : ℕ → Worker) (w : World) : Pool Reply World Local where
  shared := w
  hist := []
  thread := fun i => .pure ⟨0, 0, (workers i).pollInterval⟩

abbrev Schedule := List (Action Oracle EnvAct)

end WolfCore.Outbox
