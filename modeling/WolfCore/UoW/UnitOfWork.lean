import WolfCore.Outbox.Insert

/-!
# The unit of work (`uow/unit_of_work.go`, `infra/db/tx.go`, `aggregate/base.go`)

`Execute` and `ExecuteMulti` run a function inside a transaction, then drain the pending events of
the aggregates into the outbox, inside the same transaction.  The state is the connection together
with the pending events of every aggregate: a rollback concerns the former only.

The function is arbitrary: it may write what it likes through the transaction, add events to the
aggregates, fail or panic.
-/

namespace WolfCore.UoW

open Go Outbox

/-- The database and the pending events (`Base.events`) of the aggregates `A`. -/
structure World (δ V A : Type) where
  conn : Conn δ
  pending : A → List (Event V)

/-- What the calls of an attempt meet: failures of the transaction, and a fault of each
`Store.Insert`. -/
structure Faults (δ V A : Type) where
  beginTx : Option Err
  insert : Event V → World δ V A → Option Fault
  commit : Option Err
  rollback : Option Err

/-- The function handed to `Execute`: it works on the working copy of the transaction and on the
pending events. -/
abbrev Fn (δ V A : Type) := Proc (Db δ × (A → List (Event V)))

section

variable {δ V A : Type}

/-- The function, run in the open transaction. -/
def Fn.run (fn : Fn δ V A) : Proc (World δ V A) := fun w =>
  match w.conn.tx with
  | none =>
      (.returned (some (.msg "sql: transaction has already been committed or rolled back")), w)
  | some db =>
      let r := fn (db, w.pending)
      (r.1, ⟨{ w.conn with tx := some r.2.1 }, r.2.2⟩)

/-- `pgTxManager.WithTx`.  The deferred function rolls back and panics again. -/
def withTx (faults : Faults δ V A) (fn : Proc (World δ V A)) : Proc (World δ V A) := fun w =>
  match faults.beginTx with
  | some err => (.returned (some (.wrap "db: begin tx: %w" none err)), w)
  | none =>
      match fn { w with conn := w.conn.begin } with
      | (.panicked p, w') => (.panicked p, { w' with conn := w'.conn.rollback })
      | (.returned (some err), w') =>
          match faults.rollback with
          | some _ =>
              (.returned (some (.wrap "db: fn failed (%w); rollback also failed: %v" none err)),
              { w' with conn := w'.conn.rollback })
          | none => (.returned (some (.wrap "db: tx fn: %w" none err)),
              { w' with conn := w'.conn.rollback })
      | (.returned none, w') =>
          match faults.commit with
          | some err => (.returned (some (.wrap "db: commit tx: %w" none err)),
              { w' with conn := w'.conn.rollback })
          | none => (.returned none, { w' with conn := w'.conn.commit })

/-- `pgTxRunner.RunInTx`. -/
def runInTx (faults : Faults δ V A) (ctx : Ctx) (fn : Ctx → Proc (World δ V A)) :
    Proc (World δ V A) :=
  withTx faults (fn ctx.inject)

/-- `Base.AddEvent`. -/
def addEvent [DecidableEq A] (agg : A) (evt : Event V) (pending : A → List (Event V)) :
    A → List (Event V) :=
  Function.update pending agg (pending agg ++ [evt])

/-- `Base.ClearEvents`: the pending events, and the aggregates without them. -/
def clearEvents [DecidableEq A] (agg : A) (w : World δ V A) : List (Event V) × World δ V A :=
  (w.pending agg, { w with pending := Function.update w.pending agg [] })

/-- A `UnitOfWork`: the outbox it writes to, and its source. -/
structure UnitOfWork (V : Type) where
  schema : Schema
  marshal : Option V → Except Err String
  source : String

variable (u : UnitOfWork V) (faults : Faults δ V A)

/-- `outboxStore.Insert`, on the connection. -/
def insertEvent (txCtx : Ctx) (evt : Event V) : Proc (World δ V A) := fun w =>
  let r := Outbox.insert u.schema u.marshal txCtx (faults.insert evt w) evt
    { Metadata.zero with source := u.source } w.conn
  (r.1, { w with conn := r.2 })

/-- The loop of `UnitOfWork.publishEvents`. -/
def insertEvents (txCtx : Ctx) (events : List (Event V)) : Proc (World δ V A) :=
  Proc.forEach (fun evt => (insertEvent u faults txCtx evt).mapErr
    (.wrap "uow: publish event %q: %w" (some evt.eventType))) events

variable [DecidableEq A]

/-- `UnitOfWork.publishEvents`. -/
def publishEvents (txCtx : Ctx) (agg : A) : Proc (World δ V A) := fun w =>
  let (events, w) := clearEvents agg w
  insertEvents u faults txCtx events w

/-- `UnitOfWork.Execute`. -/
def execute (ctx : Ctx) (agg : A) (fn : Fn δ V A) : Proc (World δ V A) :=
  runInTx faults ctx fun txCtx => fn.run.seq (publishEvents u faults txCtx agg)

/-- `UnitOfWork.ExecuteMulti`. -/
def executeMulti (ctx : Ctx) (aggs : List A) (fn : Fn δ V A) : Proc (World δ V A) :=
  runInTx faults ctx fun txCtx => fn.run.seq (Proc.forEach (publishEvents u faults txCtx) aggs)

end

end WolfCore.UoW
