import WolfCore.DI.Container

/-!
# The transaction middlewares (`infra/middleware/http/transaction.go`, `…/grpc/transaction.go`)

Each request creates a scope, begins a transaction, registers the transaction under `db.conn`
through the scoped container, runs its handler, and commits or rolls back.  A request is a
program over the atomic steps of the shared container and the database; the requests of a server
are the threads of one pool over one root container.

The handler is an arbitrary program of `Get` calls on the scoped container it finds in its
context.  A `Get` that panics is answered with the panic value, so that handlers that recover
are covered.
-/

namespace WolfCore.Middleware

open Go DI Interleave

/-- The key under which the active transaction is registered. -/
def connKey : String := "db.conn"

/-- The life of a transaction. -/
inductive TxStatus
  | active
  | committed
  | rolledBack

/-- What the requests of one server share. -/
structure World where
  root : Container Factory Any
  scopes : ℕ → String → Option Any
  nextScope : ℕ
  nextTx : ℕ
  tx : ℕ → TxStatus

inductive Cmd
  | scopedCtx
  | beginTx
  | addScoped (key : String) (factory : Factory)
  | lookupEntry (key : String)
  | callFactory (key : String) (e : Entry Factory)
  | initSingleton (key : String) (e : Entry Factory)
  | resolve (scope : ℕ) (key : String) (e : Entry Factory)
  | commit (tx : ℕ)
  | rollback (tx : ℕ)

abbrev Reply : Cmd → Type
  | .scopedCtx => ℕ
  | .beginTx => Except Err ℕ
  | .addScoped _ _ => Unit
  | .lookupEntry _ => Option (Entry Factory)
  | .callFactory _ _ => Any
  | .initSingleton _ _ => Any
  | .resolve _ _ _ => Any
  | .commit _ => Option Err
  | .rollback _ => Option Err

/-- The critical section of `scopedContainer.Get`: under the scope lock, the cached value, or
the value of the factory, which is then cached. -/
def World.resolve (w : World) (scope : ℕ) (key : String) (e : Entry Factory) : Any × World :=
  match w.scopes scope key with
  | some v => (v, w)
  | none =>
      let v := e.factory (.scope scope)
      (v, { w with scopes :=
        Function.update w.scopes scope (Function.update (w.scopes scope) key (some v)) })

/-- The semantics of the steps.  The oracle is the answer of the database to `BeginTx`, `Commit`
and `Rollback`: `some err` is a failure. -/
def exec : (e : Cmd) → Option Err → World → Reply e × World
  | .scopedCtx, _, w =>
      (w.nextScope, { w with
        scopes := Function.update w.scopes w.nextScope fun _ => none
        nextScope := w.nextScope + 1 })
  | .beginTx, none, w =>
      (.ok w.nextTx, { w with
        tx := Function.update w.tx w.nextTx .active
        nextTx := w.nextTx + 1 })
  | .beginTx, some err, w => (.error err, w)
  | .addScoped key f, _, w => ((), { w with root := w.root.addScoped key f })
  | .lookupEntry key, _, w => (w.root.lookupEntry key, w)
  | .callFactory _ e, _, w => (e.factory .root, w)
  | .initSingleton key e, _, w =>
      let r := w.root.initSingleton key (e.factory .root)
      (r.1, { w with root := r.2 })
  | .resolve scope key e, _, w => w.resolve scope key e
  | .commit tx, none, w => (none, { w with tx := Function.update w.tx tx .committed })
  | .commit tx, some err, w => (some err, { w with tx := Function.update w.tx tx .rolledBack })
  | .rollback tx, o, w => (o, { w with tx := Function.update w.tx tx .rolledBack })

/-! ### `Get` -/

/-- `container.Get` of the root container. -/
def rootGet (key : String) : Prog Reply (Except String Any) := do
  match ← Prog.perform (Cmd.lookupEntry key) with
  | none => return .error (notRegistered key)
  | some e =>
    if e.isScoped then
      -- no scope active: the factory is called directly and its value is not cached
      return .ok (← Prog.perform (Cmd.callFactory key e))
    else
      return .ok (← Prog.perform (Cmd.initSingleton key e))

/-- `scopedContainer.Get`. -/
def scopedGet (scope : ℕ) (key : String) : Prog Reply (Except String Any) := do
  match ← Prog.perform (Cmd.lookupEntry key) with
  | none => return .error (notRegistered key)
  | some e =>
    if !e.isScoped then
      rootGet key
    else
      return .ok (← Prog.perform (Cmd.resolve scope key e))

/-! ### Requests -/

/-- A handler: a program of `Get` calls that returns or panics. -/
abbrev Handler (α : Type) := Prog (fun _ : String => Except String Any) (Outcome α)

/-- A handler run with the scoped container of its request. -/
def runHandler {α : Type} (scope : ℕ) : Handler α → Prog Reply (Outcome α)
  | .pure r => .pure r
  | .call key k => (scopedGet scope key).bind fun v => runHandler scope (k v)

inductive Response
  | http (status : ℕ)
  | abortInternalError (message : String)
  | grpc (reply : Except Err Unit)
  | grpcInternal (message : String)
  | panicked (p : String)

/-- What the two middlewares share: the scope, the transaction and its registration, the handler,
and the rollback of a panicking handler before the panic goes on. -/
def inTransaction {α : Type} (handler : Handler α) (beginFailed : Response)
    (finish : ℕ → α → Prog Reply Response) : Prog Reply Response := do
  let scope ← Prog.perform Cmd.scopedCtx
  match ← Prog.perform Cmd.beginTx with
  | .error _ => return beginFailed
  | .ok tx =>
    Prog.perform (Cmd.addScoped connKey (connFactory tx))
    match ← runHandler scope handler with
    | .panicked p =>
      let _ ← Prog.perform (Cmd.rollback tx)
      return .panicked p
    | .returned a => finish tx a

/-- `TransactionMiddleware`; the handler chain leaves a response status. -/
def transactionMiddleware (handler : Handler ℕ) : Prog Reply Response :=
  inTransaction handler (.abortInternalError "failed to begin database transaction")
    fun tx status => do
      if status ≥ 500 then
        let _ ← Prog.perform (Cmd.rollback tx)
        return .http status
      else
        match ← Prog.perform (Cmd.commit tx) with
        | some _ => return .abortInternalError "failed to commit database transaction"
        | none => return .http status

/-- `TransactionInterceptor`; the handler returns a response or an error. -/
def transactionInterceptor (handler : Handler (Except Err Unit)) : Prog Reply Response :=
  inTransaction handler (.grpcInternal "failed to begin database transaction")
    fun tx result => do
      match result with
      | .error err =>
        let _ ← Prog.perform (Cmd.rollback tx)
        return .grpc (.error err)
      | .ok resp =>
        match ← Prog.perform (Cmd.commit tx) with
        | some _ => return .grpcInternal "failed to commit database transaction"
        | none => return .grpc (.ok resp)

inductive Request
  | http (handler : Handler ℕ)
  | grpc (handler : Handler (Except Err Unit))

def Request.serve : Request → Prog Reply Response
  | .http handler => transactionMiddleware handler
  | .grpc handler => transactionInterceptor handler

/-- The machine of the requests: a request runs once, and nothing else touches the container. -/
def machine : Machine Reply World (Option Err) Response Empty where
  exec := exec
  body := fun _ r => .pure r
  boot := fun _ => .panicked "crashed"
  env := fun a _ => a.elim

/-- Thread `i` is about to serve request `i` over the root container of `w`. -/
def serveAll (requests : ℕ → Request) (w : World) : Pool Reply World Response where
  shared := w
  hist := []
  thread := fun i => (requests i).serve

end WolfCore.Middleware
