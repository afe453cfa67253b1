import WolfCore.UoW.UnitOfWork

/-!
# The unit of work is atomic

One call of `Execute` or `ExecuteMulti`, with an arbitrary function, any aggregates (the same one
may appear twice) and any failures or panics, either returns nil and commits the writes of the
function together with one outbox row for each event pending when the function finished
(`Committed`), or changes nothing in the database (`call_atomic`).

The events are those of the aggregates in the order of their first occurrence (`drained`): when an
aggregate appears again, it has been drained already.
-/

namespace WolfCore.UoW

open Go Outbox

section

variable {δ V A : Type}

/-- `r` is an outbox row of the event: the unit of work adds its source, and nothing else, to the
metadata. -/
def RowOf (u : UnitOfWork V) (ctx : Ctx) (evt : Event V) (r : Row) : Prop :=
  InsertedRow u.schema u.marshal ctx.inject evt { Metadata.zero with source := u.source } r

/-- The pending events, without those of the aggregates in `seen`. -/
def cleared [DecidableEq A] (seen : List A) (pending : A → List (Event V)) : A → List (Event V) :=
  fun agg => if agg ∈ seen then [] else pending agg

/-- The events of the aggregates, in order, without those of the aggregates in `seen`. -/
def drainedFrom [DecidableEq A] (pending : A → List (Event V)) : List A → List A → List (Event V)
  | _, [] => []
  | seen, agg :: aggs => cleared seen pending agg ++ drainedFrom pending (agg :: seen) aggs

/-- The pending events of the aggregates, each aggregate at its first occurrence. -/
def drained [DecidableEq A] (aggs : List A) (pending : A → List (Event V)) : List (Event V) :=
  drainedFrom pending [] aggs

/-- The database is that of the function, with one row for each event drained, in order. -/
def Committed [DecidableEq A] (u : UnitOfWork V) (ctx : Ctx) (aggs : List A) (db : Db δ)
    (pending : A → List (Event V)) (db' : Db δ) : Prop :=
  ∃ rows, List.Forall₂ (RowOf u ctx) (drained aggs pending) rows ∧ Extends db rows db'

/-! ### The loops -/

/-- The world with the working copy `db`. -/
def World.setTx (w : World δ V A) (db : Db δ) : World δ V A :=
  { w with conn := { w.conn with tx := some db } }

@[simp] theorem setTx_tx (w : World δ V A) (db : Db δ) : (w.setTx db).conn.tx = some db := rfl

@[simp] theorem setTx_pending (w : World δ V A) (db : Db δ) :
    (w.setTx db).pending = w.pending := rfl

theorem setTx_self {w : World δ V A} {db : Db δ} (h : w.conn.tx = some db) : w.setTx db = w := by
  unfold World.setTx
  rw [← h]

variable (u : UnitOfWork V) (faults : Faults δ V A) (ctx : Ctx)

theorem insertEvent_spec (evt : Event V) {w : World δ V A} {db : Db δ}
    (hw : w.conn.tx = some db) :
    ((insertEvent u faults ctx.inject evt w).1 = .returned none ∧ ∃ row db', RowOf u ctx evt row ∧
      Extends db [row] db' ∧ (insertEvent u faults ctx.inject evt w).2 = w.setTx db') ∨
    ((insertEvent u faults ctx.inject evt w).1 ≠ .returned none ∧
      (insertEvent u faults ctx.inject evt w).2 = w) := by
  rcases insert_in_tx hw (Prod.mk.eta).symm with ⟨hok, row, db', hrow, hext, hconn⟩ | ⟨hne, hconn⟩
  · exact Or.inl
      ⟨hok, row, db', hrow, hext, congrArg (fun c => (⟨c, w.pending⟩ : World δ V A)) hconn⟩
  · exact Or.inr ⟨hne, congrArg (fun c => (⟨c, w.pending⟩ : World δ V A)) hconn⟩

/-- The loop of `publishEvents` changes only the working copy; every event gets its row, unless the
loop stops early. -/
theorem insertEvents_spec (events : List (Event V)) {w : World δ V A} {db : Db δ}
    (hw : w.conn.tx = some db) : ∃ rows db', Extends db rows db' ∧
      (insertEvents u faults ctx.inject events w).2 = w.setTx db' ∧
      ((insertEvents u faults ctx.inject events w).1 = .returned none →
        List.Forall₂ (RowOf u ctx) events rows) := by
  unfold insertEvents
  induction events generalizing w db with
  | nil => exact ⟨[], db, .refl db, (setTx_self hw).symm, fun _ => .nil⟩
  | cons evt events ih =>
    simp only [Proc.forEach]
    rcases insertEvent_spec u faults ctx evt hw with
      ⟨hok, row, db', hrow, hext, hstate⟩ | ⟨hne, hstate⟩
    · rw [Proc.seq_of_ok (Proc.mapErr_eq_ok.2 hok), Proc.mapErr_state, hstate]
      obtain ⟨rows, db'', hext', hend, hall⟩ := ih (setTx_tx w db')
      exact ⟨row :: rows, db'', hext.trans hext', hend, fun h => .cons hrow (hall h)⟩
    · have hfail : (((insertEvent u faults ctx.inject evt).mapErr
          (.wrap "uow: publish event %q: %w" (some evt.eventType))) w).1 ≠ .returned none :=
        fun h => hne (Proc.mapErr_eq_ok.1 h)
      rw [Proc.seq_of_ne_ok hfail, Proc.mapErr_state, hstate]
      exact ⟨[], db, .refl db, (setTx_self hw).symm, fun h => absurd h hfail⟩

variable [DecidableEq A]

theorem cleared_nil (pending : A → List (Event V)) : cleared [] pending = pending := by
  funext agg
  simp [cleared]

theorem update_cleared (seen : List A) (pending : A → List (Event V)) (agg : A) :
    Function.update (cleared seen pending) agg [] = cleared (agg :: seen) pending := by
  funext a
  by_cases ha : a = agg
  · subst ha
    simp [cleared]
  · simp [cleared, ha]

/-- `publishEvents` drains its aggregate whatever happens. -/
theorem publishEvents_spec (agg : A) {w : World δ V A} {db : Db δ} (hw : w.conn.tx = some db) :
    ∃ rows db', Extends db rows db' ∧ (publishEvents u faults ctx.inject agg w).2 =
        { w.setTx db' with pending := Function.update w.pending agg [] } ∧
      ((publishEvents u faults ctx.inject agg w).1 = .returned none →
        List.Forall₂ (RowOf u ctx) (w.pending agg) rows) := by
  have hw' : (clearEvents agg w).2.conn.tx = some db := hw
  obtain ⟨rows, db', hext, hstate, hall⟩ :=
    insertEvents_spec u faults ctx (w.pending agg) hw'
  exact ⟨rows, db', hext, hstate, hall⟩

/-- The aggregates that the loop of `ExecuteMulti` has drained when it ends: it stops after the
first one whose events cannot be inserted. -/
def drainedBy : List A → World δ V A → List A
  | [], _ => []
  | agg :: aggs, w =>
      match publishEvents u faults ctx.inject agg w with
      | (.returned none, w') => agg :: drainedBy aggs w'
      | _ => [agg]

theorem drainedBy_of_ok {agg : A} {w : World δ V A}
    (h : (publishEvents u faults ctx.inject agg w).1 = .returned none) (aggs : List A) :
    drainedBy u faults ctx (agg :: aggs) w =
      agg :: drainedBy u faults ctx aggs (publishEvents u faults ctx.inject agg w).2 := by
  rcases hp : publishEvents u faults ctx.inject agg w with ⟨o, w'⟩
  rw [hp] at h
  cases h
  simp only [drainedBy, hp]

theorem drainedBy_of_ne_ok {agg : A} {w : World δ V A}
    (h : (publishEvents u faults ctx.inject agg w).1 ≠ .returned none) (aggs : List A) :
    drainedBy u faults ctx (agg :: aggs) w = [agg] := by
  rcases hp : publishEvents u faults ctx.inject agg w with ⟨(_ | err) | p, w'⟩
  · rw [hp] at h
    exact absurd rfl h
  · simp only [drainedBy, hp]
  · simp only [drainedBy, hp]

theorem cleared_cons_append (agg : A) (gone seen : List A) (pending : A → List (Event V)) :
    cleared (gone ++ agg :: seen) pending = cleared (agg :: gone ++ seen) pending := by
  funext a
  simp only [cleared, List.mem_append, List.mem_cons, List.cons_append, or_left_comm]

/-- The loop of `ExecuteMulti`.  `pending` are the events when the loop started; the aggregates in
`seen` have been drained since. -/
theorem publishAll_spec (pending : A → List (Event V)) (aggs seen : List A) {w : World δ V A}
    {db : Db δ} (hw : w.conn.tx = some db) (hp : w.pending = cleared seen pending) :
    ∃ rows db', Extends db rows db' ∧
      (Proc.forEach (publishEvents u faults ctx.inject) aggs w).2 =
        { w.setTx db' with pending := cleared (drainedBy u faults ctx aggs w ++ seen) pending } ∧
      ((Proc.forEach (publishEvents u faults ctx.inject) aggs w).1 = .returned none →
        List.Forall₂ (RowOf u ctx) (drainedFrom pending seen aggs) rows) := by
  induction aggs generalizing seen w db with
  | nil =>
    refine ⟨[], db, .refl db, ?_, fun _ => .nil⟩
    rw [setTx_self hw, drainedBy, List.nil_append, ← hp]
    rfl
  | cons agg aggs ih =>
    simp only [Proc.forEach]
    obtain ⟨rows, db', hext, hstate, hall⟩ := publishEvents_spec u faults ctx agg hw
    by_cases hok : (publishEvents u faults ctx.inject agg w).1 = .returned none
    · rw [Proc.seq_of_ok hok, drainedBy_of_ok u faults ctx hok, hstate]
      have hp' : Function.update w.pending agg [] = cleared (agg :: seen) pending := by
        rw [hp, update_cleared]
      obtain ⟨rows', db'', hext', hend, hdone⟩ := ih (agg :: seen)
        (w := { w.setTx db' with pending := Function.update w.pending agg [] }) rfl hp'
      refine ⟨rows ++ rows', db'', hext.trans hext', ?_, fun h => ?_⟩
      · rw [hend, cleared_cons_append]
        rfl
      · have hagg := hall hok
        rw [hp] at hagg
        exact List.rel_append hagg (hdone h)
    · rw [Proc.seq_of_ne_ok hok, drainedBy_of_ne_ok u faults ctx hok, hstate]
      refine ⟨rows, db', hext, ?_, fun h => absurd h hok⟩
      rw [hp, update_cleared]
      rfl

/-! ### One call -/

omit [DecidableEq A] in
/-- How `WithTx` ends: it commits what the function left, or rolls it back. -/
theorem withTx_cases (fn : Proc (World δ V A)) (w : World δ V A) :
    (faults.beginTx ≠ none ∧ (withTx faults fn w).1 ≠ .returned none ∧ (withTx faults fn w).2 = w) ∨
    (faults.beginTx = none ∧ (fn (w.setTx w.conn.pool)).1 = .returned none ∧
      withTx faults fn w = (.returned none, { (fn (w.setTx w.conn.pool)).2 with
        conn := (fn (w.setTx w.conn.pool)).2.conn.commit })) ∨
    (faults.beginTx = none ∧ (withTx faults fn w).1 ≠ .returned none ∧
      (withTx faults fn w).2 = { (fn (w.setTx w.conn.pool)).2 with
        conn := (fn (w.setTx w.conn.pool)).2.conn.rollback }) := by
  have hbegin : ({ w with conn := w.conn.begin } : World δ V A) = w.setTx w.conn.pool := rfl
  unfold withTx
  match faults.beginTx with
  | some err => exact Or.inl ⟨nofun, nofun, rfl⟩
  | none =>
    right
    simp only [hbegin]
    match fn (w.setTx w.conn.pool), faults.rollback, faults.commit with
    | (.panicked p, w'), _, _ => exact Or.inr ⟨trivial, nofun, rfl⟩
    | (.returned (some err), w'), some _, _ => exact Or.inr ⟨trivial, nofun, rfl⟩
    | (.returned (some err), w'), none, _ => exact Or.inr ⟨trivial, nofun, rfl⟩
    | (.returned none, w'), _, none => exact Or.inl ⟨trivial, rfl, rfl⟩
    | (.returned none, w'), _, some err => exact Or.inr ⟨trivial, nofun, rfl⟩

inductive Call (A : Type)
  | execute (agg : A)
  | executeMulti (aggs : List A)

def Call.aggs : Call A → List A
  | .execute agg => [agg]
  | .executeMulti aggs => aggs

def Call.run (fn : Fn δ V A) : Call A → Proc (World δ V A)
  | .execute agg => UoW.execute u faults ctx agg fn
  | .executeMulti aggs => UoW.executeMulti u faults ctx aggs fn

/-- `Execute` is `ExecuteMulti` for one aggregate. -/
theorem Call.run_eq (call : Call A) (fn : Fn δ V A) :
    call.run u faults ctx fn = UoW.executeMulti u faults ctx call.aggs fn := by
  cases call with
  | executeMulti aggs => rfl
  | execute agg =>
    show UoW.execute u faults ctx agg fn = _
    unfold UoW.execute UoW.executeMulti
    simp only [Call.aggs, Proc.forEach, Proc.seq_ok]

/-- What a call does, in terms of what the function did: `db` and `pending` are what it left. -/
theorem Call.run_spec (call : Call A) (fn : Fn δ V A) (w : World δ V A)
    {o : Outcome (Option Err)} {db : Db δ} {pending : A → List (Event V)}
    (hfn : fn (w.conn.pool, w.pending) = (o, db, pending)) :
    ((call.run u faults ctx fn w).1 = .returned none ∧ o = .returned none ∧
      Committed u ctx call.aggs db pending (call.run u faults ctx fn w).2.conn.pool) ∨
    ((call.run u faults ctx fn w).1 ≠ .returned none ∧
      (call.run u faults ctx fn w).2.conn.pool = w.conn.pool ∧
      ((faults.beginTx ≠ none ∧ (call.run u faults ctx fn w).2.pending = w.pending) ∨
      (faults.beginTx = none ∧ o ≠ .returned none ∧
        (call.run u faults ctx fn w).2.pending = pending) ∨
      (faults.beginTx = none ∧ o = .returned none ∧ (call.run u faults ctx fn w).2.pending =
        cleared (drainedBy u faults ctx call.aggs { w.setTx db with pending := pending })
          pending))) := by
  rw [Call.run_eq]
  generalize call.aggs = aggs
  -- the body of the transaction
  set body : Proc (World δ V A) :=
    fn.run.seq (Proc.forEach (publishEvents u faults ctx.inject) aggs) with hbody
  have hrun : UoW.executeMulti u faults ctx aggs fn w = withTx faults body w := rfl
  have hfnrun : fn.run (w.setTx w.conn.pool) = (o, { w.setTx db with pending := pending }) := by
    unfold Fn.run
    simp only [setTx_tx, setTx_pending, hfn]
    rfl
  obtain ⟨rows, db', hext, hstate, hdone⟩ := publishAll_spec u faults ctx pending
    aggs [] (w := { w.setTx db with pending := pending }) rfl (cleared_nil pending).symm
  rw [List.append_nil] at hstate
  rw [hrun]
  rcases withTx_cases faults body w with ⟨hb, hne, hw'⟩ | ⟨-, hok, heq⟩ | ⟨hb, hne, hw'⟩
  · right
    exact ⟨hne, by rw [hw'], Or.inl ⟨hb, by rw [hw']⟩⟩
  · left
    obtain ⟨hofn, hloop⟩ := Proc.seq_eq_ok.1 hok
    rw [hfnrun] at hofn hloop
    rw [heq, hbody, Proc.seq_of_ok (by rw [hfnrun]; exact hofn), hfnrun, hstate]
    exact ⟨rfl, hofn, rows, hdone hloop, hext⟩
  · right
    rw [hw']
    by_cases hofn : o = .returned none
    · have hbodyeq : body (w.setTx w.conn.pool) = Proc.forEach (publishEvents u faults ctx.inject)
          aggs { w.setTx db with pending := pending } := by
        rw [hbody, Proc.seq_of_ok (by rw [hfnrun]; exact hofn), hfnrun]
      rw [hbodyeq, hstate]
      exact ⟨hne, rfl, Or.inr (Or.inr ⟨hb, hofn, rfl⟩)⟩
    · rw [hbody, Proc.seq_of_ne_ok (by rw [hfnrun]; exact hofn), hfnrun]
      exact ⟨hne, rfl, Or.inr (Or.inl ⟨hb, hofn, rfl⟩)⟩

variable {u faults ctx}

/-- A call that returns nil has committed what the function left, with the rows of its events. -/
theorem Call.committed {call : Call A} {fn : Fn δ V A} {w : World δ V A}
    (hok : (call.run u faults ctx fn w).1 = .returned none) :
    (fn (w.conn.pool, w.pending)).1 = .returned none ∧
      Committed u ctx call.aggs (fn (w.conn.pool, w.pending)).2.1 (fn (w.conn.pool, w.pending)).2.2
        (call.run u faults ctx fn w).2.conn.pool := by
  rcases call.run_spec u faults ctx fn w rfl with ⟨-, ho, hcommitted⟩ | ⟨hne, -⟩
  · exact ⟨ho, hcommitted⟩
  · exact absurd hok hne

/-- A call that returns an error or panics has changed nothing. -/
theorem Call.unchanged {call : Call A} {fn : Fn δ V A} {w : World δ V A}
    (hfail : (call.run u faults ctx fn w).1 ≠ .returned none) :
    (call.run u faults ctx fn w).2.conn.pool = w.conn.pool := by
  rcases call.run_spec u faults ctx fn w rfl with ⟨hok, -⟩ | ⟨-, hpool, -⟩
  · exact absurd hok hfail
  · exact hpool

variable (u faults ctx)

/-- **Atomicity.**  A call that returns nil has committed what the function left, with one row for
each event pending when it finished; a call that returns an error or panics has changed nothing. -/
theorem call_atomic (call : Call A) (fn : Fn δ V A) (w : World δ V A) :
    let left := fn (w.conn.pool, w.pending)
    let result := call.run u faults ctx fn w
    (result.1 = .returned none → left.1 = .returned none ∧
      Committed u ctx call.aggs left.2.1 left.2.2 result.2.conn.pool) ∧
    (result.1 ≠ .returned none → result.2.conn.pool = w.conn.pool) :=
  ⟨Call.committed, Call.unchanged⟩

end

/-- A unit of work over an outbox that accepts everything. -/
def plainUnit : UnitOfWork Unit := ⟨⟨none, none, false, some⟩, fun _ => .ok "null", "orders"⟩

/-- An empty database, and one aggregate with one pending event. -/
def oneEvent : World Unit Unit Unit :=
  ⟨⟨⟨(), Sql.Table.empty, 0⟩, none⟩, fun _ => [Event.new "e1" 0 "order.created" none]⟩

/-- The function adds an event; the aggregate is named twice and drained once. -/
example : ((executeMulti plainUnit ⟨none, fun _ _ => none, none, none⟩ ⟨false, "", ""⟩ [(), ()]
    (fun s => (.returned none, s.1, addEvent () (Event.new "e2" 0 "order.paid" none) s.2))
    oneEvent).2.conn.pool.outbox.rows.map Row.id) = ["e1", "e2"] := by decide

end WolfCore.UoW
