import WolfCore.Outbox.Insert

/-!
# Enqueueing inside a transaction

`Store.Insert` and `OutboxMiddleware.Publish` write to the same table.  Called with a context that
carries an open transaction, the former writes in the transaction and the latter beside it: its row
stays when the transaction is rolled back.  `transactional_iff` says that a sequence of such calls
shares the fate of the transaction exactly if no `OutboxMiddleware.Publish` among them is accepted.
-/

namespace WolfCore.Outbox

open Go Sql Messaging

/-- A call that enqueues, with all it is given and the fault it meets. -/
inductive EnqueueCall (V : Type)
  | insert (ctx : Ctx) (fault : Option Fault) (evt : Event V) (md : Metadata)
  | publish (ctx : Ctx) (fault : Option Err) (now : ℤ) (subject : String) (msg : RawMessage)

section

variable {δ V : Type} (schema : Schema) (marshal : Option V → Except Err String)

def EnqueueCall.run : EnqueueCall V → Proc (Conn δ)
  | .insert ctx fault evt md => Outbox.insert schema marshal ctx.inject fault evt md
  | .publish ctx fault now subject msg => Outbox.publish schema ctx.inject fault now subject msg

/-- `r` is a row the call writes. -/
def EnqueueCall.Wrote : EnqueueCall V → Row → Prop
  | .insert ctx _ evt md, r => InsertedRow schema marshal ctx.inject evt md r
  | .publish _ _ now subject msg, r => PublishedRow schema now subject msg r

/-- The calls are made one after the other, whatever they return. -/
def enqueueAll : List (EnqueueCall V) → Conn δ → Conn δ
  | [], c => c
  | call :: calls, c => enqueueAll calls (call.run schema marshal c).2

def succeeded : List (EnqueueCall V) → Conn δ → List (EnqueueCall V)
  | [], _ => []
  | call :: calls, c =>
      match call.run schema marshal c with
      | (.returned none, c') => call :: succeeded calls c'
      | (_, c') => succeeded calls c'

/-- The calls share the fate of the transaction: when it is rolled back the table is as before, and
when it commits there is one new row for each call that returned nil. -/
structure Transactional (calls : List (EnqueueCall V)) (pool db : Db δ) : Prop where
  rollback : (enqueueAll schema marshal calls ⟨pool, some db⟩).rollback.pool.outbox.rows =
    pool.outbox.rows
  commit : ∃ rows, List.Forall₂ (EnqueueCall.Wrote schema marshal)
      (succeeded schema marshal calls ⟨pool, some db⟩) rows ∧
    (enqueueAll schema marshal calls ⟨pool, some db⟩).commit.pool.outbox.rows =
      db.outbox.rows ++ rows

/-- The call is an `OutboxMiddleware.Publish` that is accepted. -/
def EnqueueCall.PublishAccepted (c : Conn δ) : EnqueueCall V → Prop
  | .insert .. => False
  | .publish _ fault now subject msg => c.AcceptsMessage schema fault now subject msg

/-- None of the calls is an `OutboxMiddleware.Publish` that is accepted. -/
def NoPublishAccepted : List (EnqueueCall V) → Conn δ → Prop
  | [], _ => True
  | call :: calls, c => ¬ call.PublishAccepted schema c ∧
      NoPublishAccepted calls (call.run schema marshal c).2

variable {schema marshal} in
/-- One call: if it returns nil its row is in the working copy, and in the committed database
exactly if it is an `OutboxMiddleware.Publish`; otherwise nothing changes. -/
theorem EnqueueCall.run_cases {call : EnqueueCall V} {pool db : Db δ} {o : Outcome (Option Err)}
    {c' : Conn δ} (h : call.run schema marshal ⟨pool, some db⟩ = (o, c')) :
    (o = .returned none ∧ ∃ row pool' db', call.Wrote schema marshal row ∧ c' = ⟨pool', some db'⟩ ∧
      Extends db [row] db' ∧
      (call.PublishAccepted schema ⟨pool, some db⟩ ∧ Extends pool [row] pool' ∨
        ¬ call.PublishAccepted schema ⟨pool, some db⟩ ∧ pool' = pool)) ∨
    (o ≠ .returned none ∧ ¬ call.PublishAccepted schema ⟨pool, some db⟩ ∧
      c' = ⟨pool, some db⟩) := by
  cases call with
  | insert ctx fault evt md =>
    rcases insert_in_tx rfl h with ⟨ho, row, db', hrow, hext, hc'⟩ | ⟨ho, hc'⟩
    · exact Or.inl ⟨ho, row, pool, db', hrow, hc', hext, Or.inr ⟨id, rfl⟩⟩
    · exact Or.inr ⟨ho, id, hc'⟩
  | publish ctx fault now subject msg =>
    rcases publish_cases h with ⟨ho, hacc, row, hrow, hpool, htx⟩ | ⟨ho, hacc, hc'⟩
    · obtain ⟨db', hdb', hext⟩ := htx db rfl
      refine Or.inl ⟨ho, row, c'.pool, db', hrow, ?_, hext, Or.inl ⟨hacc, hpool⟩⟩
      rw [← hdb']
    · exact Or.inr ⟨ho, hacc, hc'⟩

/-- A sequence of calls: the working copy gets the rows of all that return nil, the committed
database those of the accepted `OutboxMiddleware.Publish` calls. -/
theorem enqueueAll_spec (calls : List (EnqueueCall V)) (pool db : Db δ) :
    ∃ rows beside pool' db', enqueueAll schema marshal calls ⟨pool, some db⟩ = ⟨pool', some db'⟩ ∧
      List.Forall₂ (EnqueueCall.Wrote schema marshal)
        (succeeded schema marshal calls ⟨pool, some db⟩) rows ∧
      Extends db rows db' ∧ Extends pool beside pool' ∧
      (beside = [] ↔ NoPublishAccepted schema marshal calls ⟨pool, some db⟩) := by
  induction calls generalizing pool db with
  | nil => exact ⟨[], [], pool, db, rfl, .nil, .refl db, .refl pool, by simp [NoPublishAccepted]⟩
  | cons call calls ih =>
    rcases hrun : call.run schema marshal ⟨pool, some db⟩ with ⟨o, c'⟩
    simp only [enqueueAll, NoPublishAccepted, succeeded, hrun]
    rcases call.run_cases hrun with ⟨rfl, row, pool₁, db₁, hrow, rfl, hext, hpub⟩ | ⟨ho, hacc, rfl⟩
    · obtain ⟨rows, beside, pool', db', hend, hall, hdb, hpool, hiff⟩ := ih pool₁ db₁
      rcases hpub with ⟨hacc, hpub⟩ | ⟨hacc, rfl⟩
      · exact ⟨row :: rows, row :: beside, pool', db', hend, .cons hrow hall, hext.trans hdb,
          hpub.trans hpool, ⟨nofun, fun h => absurd hacc h.1⟩⟩
      · exact ⟨row :: rows, beside, pool', db', hend, .cons hrow hall, hext.trans hdb, hpool,
          ⟨fun h => ⟨hacc, hiff.1 h⟩, fun h => hiff.2 h.2⟩⟩
    · obtain ⟨rows, beside, pool', db', hend, hall, hdb, hpool, hiff⟩ := ih pool db
      refine ⟨rows, beside, pool', db', hend, ?_, hdb, hpool,
        ⟨fun h => ⟨hacc, hiff.1 h⟩, fun h => hiff.2 h.2⟩⟩
      match o, ho with
      | .returned (some _), _ => exact hall
      | .panicked _, _ => exact hall

/-- **Transactional enqueue, exactly.**  The calls share the fate of the transaction if and only if
none of them is an `OutboxMiddleware.Publish` that is accepted. -/
theorem transactional_iff (calls : List (EnqueueCall V)) (pool db : Db δ) :
    Transactional schema marshal calls pool db ↔
      NoPublishAccepted schema marshal calls ⟨pool, some db⟩ := by
  obtain ⟨rows, beside, pool', db', hend, hall, hdb, hpool, hiff⟩ :=
    enqueueAll_spec schema marshal calls pool db
  rw [← hiff]
  constructor
  · intro h
    have hroll := h.rollback
    rw [hend] at hroll
    have hgrown : pool.outbox.rows ++ beside = pool.outbox.rows := hpool.outbox.symm.trans hroll
    exact List.append_right_eq_self.1 hgrown
  · intro hnone
    refine ⟨?_, rows, hall, ?_⟩
    · rw [hend]
      show pool'.outbox.rows = _
      rw [hpool.outbox, hnone, List.append_nil]
    · rw [hend]
      exact hdb.outbox

end

/-- One `OutboxMiddleware.Publish` with the transaction in its context. -/
def oneMessage : List (EnqueueCall Unit) :=
  [.publish ⟨false, "", ""⟩ none 0 "orders" ⟨"m1", "order.created", "orders", "null", StrMap.empty⟩]

/-- The transaction is rolled back, and the row of the message stays. -/
theorem oneMessage_survives_rollback :
    let final := enqueueAll ⟨none, none, false, some⟩ (fun _ : Option Unit => .ok "null") oneMessage
      (⟨⟨(), Table.empty, 0⟩, none⟩ : Conn Unit).begin
    final.rollback.pool.outbox.rows.map Row.id = ["m1"] ∧
      ¬ Transactional ⟨none, none, false, some⟩ (fun _ : Option Unit => .ok "null") oneMessage
        (⟨(), Table.empty, 0⟩ : Db Unit) ⟨(), Table.empty, 0⟩ := by
  refine ⟨by decide, fun h => ?_⟩
  have hrows := congrArg List.length h.rollback
  revert hrows
  decide

end WolfCore.Outbox
