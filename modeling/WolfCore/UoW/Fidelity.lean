import WolfCore.UoW.Atomicity
import WolfCore.Outbox.Envelope

/-!
# From the aggregate to the consumer

An event persisted by the unit of work passes through the outbox table, a worker, the stream
publisher and `EventStream.Subscribe`.  `fidelity_iff` says which events arrive as they were
(`SameEvent`): the way keeps the id, the type and the aggregate, but the version becomes 1 and the
metadata become those of the context in which the unit of work ran (`Kept`).

The JSON column keeps the JSON value of a text; `value` is that value.
-/

namespace WolfCore.UoW

open Go Outbox Messaging Interleave

section

variable {δ V A J : Type} (value : String → J)

/-- Both payloads encode to the same JSON value. -/
def SamePayload (marshal : Option V → Except Err String) (payload payload' : Option V) : Prop :=
  ∃ text text', marshal payload = .ok text ∧ marshal payload' = .ok text' ∧ value text' = value text

/-- The received event `evt'` is the original one. -/
structure SameEvent (marshal : Option V → Except Err String) (evt evt' : Event V) : Prop where
  eventID : evt'.eventID = evt.eventID
  eventType : evt'.eventType = evt.eventType
  aggregateID : evt'.aggregateID = evt.aggregateID
  aggregateType : evt'.aggregateType = evt.aggregateType
  occurredAt : evt'.occurredAt = evt.occurredAt
  version : evt'.version = evt.version
  correlationID : evt'.metadata.correlationID = evt.metadata.correlationID
  causationID : evt'.metadata.causationID = evt.metadata.causationID
  traceID : evt.metadata.traceID ≠ "" → evt'.metadata.traceID = evt.metadata.traceID
  payload : SamePayload value marshal evt.payload evt'.payload

/-- What the registry makes of the text `data` has its JSON value. -/
def DecodesTo (marshal : Option V → Except Err String) (consumer : Consumer V)
    (eventType data : String) : Prop :=
  ∀ v, consumer.deserialize eventType data = .ok v →
    ∃ text, marshal (some v) = .ok text ∧ value text = value data

/-- The event is one that the way from the aggregate to the consumer keeps. -/
structure Kept (marshal : Option V → Except Err String) (ctx : Ctx) (consumer : Consumer V)
    (data : String) (evt : Event V) : Prop where
  version : evt.version = 1
  correlationID : evt.metadata.correlationID = ctx.requestID
  causationID : evt.metadata.causationID = ""
  traceID : evt.metadata.traceID = "" ∨ evt.metadata.traceID = ctx.otelTraceID
  occurredAt : (0 ≤ Rfc3339.year evt.occurredAt ∧ Rfc3339.year evt.occurredAt ≤ 9999 ∧
    evt.occurredAt ≠ 0) ∨ consumer.now = evt.occurredAt
  payload : DecodesTo value marshal consumer evt.eventType data

/-! ### One row -/

variable {value} {u : UnitOfWork V} {ctx : Ctx} {evt : Event V} {r : Row}

theorem rowOf_event (hr : RowOf u ctx evt r) :
    ∃ payload stored, u.marshal evt.payload = .ok payload ∧
    u.schema.jsonb payload = some stored ∧ r.columns.traced.message.data = stored ∧
    r.columns.traced.event = ⟨evt.eventID, evt.eventType, evt.aggregateID, evt.aggregateType,
      evt.occurredAt, 1, some stored, ⟨ctx.otelTraceID, ctx.requestID, "", u.source⟩⟩ := by
  obtain ⟨payload, stored, seq, hm, hjson, rfl⟩ := hr
  refine ⟨payload, stored, hm, hjson, rfl, ?_⟩
  -- the trace id of the row is that of its metadata already
  by_cases htrace : ctx.otelTraceID = "" <;>
    simp [NewRow.event, NewRow.traced, Row.columns, NewRow.toRow, eventRow,
      enrichMetadataFromContext, Ctx.inject, Metadata.zero, htrace]

theorem receivedAt_eq_iff {now t : ℤ} : receivedAt now t = t ↔
    (0 ≤ Rfc3339.year t ∧ Rfc3339.year t ≤ 9999 ∧ t ≠ 0) ∨ now = t := by
  unfold receivedAt
  split_ifs with h
  · exact ⟨fun _ => Or.inl h, fun _ => rfl⟩
  · exact ⟨Or.inr, fun h' => h'.resolve_left h⟩

/-- What is received from the row of an event is the event exactly if it is one that is kept. -/
theorem sameEvent_iff (hjson : ∀ text stored, u.schema.jsonb text = some stored →
      value stored = value text) (hid : evt.eventID ≠ "") (hr : RowOf u ctx evt r)
    {consumer : Consumer V} {subject : String} {evt' : Event V}
    (hreceive : receive consumer subject r.columns.traced.message = .ok evt') :
    SameEvent value u.marshal evt evt' ↔
      Kept value u.marshal ctx consumer r.columns.traced.message.data evt := by
  obtain ⟨payload, stored, hm, hstored, hdata, hevent⟩ := rowOf_event hr
  have hcarries : Carries r.columns.traced.message.headers r.columns.traced.event :=
    carries_eventHeaders _
  rw [hevent] at hcarries
  obtain ⟨v, hv, rfl⟩ := hcarries.receive hid (by norm_num) hreceive
  have hvalue := hjson payload stored hstored
  rw [hdata] at hv ⊢
  constructor
  · intro h
    refine ⟨h.version.symm, h.correlationID.symm, h.causationID.symm, ?_,
      receivedAt_eq_iff.1 h.occurredAt, fun v' hv' => ?_⟩
    · by_cases htrace : evt.metadata.traceID = ""
      · exact Or.inl htrace
      · exact Or.inr (h.traceID htrace).symm
    · obtain rfl : v = v' := Except.ok.inj (hv.symm.trans hv')
      obtain ⟨text, text', htext, htext', heq⟩ := h.payload
      obtain rfl : payload = text := Except.ok.inj (hm.symm.trans htext)
      exact ⟨text', htext', heq.trans hvalue.symm⟩
  · intro h
    obtain ⟨text', htext', heq⟩ := h.payload v hv
    exact {
      eventID := rfl
      eventType := rfl
      aggregateID := rfl
      aggregateType := rfl
      occurredAt := receivedAt_eq_iff.2 h.occurredAt
      version := h.version.symm
      correlationID := h.correlationID.symm
      causationID := h.causationID.symm
      traceID := fun htrace => (h.traceID.resolve_left htrace).symm
      payload := ⟨payload, text', hm, htext', heq.trans hvalue⟩ }

/-! ### Every run -/

variable [DecidableEq A]

/-- **End-to-end fidelity, exactly.**  A call of the unit of work returns nil, and the workers find
what it has committed.  Then every event has its row, and whatever a consumer receives of a message
published for that row is the event if and only if the event is one that is kept. -/
theorem fidelity_iff (u : UnitOfWork V) (value : String → J)
    (hjson : ∀ text stored, u.schema.jsonb text = some stored → value stored = value text)
    (faults : Faults δ V A) (ctx : Ctx) (call : Call A) (fn : Fn δ V A) (w : World δ V A)
    (hok : (call.run u faults ctx fn w).1 = .returned none) (workers : ℕ → Worker)
    (db : Outbox.World) (hdb : db.Numbered) (before after : Schedule)
    (htable : ((start workers db).run (machine u.schema workers) before).shared.table.rows =
      (call.run u faults ctx fn w).2.conn.pool.outbox.rows)
    (evt : Event V) (hevt : evt ∈ drained call.aggs (fn (w.conn.pool, w.pending)).2.2)
    (hid : evt.eventID ≠ "") :
    ∃ r ∈ ((start workers db).run (machine u.schema workers) before).shared.table,
      r.id = evt.eventID ∧ ∀ i entry reply,
        ⟨i, .publish entry, reply⟩ ∈ (((start workers db).run (machine u.schema workers)
          before).run (machine u.schema workers) after).hist → entry.seq = r.seq →
        ∃ msg, streamMessage (fun v => u.marshal (some v)) (envelopeEvent V entry) = .ok msg ∧
          ∀ consumer subject evt', receive consumer subject msg = .ok evt' →
            (SameEvent value u.marshal evt evt' ↔
              Kept value u.marshal ctx consumer msg.data evt) := by
  obtain ⟨-, rows, hrows, hext⟩ := Call.committed hok
  obtain ⟨r, hmem, hr⟩ := Sql.exists_related hrows hevt
  have hin : r ∈ ((start workers db).run (machine u.schema workers) before).shared.table := by
    rw [Sql.Table.mem_def, htable, hext.outbox]
    exact List.mem_append_right _ hmem
  refine ⟨r, hin, ?_, fun i entry reply hpub hseq => ?_⟩
  · obtain ⟨payload, stored, seq, -, -, rfl⟩ := hr
    rfl
  · exact ⟨_, published_message _ hdb hin hpub hseq, fun consumer subject evt' hreceive =>
      sameEvent_iff hjson hid hr hreceive⟩

end

/-! ### One event -/

/-- A unit of work over a table that can be relayed. -/
def shop : UnitOfWork Unit := ⟨textSchema, fun _ => .ok "null", "orders"⟩

/-- An event of February 12, 2025, with a schema version. -/
def order (version : ℤ) : Event Unit :=
  ((Event.new "e1" 63875000000000000000 "order.created" (some ())).withAggregateInfo "o1"
    "order").withVersion version

/-- `Execute` with an aggregate that has the event pending. -/
def persist (evt : Event Unit) : Outcome (Option Err) × World Unit Unit Unit :=
  (Call.execute ()).run shop ⟨none, fun _ _ => none, none, none⟩ ⟨false, "", ""⟩
    (fun s => (.returned none, s)) ⟨⟨⟨(), Sql.Table.empty, 0⟩, none⟩, fun _ => [evt]⟩

/-- One worker relays what it finds. -/
def relayShop (evt : Event Unit) : Pool Reply Outbox.World Local :=
  relayOnce shop.schema (persist evt).2.conn.pool.outbox

/-- A consumer whose registry knows the type of the payload. -/
def shopConsumer : Consumer Unit := ⟨fun _ _ => .ok (), "e9", 0⟩

theorem fidelity_iff_order :
    (persist (order 1)).1 = .returned none ∧
    (∃ entry, ⟨0, .publish entry, none⟩ ∈ (relayShop (order 1)).hist) ∧
    ∃ r ∈ (persist (order 1)).2.conn.pool.outbox, r.id = "e1" ∧ ∀ i entry reply,
      ⟨i, .publish entry, reply⟩ ∈ (relayShop (order 1)).hist → entry.seq = r.seq →
      ∃ msg, streamMessage (fun v => shop.marshal (some v)) (envelopeEvent Unit entry) = .ok msg ∧
        ∀ consumer subject evt', receive consumer subject msg = .ok evt' →
          (SameEvent id shop.marshal (order 1) evt' ↔
            Kept id shop.marshal ⟨false, "", ""⟩ consumer msg.data (order 1)) := by
  refine ⟨rfl, ⟨_, List.mem_of_getElem? (i := 1) rfl⟩, ?_⟩
  exact fidelity_iff shop id (fun text stored h => (Option.some.inj h).symm) _ _ (.execute
    ()) _ _ rfl
    (fun _ => relayWorker) (foundDb (persist (order 1)).2.conn.pool.outbox)
    (numbered_of_singleton rfl Nat.one_pos) [] relayed rfl (order 1)
    List.mem_cons_self (by decide)

/-- An event of version 2 is persisted and relayed, and the consumer receives one of version 1. -/
theorem version_not_kept :
    (persist (order 2)).1 = .returned none ∧
    ∃ entry, ⟨0, .publish entry, none⟩ ∈ (relayShop (order 2)).hist ∧
    ∃ msg, streamMessage (fun v => shop.marshal (some v)) (envelopeEvent Unit entry) = .ok msg ∧
    ∃ evt', receive shopConsumer "order.created" msg = .ok evt' ∧
      evt'.eventID = (order 2).eventID ∧ evt'.version = 1 ∧
      ¬ SameEvent id shop.marshal (order 2) evt' := by
  refine ⟨rfl, _, List.mem_of_getElem? (i := 1) rfl, _, rfl, _, rfl, rfl, rfl, fun h => ?_⟩
  exact absurd h.version (by decide)

end WolfCore.UoW
