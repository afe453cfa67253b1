import WolfCore.Outbox.Insert
import WolfCore.Outbox.Envelope

/-!
# Raw messages through the outbox

A message handed to `OutboxMiddleware.Publish` is stored in columns made for events, and what the
relay publishes is built from these.  `transparency_iff` says for which messages that is what a
direct `Publish` would have sent, up to extra headers (`Transparent`): the subject must be the event
type the middleware stores, and every header must be one the stream publisher writes itself
(`Relayable`).

The JSON column keeps the JSON value of a text; `value` is that value.
-/

namespace WolfCore.Outbox

open Go Interleave Sql Messaging

section

variable {δ V J : Type}

/-- The relayed message `msg'` is the original one, sent on `subject`, with extra headers maybe. -/
structure Transparent (value : String → J) (subject : String) (msg msg' : RawMessage) : Prop where
  routed : msg'.subject = subject
  id : msg'.id = msg.id
  data : value msg'.data = value msg.data
  headers : ∀ k v, msg.headers k = some v → msg'.headers k = some v

/-- The headers of a message stored at `now` that its relayed message has, too. -/
def KeptHeader (now : ℤ) (subject : String) (msg : RawMessage) (k v : String) : Prop :=
  k = "aggregate_id" ∨ k = "aggregate_type" ∨ (k = "trace_id" ∧ v ≠ "") ∨
    (k = "event_id" ∧ v = msg.id) ∨ (k = "event_type" ∧ v = resolveEventType subject msg) ∨
    (k = "version" ∧ v = "1") ∨ (k = "occurred_at" ∧ v = Rfc3339.format now)

/-- A message that survives the outbox. -/
structure Relayable (now : ℤ) (subject : String) (msg : RawMessage) : Prop where
  routed : resolveEventType subject msg = subject
  headers : ∀ k v, msg.headers k = some v → KeptHeader now subject msg k v

/-! ### One row -/

variable {schema : Schema} {now : ℤ} {subject : String} {msg : RawMessage} {r : Row}

/-- The event that the row of a message describes. -/
theorem publishedRow_event (hr : PublishedRow schema now subject msg r) : ∃ stored,
    schema.jsonb msg.data = some stored ∧ r.columns.traced.event = ⟨msg.id,
      resolveEventType subject msg, msg.headers.get "aggregate_id",
      msg.headers.get "aggregate_type", now, 1, some stored,
      ⟨msg.headers.get "trace_id", "", "", ""⟩⟩ := by
  obtain ⟨stored, seq, hjson, rfl⟩ := hr
  refine ⟨stored, hjson, ?_⟩
  by_cases htrace : msg.headers.get "trace_id" = "" <;>
    simp [NewRow.event, NewRow.traced, Row.columns, NewRow.toRow, entryRow, messageEntry,
      Metadata.zero, htrace]

/-- A header of the original message is in the relayed one exactly if it is one that is kept. -/
theorem relayed_header_iff (hr : PublishedRow schema now subject msg r) {k v : String}
    (hk : msg.headers k = some v) :
    r.columns.traced.message.headers k = some v ↔ KeptHeader now subject msg k v := by
  obtain ⟨stored, -, hevent⟩ := publishedRow_event hr
  have hget : msg.headers.get k = v := by rw [StrMap.get, hk, Option.getD_some]
  show eventHeaders r.columns.traced.event k = some v ↔ _
  rw [hevent]
  by_cases hkeys : k ∈ Metadata.keys
  · rw [eventHeaders_of_mem _ hkeys]
    simp only [Metadata.keys, List.mem_cons, List.not_mem_nil, or_false] at hkeys
    rcases hkeys with rfl | rfl | rfl | rfl
    · rw [hget]
      simp [Metadata.toMap, Metadata.setNonEmpty_apply, StrMap.empty, KeptHeader]
    all_goals simp [Metadata.toMap, Metadata.setNonEmpty_apply, StrMap.empty, KeptHeader]
  · rw [eventHeaders_of_not_mem _ hkeys]
    have hone : itoa 1 = "1" := by decide
    have htrace : k ≠ "trace_id" := fun h => hkeys (h ▸ List.mem_cons_self)
    split_ifs with hversion htime hatype haid htype hid
    · subst hversion
      simp [KeptHeader, hone, eq_comm]
    · subst htime
      simp [KeptHeader, eq_comm]
    · subst hatype
      simp [KeptHeader, hget]
    · subst haid
      simp [KeptHeader, hget]
    · subst htype
      simp [KeptHeader, eq_comm]
    · subst hid
      simp [KeptHeader, eq_comm]
    · simp [KeptHeader, *]

/-- The relayed message is the original one exactly if that is relayable. -/
theorem transparent_iff {value : String → J}
    (hjson : ∀ text stored, schema.jsonb text = some stored → value stored = value text)
    (hr : PublishedRow schema now subject msg r) :
    Transparent value subject msg r.columns.traced.message ↔ Relayable now subject msg := by
  have hheaders : ∀ k v, msg.headers k = some v →
      (r.columns.traced.message.headers k = some v ↔ KeptHeader now subject msg k v) :=
    fun k v hk => relayed_header_iff hr hk
  obtain ⟨stored, seq, hstored, rfl⟩ := hr
  constructor
  · intro h
    exact ⟨h.routed, fun k v hk => (hheaders k v hk).1 (h.headers k v hk)⟩
  · intro h
    exact ⟨h.routed, rfl, hjson _ _ hstored, fun k v hk => (hheaders k v hk).2 (h.headers k v hk)⟩

/-! ### Every run -/

/-- **Outbox transparency, exactly.**  `OutboxMiddleware.Publish` returns nil, and the workers find
what it has committed.  Then the message has its row, and every message published for that row is
the original one if and only if that is relayable. -/
theorem transparency_iff (schema : Schema) (value : String → J)
    (hjson : ∀ text stored, schema.jsonb text = some stored → value stored = value text)
    (ctx : Ctx) (fault : Option Err) (now : ℤ) (subject : String) (msg : RawMessage)
    (c c' : Conn δ) (hok : publish schema ctx fault now subject msg c = (.returned none, c'))
    (workers : ℕ → Worker) (db : World) (hdb : db.Numbered) (before after : Schedule)
    (htable : ((start workers db).run (machine schema workers) before).shared.table.rows =
      c'.pool.outbox.rows) (marshal : V → Except Err String) :
    ∃ r ∈ ((start workers db).run (machine schema workers) before).shared.table,
      r.id = msg.id ∧ ∀ i entry reply,
        ⟨i, .publish entry, reply⟩ ∈ (((start workers db).run (machine schema workers)
          before).run (machine schema workers) after).hist → entry.seq = r.seq →
        ∃ msg', streamMessage marshal (envelopeEvent V entry) = .ok msg' ∧
          (Transparent value subject msg msg' ↔ Relayable now subject msg) := by
  rcases publish_cases hok with ⟨-, -, r, hr, hext, -⟩ | ⟨hne, -⟩
  · have hin : r ∈ ((start workers db).run (machine schema workers) before).shared.table := by
      rw [Table.mem_def, htable, hext.outbox]
      exact List.mem_append_right _ (List.mem_singleton.2 rfl)
    refine ⟨r, hin, ?_, fun i entry reply hpub hseq => ?_⟩
    · obtain ⟨stored, seq, -, rfl⟩ := hr
      rfl
    · exact ⟨_, published_message marshal hdb hin hpub hseq, transparent_iff hjson hr⟩
  · exact absurd rfl hne

end

/-! ### One message -/

/-- A message without name, with the given headers. -/
def plainMessage (headers : StrMap) : RawMessage := ⟨"m1", "", "orders", "null", headers⟩

/-- `OutboxMiddleware.Publish` of it on the subject `orders`. -/
def enqueued (headers : StrMap) : Outcome (Option Err) × Conn Unit :=
  publish textSchema ⟨false, "", ""⟩ none 0 "orders" (plainMessage headers)
    ⟨⟨(), Table.empty, 0⟩, none⟩

/-- One worker relays what it finds. -/
def relayEnqueued (headers : StrMap) : Pool Reply World Local :=
  relayOnce textSchema (enqueued headers).2.pool.outbox

theorem transparency_iff_plain :
    (enqueued StrMap.empty).1 = .returned none ∧
    Relayable 0 "orders" (plainMessage StrMap.empty) ∧
    (∃ entry, ⟨0, .publish entry, none⟩ ∈ (relayEnqueued StrMap.empty).hist) ∧
    ∃ r ∈ (enqueued StrMap.empty).2.pool.outbox, r.id = "m1" ∧ ∀ i entry reply,
      ⟨i, .publish entry, reply⟩ ∈ (relayEnqueued StrMap.empty).hist → entry.seq = r.seq →
      ∃ msg', streamMessage (fun _ : Unit => .ok "null") (envelopeEvent Unit entry) = .ok msg' ∧
        (Transparent id "orders" (plainMessage StrMap.empty) msg' ↔
          Relayable 0 "orders" (plainMessage StrMap.empty)) := by
  refine ⟨rfl, ⟨rfl, nofun⟩, ⟨_, List.mem_of_getElem? (i := 1) rfl⟩, ?_⟩
  exact transparency_iff textSchema id (fun text stored h => (Option.some.inj h).symm)
    ⟨false, "", ""⟩ none 0 "orders" (plainMessage StrMap.empty) ⟨⟨(), Table.empty, 0⟩, none⟩
    (enqueued StrMap.empty).2 rfl (fun _ => relayWorker) (foundDb _)
    (numbered_of_singleton rfl Nat.one_pos) [] relayed rfl _

/-- A message with an event type and a tenant in its headers, sent on `orders`, is relayed on the
event type and without the tenant. -/
theorem message_rerouted :
    let headers := (StrMap.empty.set "event_type" "order.created").set "tenant" "t1"
    (enqueued headers).1 = .returned none ∧
    ∃ entry, ⟨0, .publish entry, none⟩ ∈ (relayEnqueued headers).hist ∧
    ∃ msg', streamMessage (fun _ : Unit => .ok "null") (envelopeEvent Unit entry) = .ok msg' ∧
      msg'.id = "m1" ∧ msg'.subject = "order.created" ∧ msg'.headers "tenant" = none ∧
      ¬ Transparent id "orders" (plainMessage headers) msg' := by
  refine ⟨rfl, _, List.mem_of_getElem? (i := 1) rfl, _, rfl, rfl, rfl, rfl, fun h => ?_⟩
  exact absurd h.routed (by decide)

end WolfCore.Outbox
