import WolfCore.Lib.Rfc3339
import WolfCore.Event.Basic

/-!
# Events on a stream (`messaging/stream.go`, `messaging/event_stream.go`,
`infra/events/stream_publisher.go`)

`streamEventPublisher.Publish` turns an event into a message, and the handler of
`EventStream.Subscribe` turns a message back into an event.  `Carries.receive` says what becomes of
an event on the way: all but its payload and its time comes back as it was, and the time does if its
year has four digits and it is not the zero time.

`json.Marshal` and the type registry are parameters.
-/

namespace WolfCore.Messaging

open Go

/-- `messaging.RawMessage`. -/
structure RawMessage where
  id : String
  name : String
  subject : String
  data : String
  headers : StrMap

/-- A payload as `marshalPayload` sees it: a `[]byte`, or any other value. -/
inductive Payload (V : Type)
  | bytes (raw : String)
  | value (v : V)

section

variable {V W : Type}

/-! ### Publishing -/

/-- `marshalPayload`. -/
def marshalPayload (marshal : V → Except Err String) : Payload V → Except Err String
  | .bytes raw => .ok raw
  | .value v => marshal v

/-- The headers of an event; the metadata come last. -/
def eventHeaders (evt : Event V) : StrMap :=
  ((((((StrMap.empty.set "event_id" evt.eventID).set "event_type" evt.eventType).set
    "aggregate_id" evt.aggregateID).set "aggregate_type" evt.aggregateType).set
    "occurred_at" (Rfc3339.format evt.occurredAt)).set "version" (itoa evt.version)).assign
    evt.metadata.toMap

/-- The message `streamEventPublisher.Publish` sends, on its own subject. -/
def streamMessage (marshal : V → Except Err String) (evt : Event (Payload V)) :
    Except Err RawMessage := do
  let data ← match evt.payload with
    | some payload =>
        (marshalPayload marshal payload).mapError
          (.wrap "stream_publisher: encode payload for %q: %w" (some evt.eventType))
    | none => .ok "\x7b\x7d"
  return ⟨evt.eventID, evt.eventType, evt.eventType, data, eventHeaders evt⟩

/-! ### Receiving -/

/-- What rebuilding an event depends on: `Deserialize` of the type registry, the random id and the
clock of `NewEvent`. -/
structure Consumer (V : Type) where
  deserialize : String → String → Except Err V
  uuid : String
  now : ℤ

/-- The version of a received event. -/
def versionOf (headers : StrMap) : ℤ := (atoi (headers.get "version")).getD 1

/-- `WithOccurredAt` with the time of the header, if there is one. -/
def restoreOccurredAt (headers : StrMap) (evt : Event V) : Event V :=
  if headers.get "occurred_at" = "" then evt
  else
    match Rfc3339.parse (headers.get "occurred_at") with
    | none => evt
    | some t => evt.withOccurredAt t

/-- The event the handler of `EventStream.Subscribe` hands to the consumer. -/
def receive (consumer : Consumer V) (subject : String) (msg : RawMessage) :
    Except Err (Event V) :=
  let headers := msg.headers
  let eventType := headers.get "event_type"
  if eventType = "" then
    .error (.msg ("event_stream: missing event_type header on subject " ++ subject.quote))
  else
    match consumer.deserialize eventType msg.data with
    | .error err => .error (.wrap "event_stream: deserialize %q: %w" (some eventType) err)
    | .ok payload =>
        .ok (restoreOccurredAt headers (((((Event.new consumer.uuid consumer.now eventType
          (some payload)).withAggregateInfo (headers.get "aggregate_id")
          (headers.get "aggregate_type")).withMetadata (Metadata.fromMap headers)).withVersion
          (versionOf headers)).withID (headers.get "event_id")))

/-! ### There and back -/

/-- The headers of an event that are not metadata. -/
theorem eventHeaders_of_not_mem (evt : Event V) {k : String} (hk : k ∉ Metadata.keys) :
    eventHeaders evt k = (if k = "version" then some (itoa evt.version)
      else if k = "occurred_at" then some (Rfc3339.format evt.occurredAt)
      else if k = "aggregate_type" then some evt.aggregateType
      else if k = "aggregate_id" then some evt.aggregateID
      else if k = "event_type" then some evt.eventType
      else if k = "event_id" then some evt.eventID else none) := by
  unfold eventHeaders
  rw [StrMap.assign_of_none (Metadata.toMap_eq_none hk)]
  simp only [StrMap.set_apply, StrMap.empty]

theorem eventHeaders_of_mem (evt : Event V) {k : String} (hk : k ∈ Metadata.keys) :
    eventHeaders evt k = evt.metadata.toMap k := by
  have hbase : ∀ k ∈ Metadata.keys, ((((((StrMap.empty.set "event_id" evt.eventID).set "event_type"
      evt.eventType).set "aggregate_id" evt.aggregateID).set "aggregate_type" evt.aggregateType).set
      "occurred_at" (Rfc3339.format evt.occurredAt)).set "version" (itoa evt.version)) k =
        none := by
    simp [Metadata.keys, StrMap.set_apply, StrMap.empty]
  unfold eventHeaders StrMap.assign
  rw [hbase k hk]
  cases evt.metadata.toMap k <;> rfl

/-- The headers tell all about the event but its payload. -/
structure Carries (headers : StrMap) (evt : Event V) : Prop where
  eventID : headers.get "event_id" = evt.eventID
  eventType : headers.get "event_type" = evt.eventType
  aggregateID : headers.get "aggregate_id" = evt.aggregateID
  aggregateType : headers.get "aggregate_type" = evt.aggregateType
  occurredAt : headers.get "occurred_at" = Rfc3339.format evt.occurredAt
  version : headers.get "version" = itoa evt.version
  metadata : Metadata.fromMap headers = evt.metadata

theorem carries_eventHeaders (evt : Event V) : Carries (eventHeaders evt) evt := by
  constructor
  case metadata =>
    refine Metadata.fromMap_assign ?_ evt.metadata
    simp [Metadata.keys, StrMap.set_apply, StrMap.empty]
  all_goals
    rw [StrMap.get, eventHeaders_of_not_mem evt (by decide)]
    rfl

/-- The time a received event has: the original one, unless its year has not four digits or it is
the zero time. -/
def receivedAt (now t : ℤ) : ℤ :=
  if 0 ≤ Rfc3339.year t ∧ Rfc3339.year t ≤ 9999 ∧ t ≠ 0 then t else now

theorem Carries.restoreOccurredAt {headers : StrMap} {evt : Event W} (h : Carries headers evt)
    (evt' : Event V) : restoreOccurredAt headers evt' =
      { evt' with occurredAt := receivedAt evt'.occurredAt evt.occurredAt } := by
  unfold Messaging.restoreOccurredAt receivedAt Event.withOccurredAt
  rw [h.occurredAt, if_neg (Rfc3339.format_ne_empty _), Rfc3339.parse_format]
  by_cases hyear : 0 ≤ Rfc3339.year evt.occurredAt ∧ Rfc3339.year evt.occurredAt ≤ 9999
  · rw [if_pos hyear]
    by_cases hzero : evt.occurredAt = 0
    · simp [hzero]
    · simp [hzero, hyear]
  · rw [if_neg hyear, if_neg fun h => hyear ⟨h.1, h.2.1⟩]

/-- **What is received.**  The event handed to the consumer is the one the headers tell of, but for
the payload, which the registry decodes, and a time that is lost. -/
theorem Carries.receive {msg : RawMessage} {evt : Event V} (h : Carries msg.headers evt)
    (hid : evt.eventID ≠ "") (hversion : -2 ^ 63 ≤ evt.version ∧ evt.version < 2 ^ 63)
    {consumer : Consumer W} {subject : String} {evt' : Event W}
    (hreceive : receive consumer subject msg = .ok evt') :
    ∃ payload, consumer.deserialize evt.eventType msg.data = .ok payload ∧
      evt' = ⟨evt.eventID, evt.eventType, evt.aggregateID, evt.aggregateType,
        receivedAt consumer.now evt.occurredAt, evt.version, some payload, evt.metadata⟩ := by
  unfold Messaging.receive at hreceive
  simp only [h.eventType] at hreceive
  split_ifs at hreceive
  cases hpayload : consumer.deserialize evt.eventType msg.data with
  | error err => rw [hpayload] at hreceive; cases hreceive
  | ok payload =>
    rw [hpayload] at hreceive
    cases hreceive
    refine ⟨payload, rfl, ?_⟩
    have hv : versionOf msg.headers = evt.version := by
      rw [versionOf, h.version, atoi_itoa hversion]
      rfl
    rw [h.restoreOccurredAt, h.aggregateID, h.aggregateType, h.metadata, h.eventID, hv,
      Event.withID, if_neg hid]
    rfl

end

end WolfCore.Messaging
