import WolfCore.Messaging.EventStream

/-!
# Typed events on a stream (`event/type_registry.go`, `messaging/event_stream.go`)

An event reaches a subscriber of an `EventStream` in two ways: `EventStream.Publish` encodes its
payload with the type registry, and the relay's `streamEventPublisher` with `json.Marshal` alone.
Both write the same headers, and the subscriber decodes both with the registry (`publish_receive`).

`Deserialize` returns a pointer to the decoded value, also for a payload that was published by
value; consumers such as `EventDispatcher` accept both.

`encoding/json` is a parameter.
-/

namespace WolfCore

open Go

/-- A payload: a value of a registered type, or a pointer to one. -/
inductive Ref (V : Type)
  | value (v : V)
  | pointer (v : V)

/-- The value, or what the pointer points to. -/
def Ref.deref {V : Type} : Ref V → V
  | .value v | .pointer v => v

/-- `event.TypeRegistry`, with `json.Marshal` of a payload and `json.Unmarshal` into a new value of
a type. -/
structure TypeRegistry (V T : Type) where
  types : String → Option T
  marshal : Ref V → Except Err String
  unmarshal : T → String → Except Err V

namespace TypeRegistry

variable {V T : Type} (r : TypeRegistry V T)

/-- The type of a new instance that `Build` returns. -/
def build (eventType : String) : Except Err T :=
  match r.types eventType with
  | none => .error (.msg ("event: type " ++ eventType.quote ++ " not registered"))
  | some t => .ok t

/-- `Serialize`. -/
def serialize (eventType : String) (payload : Ref V) : Except Err String :=
  match r.types eventType with
  | none => .error (.msg ("event: type " ++ eventType.quote ++ " not registered"))
  | some _ => (r.marshal payload).mapError (.wrap "event: serialize %q: %w" (some eventType))

/-- `Deserialize`, which returns a pointer. -/
def deserialize (eventType data : String) : Except Err (Ref V) :=
  match r.build eventType with
  | .error err => .error err
  | .ok t =>
      ((r.unmarshal t data).map .pointer).mapError
        (.wrap "event: deserialize %q: %w" (some eventType))

end TypeRegistry

namespace Messaging

section

variable {V T : Type}

/-- The message `EventStream.Publish` sends on the subject. -/
def eventStreamMessage (r : TypeRegistry V T) (subject : String) (evt : Event (Ref V)) :
    Except Err RawMessage := do
  let data ← match evt.payload with
    | some payload =>
        (r.serialize evt.eventType payload).mapError
          (.wrap "event_stream: serialize %q: %w" (some evt.eventType))
    | none => .ok "\x7b\x7d"
  return ⟨evt.eventID, evt.eventType, subject, data, eventHeaders evt⟩

/-- The stream delivers the message: id, data and headers are unchanged. -/
structure Delivered (msg msg' : RawMessage) : Prop where
  id : msg'.id = msg.id
  data : msg'.data = msg.data
  headers : msg'.headers = msg.headers

/-- The subscriber gets the event the headers tell of when the registry decodes the payload. -/
theorem Carries.receive_ok {W : Type} {msg : RawMessage} {evt : Event W}
    (h : Carries msg.headers evt) (hid : evt.eventID ≠ "") (htype : evt.eventType ≠ "")
    (hversion : -2 ^ 63 ≤ evt.version ∧ evt.version < 2 ^ 63) {consumer : Consumer V} {payload : V}
    (hpayload : consumer.deserialize evt.eventType msg.data = .ok payload) (subject : String) :
    Messaging.receive consumer subject msg = .ok ⟨evt.eventID, evt.eventType, evt.aggregateID,
      evt.aggregateType, receivedAt consumer.now evt.occurredAt, evt.version, some payload,
        evt.metadata⟩ := by
  cases hreceive : Messaging.receive consumer subject msg with
  | ok evt' =>
    obtain ⟨payload', hpayload', rfl⟩ := h.receive hid hversion hreceive
    rw [hpayload] at hpayload'
    cases hpayload'
    rfl
  | error err =>
    unfold Messaging.receive at hreceive
    simp only [h.eventType, if_neg htype, hpayload] at hreceive
    cases hreceive

/-- An event that can go through a stream: it has an id and a type, a time whose year has four
digits, a version that is an `int`, and a payload of the registered type that `encoding/json` gives
back. -/
structure Streamable (r : TypeRegistry V T) (evt : Event (Ref V)) (payload : Ref V) : Prop where
  eventID : evt.eventID ≠ ""
  eventType : evt.eventType ≠ ""
  year : 1 ≤ Rfc3339.year evt.occurredAt ∧ Rfc3339.year evt.occurredAt ≤ 9999
  notZero : evt.occurredAt ≠ 0
  version : -2 ^ 63 ≤ evt.version ∧ evt.version < 2 ^ 63
  hasPayload : evt.payload = some payload
  roundTrip : ∃ goType data, r.types evt.eventType = some goType ∧ r.marshal payload = .ok data ∧
    r.unmarshal goType data = .ok payload.deref

/-- A message with the headers of the event and its encoded payload is received as the event. -/
theorem receive_delivered {r : TypeRegistry V T} {evt : Event (Ref V)} {payload : Ref V}
    (h : Streamable r evt payload) {goType : T} {data : String}
    (hreg : r.types evt.eventType = some goType)
    (hdata : r.unmarshal goType data = .ok payload.deref) {msg msg' : RawMessage}
    (hmsg : msg.data = data ∧ msg.headers = eventHeaders evt)
    (hdelivered : Delivered msg msg') (uuid : String) (now : ℤ) (subject : String) :
    receive ⟨r.deserialize, uuid, now⟩ subject msg' =
      .ok { evt with payload := some (.pointer payload.deref) } := by
  have hcarries : Carries msg'.headers evt := by
    rw [hdelivered.headers, hmsg.2]
    exact carries_eventHeaders evt
  have hdeserialize : r.deserialize evt.eventType msg'.data = .ok (.pointer payload.deref) := by
    rw [hdelivered.data, hmsg.1]
    simp [TypeRegistry.deserialize, TypeRegistry.build, hreg, hdata, Except.map, Except.mapError]
  have htime : receivedAt now evt.occurredAt = evt.occurredAt :=
    if_pos ⟨by have := h.year.1; omega, h.year.2, h.notZero⟩
  rw [hcarries.receive_ok h.eventID h.eventType h.version hdeserialize subject, htime]

/-- **Events there and back.**  Both ways to publish a streamable event succeed, and however the
stream delivers the message, the subscriber receives the event, with a pointer to its payload. -/
theorem publish_receive (r : TypeRegistry V T) (evt : Event (Ref V)) (payload : Ref V)
    (h : Streamable r evt payload) (subject : String) :
    (∃ msg, eventStreamMessage r subject evt = .ok msg ∧ ∀ msg', Delivered msg msg' →
      ∀ uuid now subject', receive ⟨r.deserialize, uuid, now⟩ subject' msg' =
        .ok { evt with payload := some (.pointer payload.deref) }) ∧
    ∃ msg, streamMessage r.marshal { evt with payload := some (.value payload) } = .ok msg ∧
      ∀ msg', Delivered msg msg' →
        ∀ uuid now subject', receive ⟨r.deserialize, uuid, now⟩ subject' msg' =
          .ok { evt with payload := some (.pointer payload.deref) } := by
  obtain ⟨goType, data, hreg, hmarshal, hunmarshal⟩ := h.roundTrip
  refine ⟨⟨⟨evt.eventID, evt.eventType, subject, data, eventHeaders evt⟩, ?_, ?_⟩,
    ⟨⟨evt.eventID, evt.eventType, evt.eventType, data, eventHeaders evt⟩, ?_, ?_⟩⟩
  · simp [eventStreamMessage, h.hasPayload, TypeRegistry.serialize, hreg, hmarshal,
      Except.mapError, bind, Except.bind, pure, Except.pure]
  · intro msg' hdelivered uuid now subject'
    exact receive_delivered h hreg hunmarshal ⟨rfl, rfl⟩ hdelivered uuid now subject'
  · have hheaders : eventHeaders { evt with payload := some (Payload.value payload) } =
        eventHeaders evt := rfl
    simp [streamMessage, marshalPayload, hmarshal, hheaders, Except.mapError, bind,
      Except.bind, pure, Except.pure]
  · intro msg' hdelivered uuid now subject'
    exact receive_delivered h hreg hunmarshal ⟨rfl, rfl⟩ hdelivered uuid now subject'

end

/-- A registry of one event, whose payload is a string. -/
def placedRegistry : TypeRegistry String Unit where
  types eventType := if eventType = "order.placed.v1" then some () else none
  marshal payload := .ok payload.deref
  unmarshal _ data := .ok data

/-- An order, placed in the second year, with two metadata fields left empty. -/
def orderPlaced : Event (Ref String) :=
  ⟨"e1", "order.placed.v1", "ord-001", "Order", 31536000000000001, -3, some (.pointer "ord-001"),
    ⟨"trace-xyz", "", "", "order-service"⟩⟩

theorem publish_receive_orderPlaced :
    ∃ msg, eventStreamMessage placedRegistry "events.orders" orderPlaced = .ok msg ∧
      receive ⟨placedRegistry.deserialize, "u1", 0⟩ "events.orders" msg = .ok orderPlaced := by
  have hstreamable : Streamable placedRegistry orderPlaced (.pointer "ord-001") :=
    ⟨by decide, by decide, by decide, by decide, by decide, rfl, ⟨(), "ord-001", rfl, rfl, rfl⟩⟩
  obtain ⟨⟨msg, hmsg, hreceive⟩, -⟩ :=
    publish_receive placedRegistry orderPlaced (.pointer "ord-001") hstreamable "events.orders"
  exact ⟨msg, hmsg, hreceive msg ⟨rfl, rfl, rfl⟩ "u1" 0 "events.orders"⟩

end Messaging

end WolfCore
