import WolfCore.Lib.Json
import WolfCore.Messenger.Envelope

/-!
# Envelopes on the wire (`messenger/serde/`)

`JSONSerializer` writes an envelope as a JSON object with the message, its type name and version,
the stamps and the creation time, and reads it back.  The built-in stamps are read back by their
names; other stamps are skipped.

`decode_encode` says what becomes of an envelope: the message is what the registry makes of the
payload, the creation time is the same instant, and the stamps are those that survive
(`survivors`).  A built-in stamp survives as it is (`survives_of_plain`), but for the value of a
`ResultStamp`.

`json.Marshal` and `json.Unmarshal` of messages and of values of type `any` are parameters.
-/

namespace WolfCore.Messenger

open Go

/-! ### The type registry -/

/-- `TypeRegistry`: the Go types of a message by version, and the upcasters. -/
structure TypeRegistry (T : Type) where
  types : String → Option (List (ℤ × T))
  upcasters : String → ℤ → Option (Json.RawMessage → Except Err Json.RawMessage)

namespace TypeRegistry

variable {T : Type}

/-- `LatestType`: the greatest positive version, and its type.  Without one the type is nil. -/
def latestType (r : TypeRegistry T) (name : String) : Except Err (Option T × ℤ) :=
  match r.types name with
  | none => .error (.msg ("serde: unknown message type " ++ name.quote))
  | some versions =>
      .ok (versions.foldl (fun best v => if v.1 > best.2 then (some v.2, v.1) else best) (none, 0))

/-- The loop of `Upcast`: `n` upcasters, from version `v` on. -/
def upcastFrom (r : TypeRegistry T) (name : String) :
    ℕ → ℤ → Json.RawMessage → Except Err Json.RawMessage
  | 0, _, current => .ok current
  | n + 1, v, current =>
      match r.upcasters name v with
      | none =>
          .error (.msg ("serde: no upcaster for " ++ name.quote ++ " from version " ++ itoa v))
      | some fn =>
          match fn current with
          | .error err => .error (.wrap ("serde: upcaster failed for %q v" ++ itoa v ++ "→v" ++
              itoa (v + 1) ++ ": %w") (some name) err)
          | .ok current => upcastFrom r name n (v + 1) current

/-- `Upcast`. -/
def upcast (r : TypeRegistry T) (name : String) (data : Json.RawMessage)
    (fromVersion toVersion : ℤ) : Except Err Json.RawMessage :=
  upcastFrom r name (toVersion - fromVersion).toNat fromVersion data

end TypeRegistry

/-- `JSONSerializer`, with the parts of `encoding/json` that depend on Go types: `json.Marshal` of a
value, `json.Unmarshal` into a new value of a type and into an `any`, and `MessageVersion` of a
message that is `Versioned`. -/
structure JSONSerializer (V T : Type) where
  registry : TypeRegistry T
  source : String
  marshal : V → Except Err Json
  unmarshal : T → Json → Except Err V
  unmarshalAny : Json → Option V
  messageVersion : V → Option Int64

/-- `WireStamp`. -/
structure WireStamp where
  name : String
  value : Json.RawMessage

/-- `WireEnvelope`. -/
structure WireEnvelope where
  schemaVersion : Int64
  messageType : String
  messageVersion : Int64
  payload : Json.RawMessage
  stamps : List WireStamp
  id : String
  source : String
  createdAt : ℤ

/-! ### The wire format -/

/-- A stamp on the wire; a nil value is written as null. -/
def WireStamp.marshal (ws : WireStamp) : Json :=
  .obj [("name", .str ws.name), ("value", ws.value.getD .null)]

/-- `json.Marshal` of a wire envelope; a nil slice of stamps is written as null. -/
def WireEnvelope.marshal (w : WireEnvelope) : Except Err Json :=
  (Json.marshalTime w.createdAt).map fun createdAt => .obj [
    ("schema_version", .ofInt64 w.schemaVersion),
    ("message_type", .str w.messageType),
    ("message_version", .ofInt64 w.messageVersion),
    ("payload", w.payload.getD .null),
    ("stamps", if w.stamps = [] then .null else .arr (w.stamps.map WireStamp.marshal)),
    ("id", .str w.id),
    ("source", .str w.source),
    ("created_at", createdAt)]

/-- Storing in a `WireStamp`: what the object does not name stays. -/
def storeWireStamp (old : WireStamp) (v : Json) : Option WireStamp :=
  v.fieldsOf.bind fun f => (Json.read Json.storeString old.name f "name").map fun name =>
    ⟨name, (Json.lastValue f "value").or old.value⟩

/-- A `[]WireStamp`: the elements of its array, and its length. -/
structure WireStamps where
  array : List WireStamp
  len : ℕ

/-- Storing items in the elements of an array, which keep what an item does not name; an element
that is not there yet is zero. -/
def storeItems : List WireStamp → List Json → Option (List WireStamp)
  | array, [] => some array
  | [], v :: items => do
      let ws ← storeWireStamp ⟨"", none⟩ v
      return ws :: (← storeItems [] items)
  | ws :: array, v :: items => do
      let ws ← storeWireStamp ws v
      return ws :: (← storeItems array items)

/-- Storing in a `[]WireStamp`.  The array is used again, unless there are no items. -/
def storeWireStamps (old : WireStamps) : Json → Option WireStamps
  | .null | .arr [] => some ⟨[], 0⟩
  | .arr items => (storeItems old.array items).map fun array => ⟨array, items.length⟩
  | _ => none

/-- `json.Unmarshal` into a wire envelope. -/
def readWireEnvelope (v : Json) : Option WireEnvelope := do
  let f ← v.fieldsOf
  let schemaVersion ← Json.read Json.storeInt64 0 f "schema_version"
  let messageType ← Json.read Json.storeString "" f "message_type"
  let messageVersion ← Json.read Json.storeInt64 0 f "message_version"
  let stamps ← Json.read storeWireStamps ⟨[], 0⟩ f "stamps"
  let id ← Json.read Json.storeString "" f "id"
  let source ← Json.read Json.storeString "" f "source"
  let createdAt ← Json.read Json.storeTime 0 f "created_at"
  return ⟨schemaVersion, messageType, messageVersion, Json.lastValue f "payload",
    stamps.array.take stamps.len, id, source, createdAt⟩

theorem storeWireStamp_marshal {ws : WireStamp} (h : ws.value.isSome) (old : WireStamp) :
    storeWireStamp old ws.marshal = some ws := by
  obtain ⟨name, _ | v⟩ := ws
  · cases h
  · simp +decide [storeWireStamp, WireStamp.marshal, Json.fieldsOf, Json.read, Json.lastValue]

theorem storeItems_marshal {stamps : List WireStamp} (h : ∀ ws ∈ stamps, ws.value.isSome) :
    storeItems [] (stamps.map WireStamp.marshal) = some stamps := by
  induction stamps with
  | nil => rfl
  | cons ws stamps ih =>
    rw [List.map_cons, storeItems, storeWireStamp_marshal (h ws List.mem_cons_self),
      ih fun ws' hws' => h ws' (List.mem_cons_of_mem _ hws')]
    rfl

theorem storeWireStamps_marshal {stamps : List WireStamp} (h : ∀ ws ∈ stamps, ws.value.isSome) :
    storeWireStamps ⟨[], 0⟩ (if stamps = [] then .null else .arr (stamps.map WireStamp.marshal)) =
      some ⟨stamps, stamps.length⟩ := by
  cases stamps with
  | nil => rfl
  | cons ws stamps =>
    have hitems := storeItems_marshal h
    rw [if_neg (List.cons_ne_nil _ _)]
    simp only [List.map_cons] at hitems ⊢
    simp [storeWireStamps, hitems]

theorem readWireEnvelope_marshal {w : WireEnvelope} (hpayload : w.payload.isSome)
    (hstamps : ∀ ws ∈ w.stamps, ws.value.isSome) {v : Json} (h : w.marshal = .ok v) :
    readWireEnvelope v = some w := by
  obtain ⟨schemaVersion, messageType, messageVersion, _ | payload, stamps, id, source, createdAt⟩ :=
    w
  · cases hpayload
  unfold WireEnvelope.marshal at h
  cases ht : Json.marshalTime createdAt with
  | error err => simp [ht, Except.map] at h
  | ok t =>
    simp only [ht, Except.map, Except.ok.injEq] at h
    subst h
    simp +decide [readWireEnvelope, Json.fieldsOf, Json.read, Json.lastValue,
      storeWireStamps_marshal hstamps, Json.storeTime_of_marshalTime ht]

-- the second array of stamps is stored over the first one
example :
    readWireEnvelope (.obj [("MESSAGE_TYPE", .str "order.PlaceOrder"), ("message_type", .null),
    ("stamps", .arr [.obj [("name", .str "messenger.delay")]]), ("Stamps", .arr [.null, .null])]) =
    some ⟨0, "order.PlaceOrder", 0, none, [⟨"messenger.delay", none⟩, ⟨"", none⟩], "", "", 0⟩ := rfl

/-- Whether the stamp is one of the package `stamp`. -/
def Stamp.isBuiltin {V : Type} : Stamp V → Bool
  | .custom _ _ => false
  | _ => true

namespace JSONSerializer

variable {V T : Type} (s : JSONSerializer V T)

/-! ### Stamps -/

/-- `json.Marshal` of a stamp. -/
def marshalStamp : Stamp V → Except Err Json
  | .busName name => .ok (.obj [("Name", .str name)])
  | .result value => (s.marshal value).map fun v => .obj [("Value", v)]
  | .sent transport sentAt =>
      (Json.marshalTime sentAt).map fun t => .obj [("Transport", .str transport), ("SentAt", t)]
  | .received transport receivedAt =>
      (Json.marshalTime receivedAt).map fun t =>
        .obj [("Transport", .str transport), ("ReceivedAt", t)]
  | .transportName name => .ok (.obj [("Name", .str name)])
  | .redelivery retryCount lastError =>
      .ok (.obj [("RetryCount", .ofInt64 retryCount), ("LastError", .str lastError)])
  | .delay duration => .ok (.obj [("Duration", .ofInt64 duration)])
  | .error err occurredAt =>
      (Json.marshalTime occurredAt).map fun t => .obj [("Err", .str err), ("OccurredAt", t)]
  | .trace traceID spanID headers =>
      .ok (.obj (Json.omitEmpty (traceID = "") "trace_id" (.str traceID) ++
        Json.omitEmpty (spanID = "") "span_id" (.str spanID) ++
        Json.omitEmpty (headers = []) "headers" (.ofStringMap headers)))
  | .forceSync => .ok (.obj [])
  | .forceTransport transportName => .ok (.obj [("TransportName", .str transportName)])
  | .consumedBy handler duration =>
      .ok (.obj [("Handler", .str handler), ("Duration", .ofInt64 duration)])
  | .aggregate type id => .ok (.obj [("type", .str type), ("id", .str id)])
  | .outboxID entryID => .ok (.obj [("entry_id", .str entryID)])
  | .custom _ value => s.marshal value

/-- `encodeStamps`. -/
def encodeStamps : List (Stamp V) → Except Err (List WireStamp)
  | [] => .ok []
  | st :: stamps =>
      match s.marshalStamp st with
      | .error err => .error (.wrap "serde: marshal stamp %q: %w" (some st.stampName) err)
      | .ok v => (encodeStamps stamps).map (⟨st.stampName, some v⟩ :: ·)

/-- `decodeStamp`. -/
def decodeStamp (name : String) (value : Json.RawMessage) : Option (Stamp V) :=
  let string (name : String) (f : List (String × Json)) := Json.read Json.storeString "" f name
  let int (name : String) (f : List (String × Json)) := Json.read Json.storeInt64 0 f name
  let time (name : String) (f : List (String × Json)) := Json.read Json.storeTime 0 f name
  let fields := value.bind Json.fieldsOf
  match name with
  | "messenger.bus_name" => fields.bind fun f => (string "Name" f).map .busName
  | "messenger.result" => fields.bind fun f =>
      (s.unmarshalAny ((Json.lastValue f "Value").getD .null)).map .result
  | "messenger.sent" => fields.bind fun f =>
      (string "Transport" f).bind fun transport => (time "SentAt" f).map (.sent transport)
  | "messenger.received" => fields.bind fun f =>
      (string "Transport" f).bind fun transport => (time "ReceivedAt" f).map (.received transport)
  | "messenger.transport_name" => fields.bind fun f => (string "Name" f).map .transportName
  | "messenger.redelivery" => fields.bind fun f =>
      (int "RetryCount" f).bind fun retryCount => (string "LastError" f).map
        (.redelivery retryCount)
  | "messenger.delay" => fields.bind fun f => (int "Duration" f).map .delay
  | "messenger.error" => fields.bind fun f =>
      (string "Err" f).bind fun err => (time "OccurredAt" f).map (.error err)
  | "messenger.trace" => fields.bind fun f =>
      (string "trace_id" f).bind fun traceID => (string "span_id" f).bind fun spanID =>
        (Json.read Json.storeStringMap [] f "headers").map (.trace traceID spanID)
  | "messenger.force_sync" => some .forceSync
  | "messenger.force_transport" => fields.bind fun f =>
      (string "TransportName" f).map .forceTransport
  | "messenger.consumed" => fields.bind fun f =>
      (string "Handler" f).bind fun handler => (int "Duration" f).map (.consumedBy handler)
  | "messenger.aggregate" => fields.bind fun f =>
      (string "type" f).bind fun type => (string "id" f).map (.aggregate type)
  | "messenger.outbox_id" => fields.bind fun f => (string "entry_id" f).map .outboxID
  | _ => none

/-- `decodeStamps`: stamps that cannot be read are skipped. -/
def decodeStamps (stamps : List WireStamp) : List (Stamp V) :=
  stamps.filterMap fun ws => s.decodeStamp ws.name ws.value

/-- What is read back of a stamp. -/
def survives (st : Stamp V) : Option (Stamp V) :=
  s.decodeStamp st.stampName (s.marshalStamp st).toOption

/-- What is read back of a list of stamps. -/
def survivors (stamps : List (Stamp V)) : List (Stamp V) := stamps.filterMap s.survives

/-- A built-in stamp other than a `ResultStamp`, with the headers of a trace in the order of their
keys. -/
def Plain : Stamp V → Prop
  | .result _ | .custom _ _ => False
  | .trace _ _ headers => Json.Sorted headers
  | _ => True

theorem survives_of_marshalTime {st : Stamp V} {t : ℤ} {f : Json → Json}
    (hst : s.marshalStamp st = (Json.marshalTime t).map f) {v : Json}
    (h : s.marshalStamp st = .ok v) (hread : ∀ v', Json.storeTime 0 v' = some t →
      s.decodeStamp st.stampName (some (f v')) = some st) :
    s.survives st = some st := by
  unfold survives
  rw [hst] at h ⊢
  cases ht : Json.marshalTime t with
  | error err => rw [ht] at h; cases h
  | ok v' => exact hread v' (Json.storeTime_of_marshalTime ht 0)

/-- **A built-in stamp that can be written is read back as it is**, but for a `ResultStamp`. -/
theorem survives_of_plain {st : Stamp V} (hplain : Plain st) {v : Json}
    (h : s.marshalStamp st = .ok v) : s.survives st = some st := by
  cases st with
  | result value => exact hplain.elim
  | custom name value => exact hplain.elim
  | sent transport sentAt =>
    exact s.survives_of_marshalTime rfl h fun v' hv' => by
      simp +decide [decodeStamp, Stamp.stampName, Json.fieldsOf, Json.read, hv']
  | received transport receivedAt =>
    exact s.survives_of_marshalTime rfl h fun v' hv' => by
      simp +decide [decodeStamp, Stamp.stampName, Stamp.nameReceived, Json.fieldsOf, Json.read, hv']
  | error err occurredAt =>
    exact s.survives_of_marshalTime rfl h fun v' hv' => by
      simp +decide [decodeStamp, Stamp.stampName, Json.fieldsOf, Json.read, hv']
  | trace traceID spanID headers =>
    -- an empty field is absent, and an absent one is read as empty
    have hstring : ∀ x, List.foldlM Json.storeString "" (if x = "" then [] else [.str x]) =
        some x := by
      intro x
      by_cases hx : x = "" <;> simp [hx]
    have hheaders : List.foldlM Json.storeStringMap [] (if headers = [] then [] else
        [Json.ofStringMap headers]) = some headers := by
      by_cases hnil : headers = []
      · simp [hnil]
      · simp [hnil, Json.storeStringMap_ofStringMap hplain]
    simp +decide [survives, marshalStamp, decodeStamp, Stamp.stampName, Stamp.nameTrace,
      Json.fieldsOf, Except.toOption, Json.read, Json.values_append, Json.values_omitEmpty, hstring,
      hheaders]
  | _ => simp +decide [survives, marshalStamp, decodeStamp, Stamp.stampName, Stamp.nameForceSync,
      Stamp.nameForceTransport, Json.fieldsOf, Except.toOption, Json.read]

/-! ### Encoding and decoding -/

/-- The version written with a message. -/
def versionOf (msg : V) : Int64 := (s.messageVersion msg).getD 1

/-- `JSONSerializer.Encode`, with the random id. -/
def encode [Typed V] (id : String) (env : Envelope V) : Except Err Json := do
  let payload ← (s.marshal env.message).mapError (.wrap "serde: marshal payload: %w" none)
  let stamps ← s.encodeStamps env.stamps
  WireEnvelope.marshal ⟨1, Typed.typeNameOf env.message, s.versionOf env.message,
    some payload, stamps, id, s.source, env.createdAt⟩

/-- `json.Unmarshal` of the payload into a new value of the type. -/
def unmarshalRaw (goType : T) : Json.RawMessage → Except Err V
  | none => .error (.msg "unexpected end of JSON input")
  | some v => s.unmarshal goType v

/-- The part of `Decode` that restores the message. -/
def restoreMessage (messageType : String) (messageVersion : ℤ) (payload : Json.RawMessage) :
    Outcome (Except Err V) :=
  match s.registry.latestType messageType with
  | .error err => .returned (.error err)
  | .ok (goType, latestVersion) =>
      match (if messageVersion < latestVersion then
          s.registry.upcast messageType payload messageVersion latestVersion else .ok payload) with
      | .error err => .returned (.error err)
      | .ok payload =>
          match goType with
          | none => .panicked "reflect: New(nil)"
          | some goType => .returned ((s.unmarshalRaw goType payload).mapError
              (.wrap "serde: unmarshal payload for %q: %w" (some messageType)))

/-- The envelope around a restored message. -/
def rebuild (stamps : List (Stamp V)) (createdAt : ℤ) :
    Outcome (Except Err V) → Outcome (Except Err (Envelope V))
  | .returned r => .returned (r.map fun msg => .new msg stamps createdAt)
  | .panicked p => .panicked p

/-- `JSONSerializer.Decode`. -/
def decode (data : Json) : Outcome (Except Err (Envelope V)) :=
  match readWireEnvelope data with
  | none =>
      .returned (.error (.wrap "serde: unmarshal wire: %w" none (.msg "json: cannot unmarshal")))
  | some wire => rebuild (s.decodeStamps wire.stamps) wire.createdAt
      (s.restoreMessage wire.messageType wire.messageVersion.toInt wire.payload)

/-- Stamps that were encoded are decoded to those that survive. -/
theorem decodeStamps_of_encodeStamps {stamps : List (Stamp V)} {ws : List WireStamp}
    (h : s.encodeStamps stamps = .ok ws) :
    s.decodeStamps ws = s.survivors stamps ∧ ∀ w ∈ ws, w.value.isSome := by
  induction stamps generalizing ws with
  | nil =>
    cases h
    exact ⟨rfl, nofun⟩
  | cons st stamps ih =>
    unfold encodeStamps at h
    cases hv : s.marshalStamp st with
    | error err => simp [hv] at h
    | ok v =>
      cases hrest : s.encodeStamps stamps with
      | error err => simp [hv, hrest, Except.map] at h
      | ok ws' =>
        simp only [hv, hrest, Except.map, Except.ok.injEq] at h
        subst h
        obtain ⟨hdecode, hsome⟩ := ih hrest
        have hst : s.survives st = s.decodeStamp st.stampName (some v) := by
          rw [survives, hv]
          rfl
        refine ⟨?_, ?_⟩
        · rw [survivors, List.filterMap_cons, hst, ← survivors, ← hdecode]
          rfl
        · rintro w (_ | ⟨_, hw⟩)
          · rfl
          · exact hsome w hw

/-- **What becomes of an envelope on the wire.** -/
theorem decode_encode [Typed V] {id : String} {env : Envelope V} {data : Json}
    (h : s.encode id env = .ok data) :
    ∃ payload, s.marshal env.message = .ok payload ∧
      s.decode data = rebuild (s.survivors env.stamps) env.createdAt
        (s.restoreMessage (Typed.typeNameOf env.message) (s.versionOf env.message).toInt
          (some payload)) := by
  unfold encode at h
  cases hpayload : s.marshal env.message with
  | error err => simp [hpayload, Except.mapError, bind, Except.bind] at h
  | ok payload =>
    cases hstamps : s.encodeStamps env.stamps with
    | error err => simp [hpayload, hstamps, Except.mapError, bind, Except.bind] at h
    | ok ws =>
      simp only [hpayload, hstamps, Except.mapError, bind, Except.bind] at h
      obtain ⟨hdecode, hsome⟩ := s.decodeStamps_of_encodeStamps hstamps
      refine ⟨payload, rfl, ?_⟩
      unfold decode
      rw [readWireEnvelope_marshal rfl hsome h]
      simp only [hdecode]

end JSONSerializer

end WolfCore.Messenger
