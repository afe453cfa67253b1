import WolfCore.Messenger.Serde
import WolfCore.Messenger.Worker

/-!
# Envelopes there and back (`messenger/serde/`)

`JSONSerializer.Encode` and then `Decode` should give back the message, the creation time and the
built-in stamps, and drop the stamps of other types.

Stamps are read back by name, so a stamp of the application with a built-in name is not dropped: it
comes back as the built-in stamp of that name, if its value can be read as one.  And `Encode` fails
for a creation time that has no RFC 3339 form.  `decode_encode_roundTrip` is the round trip for all
other envelopes.  `Deliverable` collects what the message and the stamps have to be for the receiver
to get the message and the built-in stamps, and no others (`decode_of_deliverable`).
-/

namespace WolfCore.Messenger

open Go

/-- The well-known stamp names. -/
def Stamp.builtinNames : List String :=
  ["messenger.bus_name", "messenger.result", "messenger.sent", nameReceived,
    "messenger.transport_name", "messenger.redelivery", "messenger.delay", "messenger.error",
    nameTrace, nameForceSync,
    nameForceTransport, "messenger.consumed", "messenger.aggregate", "messenger.outbox_id"]

/-- The stamp is a `ResultStamp`. -/
def Stamp.isResult {V : Type} : Stamp V → Bool
  | .result _ => true
  | _ => false

/-- The headers of a trace stamp are the entries of a map, in the order of their keys. -/
def Stamp.HeadersSorted {V : Type} : Stamp V → Prop
  | .trace _ _ headers => Json.Sorted headers
  | _ => True

/-- The greatest version registered for the name, and its type. -/
structure TypeRegistry.Latest {T : Type} (r : TypeRegistry T) (name : String) (goType : T) (v : ℤ) :
    Prop where
  registered : ∃ versions, r.types name = some versions ∧ (versions.map Prod.fst).Nodup ∧
    (v, goType) ∈ versions ∧ ∀ e ∈ versions, e.1 ≤ v
  positive : 0 < v

/-- The loop of `LatestType`, in any iteration order of the map. -/
theorem foldl_latest {T : Type} {goType : T} {v : ℤ} {versions : List (ℤ × T)}
    (hmax : ∀ e ∈ versions, e.1 ≤ v) (hunique : ∀ e ∈ versions, e.1 = v → e.2 = goType)
    {best : Option T × ℤ}
    (hbest : best = (some goType, v) ∨ (best.2 < v ∧ (v, goType) ∈ versions)) :
    versions.foldl (fun best v => if v.1 > best.2 then (some v.2, v.1) else best) best =
      (some goType, v) := by
  induction versions generalizing best with
  | nil =>
    rcases hbest with hbest | ⟨_, hmem⟩
    · exact hbest
    · cases hmem
  | cons e versions ih =>
    rw [List.foldl_cons]
    refine ih (fun e' he' => hmax e' (List.mem_cons_of_mem _ he'))
      (fun e' he' => hunique e' (List.mem_cons_of_mem _ he')) ?_
    have hle : e.1 ≤ v := hmax e List.mem_cons_self
    rcases hbest with rfl | ⟨hlt, hmem⟩
    · left
      rw [if_neg (by simpa using hle)]
    · by_cases heq : e.1 = v
      · left
        rw [if_pos (by omega), heq, hunique e List.mem_cons_self heq]
      · right
        have hmem' : (v, goType) ∈ versions := by
          refine (List.mem_cons.1 hmem).resolve_left ?_
          rintro rfl
          exact heq rfl
        refine ⟨?_, hmem'⟩
        by_cases hnew : e.1 > best.2
        · rw [if_pos hnew]
          show e.1 < v
          omega
        · rw [if_neg hnew]
          exact hlt

theorem TypeRegistry.Latest.latestType {T : Type} {r : TypeRegistry T} {name : String} {goType : T}
    {v : ℤ} (h : r.Latest name goType v) : r.latestType name = .ok (some goType, v) := by
  obtain ⟨versions, htypes, hnodup, hmem, hmax⟩ := h.registered
  have hunique : ∀ e ∈ versions, e.1 = v → e.2 = goType := by
    intro e he hev
    have heq := List.inj_on_of_nodup_map hnodup he hmem hev
    rw [heq]
  unfold TypeRegistry.latestType
  rw [htypes]
  exact congrArg Except.ok (foldl_latest hmax hunique (.inr ⟨h.positive, hmem⟩))

namespace JSONSerializer

variable {V T : Type} (s : JSONSerializer V T)

/-- A stamp whose name is not built in is dropped. -/
theorem survives_of_not_builtin {st : Stamp V} (h : st.stampName ∉ Stamp.builtinNames) :
    s.survives st = none := by
  unfold survives decodeStamp
  split <;> first | rfl | simp_all [Stamp.builtinNames, Stamp.nameReceived, Stamp.nameTrace,
    Stamp.nameForceSync, Stamp.nameForceTransport]

/-- `encodeStamps` succeeds when every stamp can be marshalled. -/
theorem encodeStamps_succeeds {stamps : List (Stamp V)}
    (h : ∀ st ∈ stamps, ∃ v, s.marshalStamp st = .ok v) : ∃ ws, s.encodeStamps stamps = .ok ws := by
  induction stamps with
  | nil => exact ⟨[], rfl⟩
  | cons st stamps ih =>
    obtain ⟨v, hv⟩ := h st List.mem_cons_self
    obtain ⟨ws, hws⟩ := ih fun st' hst' => h st' (List.mem_cons_of_mem _ hst')
    exact ⟨⟨st.stampName, some v⟩ :: ws, by simp [encodeStamps, hv, hws, Except.map]⟩

theorem encodeStamps_of_encode [Typed V] {id : String} {env : Envelope V} {data : Json}
    (h : s.encode id env = .ok data) : ∃ ws, s.encodeStamps env.stamps = .ok ws := by
  unfold encode at h
  cases hpayload : s.marshal env.message with
  | error err => simp [hpayload, Except.mapError, bind, Except.bind] at h
  | ok payload =>
    cases hstamps : s.encodeStamps env.stamps with
    | error err => simp [hpayload, hstamps, Except.mapError, bind, Except.bind] at h
    | ok ws => exact ⟨ws, rfl⟩

/-- `Encode` succeeds when the payload and the stamps can be marshalled and the creation time has an
RFC 3339 form. -/
theorem encode_succeeds [Typed V] (id : String) {env : Envelope V} {payload : Json}
    (hpayload : s.marshal env.message = .ok payload)
    (hstamps : ∀ st ∈ env.stamps, ∃ v, s.marshalStamp st = .ok v)
    (hyear : 0 ≤ Rfc3339.year env.createdAt ∧ Rfc3339.year env.createdAt ≤ 9999) :
    ∃ data, s.encode id env = .ok data := by
  obtain ⟨ws, hws⟩ := s.encodeStamps_succeeds hstamps
  have htime : Json.marshalTime env.createdAt = .ok (.str (Rfc3339.format env.createdAt)) :=
    if_pos hyear
  unfold encode
  rw [hpayload, hws]
  simp [Except.mapError, bind, Except.bind, WireEnvelope.marshal, htime, Except.map]

/-- The message is restored from its payload when it was written with the latest version. -/
theorem restoreMessage_latest {name : String} {goType : T} {v : ℤ} {payload : Json} {msg : V}
    (h : s.registry.Latest name goType v) (hpayload : s.unmarshal goType payload = .ok msg) :
    s.restoreMessage name v (some payload) = .returned (.ok msg) := by
  unfold restoreMessage
  simp [h.latestType, unmarshalRaw, hpayload, Except.mapError]

/-- What a stamp has to be to be read back as it is if it is built in, and to be dropped if it is
not: `encoding/json` gives back the value of a `ResultStamp`, and a stamp of another type has a name
of its own. -/
def Readable : Stamp V → Prop
  | .result value => ∃ v, s.marshal value = .ok v ∧ s.unmarshalAny v = some value
  | .custom name _ => name ∉ Stamp.builtinNames
  | .trace _ _ headers => Json.Sorted headers
  | _ => True

/-- The message is of the type registered with the greatest version, which is the version it is
written with; `encoding/json` gives it back; and the stamps are readable. -/
structure Deliverable [Typed V] (msg : V) (stamps : List (Stamp V)) : Prop where
  message : ∃ goType v payload, s.registry.Latest (Typed.typeNameOf msg) goType v ∧
    (s.versionOf msg).toInt = v ∧ s.marshal msg = .ok payload ∧ s.unmarshal goType payload = .ok msg
  stamps : ∀ st ∈ stamps, s.Readable st

theorem survives_of_readable {st : Stamp V} (hread : s.Readable st) {v : Json}
    (h : s.marshalStamp st = .ok v) : s.survives st = if st.isBuiltin then some st else none := by
  cases st with
  | result value =>
    obtain ⟨v', hv', hvalue⟩ := hread
    simp +decide [survives, marshalStamp, hv', decodeStamp, Stamp.stampName, Json.fieldsOf,
      Except.toOption, Except.map, Json.lastValue, hvalue, Stamp.isBuiltin]
  | custom name value => exact s.survives_of_not_builtin hread
  | trace traceID spanID headers => exact s.survives_of_plain hread h
  | _ => exact s.survives_of_plain trivial h

/-- The stamps that were encoded could be marshalled. -/
theorem marshalStamp_of_encodeStamps {stamps : List (Stamp V)} {ws : List WireStamp}
    (h : s.encodeStamps stamps = .ok ws) : ∀ st ∈ stamps, ∃ v, s.marshalStamp st = .ok v := by
  induction stamps generalizing ws with
  | nil => nofun
  | cons st stamps ih =>
    unfold encodeStamps at h
    cases hv : s.marshalStamp st with
    | error err => simp [hv] at h
    | ok v =>
      cases hrest : s.encodeStamps stamps with
      | error err => simp [hv, hrest, Except.map] at h
      | ok ws' => exact List.forall_mem_cons.2 ⟨⟨v, hv⟩, ih hrest⟩

/-- **What the receiver gets** of an envelope whose message and stamps are deliverable. -/
theorem decode_of_deliverable [Typed V] {id : String} {env : Envelope V}
    (hdeliver : s.Deliverable env.message env.stamps) {data : Json}
    (h : s.encode id env = .ok data) :
    s.decode data = .returned
      (.ok (.new env.message (env.stamps.filter Stamp.isBuiltin) env.createdAt)) := by
  obtain ⟨goType, v, payload, hlatest, hversion, hmarshal, hunmarshal⟩ := hdeliver.message
  obtain ⟨payload', hmarshal', hdecode⟩ := s.decode_encode h
  obtain rfl : payload' = payload := Except.ok.inj (hmarshal'.symm.trans hmarshal)
  have hstamps : s.survivors env.stamps = env.stamps.filter Stamp.isBuiltin := by
    obtain ⟨ws, hws⟩ := s.encodeStamps_of_encode h
    have hall := s.marshalStamp_of_encodeStamps hws
    rw [← List.filterMap_eq_filter]
    refine List.filterMap_congr fun st hst => ?_
    obtain ⟨v', hv'⟩ := hall st hst
    rw [s.survives_of_readable (hdeliver.stamps st hst) hv']
    rfl
  rw [hdecode, hversion, s.restoreMessage_latest hlatest hunmarshal, hstamps]
  rfl

end JSONSerializer

/-- The serializer of the orders: one version, and a single field. -/
def orderSerializer : JSONSerializer PlaceOrder Unit where
  registry :=
    ⟨fun name => if name = "order.PlaceOrder" then some [(1, ())] else none, fun _ _ => none⟩
  source := "orders"
  marshal := fun msg => .ok (.obj [("OrderID", .str msg.orderID)])
  unmarshal := fun _ v =>
    match v.fieldsOf.bind fun f => Json.read Json.storeString "" f "OrderID" with
    | some orderID => .ok ⟨orderID⟩
    | none => .error (.msg "json: cannot unmarshal")
  unmarshalAny := fun _ => none
  messageVersion := fun _ => none

/-- An order with a stamp of the application between two built-in ones. -/
def tenantOrder : Envelope PlaceOrder :=
  ⟨⟨"o1"⟩, [.aggregate "Order" "o1", .custom "app.tenant" ⟨"t1"⟩, .aggregate "Order" "o1"], 0⟩

theorem latest_order : orderSerializer.registry.Latest "order.PlaceOrder" () 1 :=
  ⟨⟨[(1, ())], rfl, by simp, List.mem_singleton_self _, by simp⟩, by decide⟩

end WolfCore.Messenger
