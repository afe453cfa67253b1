import WolfCore.Messenger.Upcast

/-!
# Registries and panics (`messenger/serde/registry.go`, `messenger/serde/json.go`)

`Decode` should return an envelope or an error for whatever it is given.  Its registry is filled by
`RegisterMessage`, with any version, and `RegisterUpcaster`.

`LatestType` looks for the greatest version with a search that starts at 0, so for a name that was
registered with versions that are not positive only, it returns the nil type, the version 0 and no
error; and `reflect.New` panics on the nil type.

* `registerMessage`, `registerUpcaster`, `build`: the registry after a sequence of calls;
* `latestType_nil_iff`: when `LatestType` returns the nil type;
* `decodeBytes_returns_iff`: when `Decode` returns.

Go leaves the order in which `LatestType` goes through the versions open; a list has one, but which
versions are registered is all that matters here.
-/

namespace WolfCore.Messenger

open Go

/-! ### Filling a registry -/

/-- A call that fills a registry. -/
inductive RegistryCall (T : Type)
  /-- `RegisterMessage`, with the type of its type parameter -/
  | message (name : String) (version : ℤ) (goType : T)
  /-- `RegisterUpcaster` -/
  | upcaster (name : String) (fromVersion : ℤ) (fn : Json.RawMessage → Except Err Json.RawMessage)

namespace TypeRegistry

variable {T : Type}

/-- `NewTypeRegistry`. -/
def new : TypeRegistry T := ⟨fun _ => none, fun _ _ => none⟩

/-- `RegisterMessage`. -/
def registerMessage (r : TypeRegistry T) (name : String) (version : ℤ) (goType : T) :
    TypeRegistry T :=
  let versions := (r.types name).getD []
  { r with
    types := Function.update r.types name
      (some (versions.filter (·.1 ≠ version) ++ [(version, goType)])) }

/-- `RegisterUpcaster`. -/
def registerUpcaster (r : TypeRegistry T) (name : String) (fromVersion : ℤ)
    (fn : Json.RawMessage → Except Err Json.RawMessage) : TypeRegistry T :=
  { r with
    upcasters := Function.update r.upcasters name
      (Function.update (r.upcasters name) fromVersion (some fn)) }

def register (r : TypeRegistry T) : RegistryCall T → TypeRegistry T
  | .message name version goType => r.registerMessage name version goType
  | .upcaster name fromVersion fn => r.registerUpcaster name fromVersion fn

/-- A new registry after the calls. -/
def build (calls : List (RegistryCall T)) : TypeRegistry T := calls.foldl register new

def Has (r : TypeRegistry T) (name : String) (version : ℤ) : Prop :=
  ∃ versions, r.types name = some versions ∧ ∃ goType, (version, goType) ∈ versions

theorem build_concat (calls : List (RegistryCall T)) (c : RegistryCall T) :
    build (calls ++ [c]) = (build calls).register c := by simp [build]

theorem has_registerMessage {r : TypeRegistry T} {name name' : String} {version version' : ℤ}
    {goType : T} :
    (r.registerMessage name version goType).Has name' version' ↔
      (name' = name ∧ version' = version) ∨ r.Has name' version' := by
  unfold Has registerMessage
  by_cases hname : name' = name
  · subst hname
    by_cases hversion : version' = version
    · subst hversion
      simp
    · cases r.types name' with
      | none => simp [hversion]
      | some versions => simp [hversion]
  · simp [hname]

/-- A registry has the versions that were registered. -/
theorem build_has {calls : List (RegistryCall T)} {name : String} {version : ℤ} :
    (build calls).Has name version ↔ ∃ goType, .message name version goType ∈ calls := by
  induction calls using List.reverseRecOn with
  | nil => simp [build, new, Has]
  | append_singleton calls c ih =>
    rw [build_concat]
    cases c with
    | message name' version' goType' =>
      show ((build calls).registerMessage name' version' goType').Has name version ↔ _
      rw [has_registerMessage, ih]
      constructor
      · rintro (⟨rfl, rfl⟩ | ⟨goType, hmem⟩)
        · exact ⟨goType', by simp⟩
        · exact ⟨goType, List.mem_append_left _ hmem⟩
      · rintro ⟨goType, hmem⟩
        rcases List.mem_append.1 hmem with hmem | hmem
        · exact Or.inr ⟨goType, hmem⟩
        · cases List.mem_singleton.1 hmem
          exact Or.inl ⟨rfl, rfl⟩
    | upcaster name' fromVersion fn =>
      show (build calls).Has name version ↔ _
      simp [ih]

/-- A name is in the map only with some version. -/
theorem build_types_ne_nil {calls : List (RegistryCall T)} {name : String} {versions : List (ℤ × T)}
    (h : (build calls).types name = some versions) : versions ≠ [] := by
  induction calls using List.reverseRecOn with
  | nil => cases h
  | append_singleton calls c ih =>
    rw [build_concat] at h
    cases c with
    | message name' version' goType' =>
      change ((build calls).registerMessage name' version' goType').types name = some versions at h
      by_cases hname : name = name'
      · subst hname
        simp only [registerMessage, Function.update_self, Option.some.injEq] at h
        rw [← h]
        simp
      · simp only [registerMessage, Function.update_of_ne hname] at h
        exact ih h
    | upcaster name' fromVersion fn => exact ih h

/-! ### The latest type -/

/-- The search of `LatestType` finds nothing if no version is greater than the one it starts
with. -/
theorem foldl_fst_eq_none_iff {versions : List (ℤ × T)} {best : Option T × ℤ} :
    (versions.foldl (fun best v => if v.1 > best.2 then (some v.2, v.1) else best) best).1 = none ↔
      best.1 = none ∧ ∀ v ∈ versions, v.1 ≤ best.2 := by
  induction versions generalizing best with
  | nil => simp
  | cons v versions ih =>
    rw [List.foldl_cons, ih]
    split_ifs with hv
    · simp only [List.forall_mem_cons, false_and, false_iff]
      omega
    · simp only [List.forall_mem_cons]
      refine and_congr_right fun _ => ?_
      exact ⟨fun h => ⟨by omega, h⟩, fun h => h.2⟩

theorem foldl_of_le {versions : List (ℤ × T)} {best : Option T × ℤ}
    (h : ∀ v ∈ versions, v.1 ≤ best.2) :
    versions.foldl (fun best v => if v.1 > best.2 then (some v.2, v.1) else best) best = best := by
  induction versions with
  | nil => rfl
  | cons v versions ih =>
    obtain ⟨hv, hrest⟩ := List.forall_mem_cons.1 h
    rw [List.foldl_cons, if_neg (by omega), ih hrest]

/-- `LatestType` returns the nil type, without an error, for a name that was registered but never
with a positive version; the version is then 0. -/
theorem latestType_nil_iff {calls : List (RegistryCall T)} {name : String} {v : ℤ} :
    (build calls).latestType name = .ok (none, v) ↔ v = 0 ∧
      (∃ version goType, .message name version goType ∈ calls) ∧
        ∀ version goType, .message name version goType ∈ calls → version ≤ 0 := by
  have hcalls : ∀ version, (build calls).Has name version ↔
      ∃ goType, .message name version goType ∈ calls :=
    fun version => build_has
  simp only [← exists_imp, ← hcalls]
  unfold latestType Has
  cases htypes : (build calls).types name with
  | none => simp
  | some versions =>
    obtain ⟨first, hfirst⟩ := List.exists_mem_of_ne_nil _ (build_types_ne_nil htypes)
    have hle : (∀ version, (∃ vs, some versions = some vs ∧ ∃ goType, (version, goType) ∈ vs) →
        version ≤ 0) ↔
        ∀ e ∈ versions, e.1 ≤ 0 := by
      constructor
      · intro h e he
        exact h e.1 ⟨versions, rfl, e.2, he⟩
      · rintro h version ⟨_, ⟨⟩, goType, hmem⟩
        exact h _ hmem
    rw [hle]
    constructor
    · intro h
      have hfold := Except.ok.inj h
      have hall := (foldl_fst_eq_none_iff.1 (congrArg Prod.fst hfold)).2
      rw [foldl_of_le hall] at hfold
      exact ⟨(congrArg Prod.snd hfold).symm, ⟨first.1, versions, rfl, first.2, hfirst⟩, hall⟩
    · rintro ⟨rfl, -, hall⟩
      exact congrArg Except.ok (foldl_of_le hall)

end TypeRegistry

/-! ### Decoding -/

namespace JSONSerializer

variable {V T : Type} (s : JSONSerializer V T)

/-- `Decode` of bytes; `parse` gives the value of a JSON text. -/
def decodeBytes (parse : List UInt8 → Option Json) (data : List UInt8) :
    Outcome (Except Err (Envelope V)) :=
  match parse data with
  | none => .returned (.error (.wrap "serde: unmarshal wire: %w" none (.msg "invalid JSON text")))
  | some v => s.decode v

/-- The message is restored, or there is an error, unless the latest type is nil and the payload
reaches its version. -/
theorem restoreMessage_returns_iff (name : String) (version : ℤ) (payload : Json.RawMessage) :
    (∃ r, s.restoreMessage name version payload = .returned r) ↔
      ¬ ∃ latest out, s.registry.latestType name = .ok (none, latest) ∧
        s.registry.upcast name payload version latest = .ok out := by
  unfold restoreMessage
  cases htype : s.registry.latestType name with
  | error err => simp
  | ok best =>
    obtain ⟨goType, latest⟩ := best
    have hupcast : (if version < latest then s.registry.upcast name payload version latest
        else .ok payload) =
        s.registry.upcast name payload version latest := by
      split_ifs with hv
      · rfl
      · exact (TypeRegistry.upcast_of_le (by omega)).1.symm
    simp only [hupcast]
    cases hout : s.registry.upcast name payload version latest with
    | error err =>
      refine iff_of_true ⟨_, rfl⟩ ?_
      rintro ⟨_, _, heq, hok⟩
      cases heq
      rw [hout] at hok
      cases hok
    | ok out =>
      cases goType with
      | none => exact iff_of_false (fun ⟨_, h⟩ => by cases h) (fun h => h ⟨latest, out, rfl, hout⟩)
      | some goType => exact iff_of_true ⟨_, rfl⟩ (fun ⟨_, _, heq, _⟩ => by cases heq)

theorem rebuild_returns_iff (stamps : List (Stamp V)) (createdAt : ℤ) (o : Outcome (Except Err V)) :
    (∃ r, rebuild stamps createdAt o = .returned r) ↔ ∃ r, o = .returned r := by
  cases o <;> simp [rebuild]

/-- **When `Decode` returns.**  With a registry that any calls have filled, `Decode` of any bytes
returns an envelope or an error, unless they are a wire envelope whose message type was registered,
but never with a positive version, and whose payload the upcasters take to version 0 (there is
nothing to do if its version is not negative). -/
theorem decodeBytes_returns_iff (calls : List (RegistryCall T)) (parse : List UInt8 → Option Json)
    (data : List UInt8) :
    (∃ r, ({ s with registry := .build calls } : JSONSerializer V T).decodeBytes parse data =
      .returned r) ↔
      ¬ ∃ v wire payload, parse data = some v ∧ readWireEnvelope v = some wire ∧
        (∃ version goType, .message wire.messageType version goType ∈ calls) ∧
        (∀ version goType, .message wire.messageType version goType ∈ calls → version ≤ 0) ∧
        (TypeRegistry.build calls).upcast wire.messageType wire.payload wire.messageVersion.toInt
          0 = .ok payload := by
  unfold decodeBytes
  cases hparse : parse data with
  | none => simp
  | some v =>
    simp only [decode]
    cases hwire : readWireEnvelope v with
    | none => simp [hwire]
    | some wire =>
      simp only
      rw [rebuild_returns_iff, restoreMessage_returns_iff]
      simp only [TypeRegistry.latestType_nil_iff]
      refine not_congr ⟨?_, ?_⟩
      · rintro ⟨latest, payload, ⟨rfl, hknown, hle⟩, hup⟩
        exact ⟨v, wire, payload, rfl, hwire, hknown, hle, hup⟩
      · rintro ⟨_, wire', payload, ⟨⟩, hwire', hknown, hle, hup⟩
        obtain rfl : wire = wire' := Option.some.inj (hwire.symm.trans hwire')
        exact ⟨0, payload, ⟨rfl, hknown, hle⟩, hup⟩

end JSONSerializer

/-- A wire envelope without a version. -/
def unversionedText : List UInt8 := "\x7b\"message_type\":\"order.PlaceOrder\"\x7d".toUTF8.toList

/-- The value of this text; there are no others. -/
def parseUnversioned (data : List UInt8) : Option Json :=
  if data = unversionedText then some (.obj [("message_type", .str "order.PlaceOrder")]) else none

/-- `RegisterMessage` with version 0, and an envelope without a version: `Decode` panics. -/
theorem decodeBytes_panics :
    ({ orderSerializer with registry := .build [.message "order.PlaceOrder" 0 ()] } :
      JSONSerializer PlaceOrder Unit).decodeBytes parseUnversioned unversionedText =
        .panicked "reflect: New(nil)" := by
  unfold JSONSerializer.decodeBytes parseUnversioned
  rw [if_pos rfl]
  rfl

end WolfCore.Messenger
