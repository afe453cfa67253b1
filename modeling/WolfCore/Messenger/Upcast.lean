import WolfCore.Messenger.RoundTrip

/-!
# Chains of upcasters (`messenger/serde/registry.go`, `messenger/serde/json.go`)

`Upcast` takes the payload of a message from one version to another, one upcaster for each version
between. `Decode` uses it for a message that was written before the latest version.

* `IsChain`: the data at each version, each upcaster applied to what the one before it made;
* `upcastCalls`, `decodeCalls`: the calls of upcasters that `Upcast` and `Decode` make, in order,
  each with the version of the upcaster and the data it is given;
* `upcastFrom_eq_ok_iff`, `upcastCalls_of_isChain`, `upcastFrom_add`: the loop of `Upcast`;
* `upcast_chain`: what `Upcast` and `Decode` do with a chain.
-/

namespace WolfCore.Messenger

open Go

namespace TypeRegistry

variable {T : Type} (r : TypeRegistry T) (name : String)

/-- The versions from `a` up to but not including `c`, in increasing order. -/
def versions (a c : ℤ) : List ℤ := (List.range (c - a).toNat).map fun i : ℕ => a + i

/-- `d v` is the data at version `v`: for each version from `a` up to but not including `c` there is
an upcaster, and it makes the data at the next version. -/
def IsChain (a c : ℤ) (d : ℤ → Json.RawMessage) : Prop :=
  ∀ v, a ≤ v → v < c → ∃ fn, r.upcasters name v = some fn ∧ fn (d v) = .ok (d (v + 1))

/-- The calls of upcasters in the loop of `Upcast`. -/
def callsFrom : ℕ → ℤ → Json.RawMessage → List (ℤ × Json.RawMessage)
  | 0, _, _ => []
  | n + 1, v, current =>
      match r.upcasters name v with
      | none => []
      | some fn =>
          match fn current with
          | .error _ => [(v, current)]
          | .ok next => (v, current) :: callsFrom n (v + 1) next

/-- The calls of upcasters that `Upcast` makes. -/
def upcastCalls (data : Json.RawMessage) (fromVersion toVersion : ℤ) : List (ℤ × Json.RawMessage) :=
  r.callsFrom name (toVersion - fromVersion).toNat fromVersion data

variable {r name}

theorem IsChain.tail {v : ℤ} {n : ℕ} {d : ℤ → Json.RawMessage}
    (h : r.IsChain name v (v + (n + 1 : ℕ)) d) : r.IsChain name (v + 1) (v + 1 + n) d := by
  intro w hvw hwn
  apply h w <;> push_cast <;> omega

theorem IsChain.cons {v c : ℤ} {d : ℤ → Json.RawMessage} {data : Json.RawMessage}
    {fn : Json.RawMessage → Except Err Json.RawMessage} (hfn : r.upcasters name v = some fn)
    (hdata : fn data = .ok (d (v + 1))) (h : r.IsChain name (v + 1) c d) :
    r.IsChain name v c (Function.update d v data) := by
  intro w hvw hwc
  have hnext : Function.update d v data (w + 1) = d (w + 1) := Function.update_of_ne (by omega) _ _
  rw [hnext]
  by_cases hw : w = v
  · subst hw
    exact ⟨fn, hfn, by rw [Function.update_self]; exact hdata⟩
  · rw [Function.update_of_ne hw]
    exact h w (by omega) hwc

/-- The loop of `Upcast` succeeds exactly along chains. -/
theorem upcastFrom_eq_ok_iff {n : ℕ} {v : ℤ} {data out : Json.RawMessage} :
    r.upcastFrom name n v data = .ok out ↔
      ∃ d, r.IsChain name v (v + n) d ∧ d v = data ∧ d (v + n) = out := by
  induction n generalizing v data with
  | zero =>
    simp only [upcastFrom, Except.ok.injEq, Nat.cast_zero, add_zero]
    constructor
    · rintro rfl
      exact ⟨fun _ => data, fun w hvw hwv => absurd hwv (by omega), rfl, rfl⟩
    · rintro ⟨d, -, rfl, rfl⟩
      rfl
  | succ n ih =>
    have hlast : v + 1 + (n : ℤ) = v + (n + 1 : ℕ) := by
      push_cast
      omega
    constructor
    · intro h
      unfold upcastFrom at h
      cases hfn : r.upcasters name v with
      | none => simp [hfn] at h
      | some fn =>
        cases hnext : fn data with
        | error err => simp [hfn, hnext] at h
        | ok next =>
          simp only [hfn, hnext] at h
          obtain ⟨d, hchain, rfl, rfl⟩ := ih.1 h
          refine ⟨Function.update d v data, ?_, Function.update_self _ _ _, ?_⟩
          · rw [← hlast]
            exact hchain.cons hfn hnext
          · rw [← hlast]
            exact Function.update_of_ne (by omega) _ _
    · rintro ⟨d, hchain, rfl, rfl⟩
      obtain ⟨fn, hfn, hnext⟩ := hchain v le_rfl (by push_cast; omega)
      have hrest : r.upcastFrom name n (v + 1) (d (v + 1)) = .ok (d (v + (n + 1 : ℕ))) :=
        ih.2 ⟨d, hchain.tail, rfl, by rw [hlast]⟩
      unfold upcastFrom
      simp only [hfn, hnext]
      exact hrest

/-- Along a chain, the loop calls each upcaster once, in increasing order. -/
theorem callsFrom_of_isChain {n : ℕ} {v : ℤ} {d : ℤ → Json.RawMessage}
    (h : r.IsChain name v (v + n) d) :
    r.callsFrom name n v (d v) = (List.range n).map fun i : ℕ => (v + i, d (v + i)) := by
  induction n generalizing v with
  | zero => rfl
  | succ n ih =>
    obtain ⟨fn, hfn, hnext⟩ := h v le_rfl (by push_cast; omega)
    have hshift : ∀ i : ℕ, v + 1 + (i : ℤ) = v + (i + 1 : ℕ) := by
      intro i
      push_cast
      omega
    unfold callsFrom
    simp only [hfn, hnext]
    rw [ih h.tail, List.range_succ_eq_map, List.map_cons, List.map_map]
    simp [hshift, Function.comp_def]

theorem upcastFrom_add (m n : ℕ) (v : ℤ) (data : Json.RawMessage) :
    r.upcastFrom name (m + n) v data =
      (r.upcastFrom name m v data).bind fun mid => r.upcastFrom name n (v + m) mid := by
  induction m generalizing v data with
  | zero => simp [upcastFrom, Except.bind]
  | succ m ih =>
    have hshift : v + 1 + (m : ℤ) = v + (m + 1 : ℕ) := by
      push_cast
      omega
    rw [Nat.add_right_comm]
    cases hfn : r.upcasters name v with
    | none => simp only [upcastFrom, hfn, Except.bind]
    | some fn =>
      cases hnext : fn data with
      | error err => simp only [upcastFrom, hfn, hnext, Except.bind]
      | ok next =>
        simp only [upcastFrom, hfn, hnext]
        rw [ih, hshift]

theorem toNat_sub_cast (a c : ℤ) : a + ((c - a).toNat : ℤ) = max a c := by omega

/-- A chain that goes no further than `a` says nothing. -/
theorem isChain_max_iff (a c : ℤ) (d : ℤ → Json.RawMessage) :
    r.IsChain name a (max a c) d ↔ r.IsChain name a c d := by
  constructor
  · intro h v hav hvc
    exact h v hav (by omega)
  · intro h v hav hvc
    exact h v hav (by omega)

theorem upcast_of_le {data : Json.RawMessage} {a c : ℤ} (h : c ≤ a) :
    r.upcast name data a c = .ok data ∧ r.upcastCalls name data a c = [] := by
  unfold upcast upcastCalls
  rw [Int.toNat_eq_zero.2 (by omega)]
  exact ⟨rfl, rfl⟩

end TypeRegistry

namespace JSONSerializer

variable {V T : Type} (s : JSONSerializer V T)

/-- The calls of upcasters that `Decode` makes. -/
def decodeCalls (data : Json) : List (ℤ × Json.RawMessage) :=
  match readWireEnvelope data with
  | none => []
  | some wire =>
      match s.registry.latestType wire.messageType with
      | .error _ => []
      | .ok (_, latestVersion) =>
          if wire.messageVersion.toInt < latestVersion then
            s.registry.upcastCalls wire.messageType wire.payload wire.messageVersion.toInt
              latestVersion
          else []

/-- What `Decode` makes of a payload of the latest version. -/
def unmarshalLatest (messageType : String) (goType : T) (payload : Json.RawMessage) :
    Except Err V :=
  (s.unmarshalRaw goType payload).mapError
    (.wrap "serde: unmarshal payload for %q: %w" (some messageType))

/-- `Decode` takes the payload to the latest version.  If it is written in that version or a later
one, there is nothing to do. -/
theorem restoreMessage_of_latest {name : String} {goType : T} {latest : ℤ}
    (h : s.registry.Latest name goType latest) (v : ℤ) (payload : Json.RawMessage) :
    s.restoreMessage name v payload = .returned
      ((s.registry.upcast name payload v latest).bind (s.unmarshalLatest name goType)) := by
  unfold restoreMessage
  rw [h.latestType]
  by_cases hv : v < latest
  · simp only [hv, if_true]
    cases s.registry.upcast name payload v latest <;> rfl
  · rw [(TypeRegistry.upcast_of_le (by omega)).1]
    simp only [hv, if_false]
    rfl

theorem decodeCalls_of_latest {data : Json} {wire : WireEnvelope} {goType : T} {latest : ℤ}
    (hwire : readWireEnvelope data = some wire)
    (h : s.registry.Latest wire.messageType goType latest) :
    s.decodeCalls data =
      s.registry.upcastCalls wire.messageType wire.payload wire.messageVersion.toInt latest := by
  unfold decodeCalls
  simp only [hwire, h.latestType]
  split_ifs with hv
  · rfl
  · rw [(TypeRegistry.upcast_of_le (by omega)).2]

/-- **The chain of upcasters.**  `Upcast` from `a` to `c` succeeds if and only if there is a chain,
and ends in its last data; it then calls the upcaster of each version from `a` up to `c`, once each,
in increasing order, with the data at that version.  Two calls of `Upcast`, one after the other, are
one.  `Decode` makes the calls of `Upcast` from the version of the message to the greatest version
registered, none if that is not greater, and reads the message from what comes out. -/
theorem upcast_chain (name : String) :
    (∀ data a c out, s.registry.upcast name data a c = .ok out ↔
      ∃ d, s.registry.IsChain name a c d ∧ d a = data ∧ d (max a c) = out) ∧
    (∀ a c d, s.registry.IsChain name a c d → s.registry.upcastCalls name (d a) a c =
      (TypeRegistry.versions a c).map fun v => (v, d v)) ∧
    (∀ data a b c, a ≤ b → b ≤ c → s.registry.upcast name data a c =
      (s.registry.upcast name data a b).bind fun mid => s.registry.upcast name mid b c) ∧
    ∀ data wire goType latest, readWireEnvelope data = some wire → wire.messageType = name →
      s.registry.Latest name goType latest →
        s.decode data = rebuild (s.decodeStamps wire.stamps) wire.createdAt (.returned
          ((s.registry.upcast name wire.payload wire.messageVersion.toInt latest).bind
            (s.unmarshalLatest name goType))) ∧
        s.decodeCalls data =
          s.registry.upcastCalls name wire.payload wire.messageVersion.toInt latest ∧
        (latest ≤ wire.messageVersion.toInt → s.decodeCalls data = [] ∧
          s.registry.upcast name wire.payload wire.messageVersion.toInt latest =
            .ok wire.payload) := by
  refine ⟨fun data a c out => ?_, fun a c d hchain => ?_, fun data a b c hab hbc => ?_,
    fun data wire goType latest hwire hname hlatest => ?_⟩
  · unfold TypeRegistry.upcast
    rw [TypeRegistry.upcastFrom_eq_ok_iff, TypeRegistry.toNat_sub_cast]
    simp only [TypeRegistry.isChain_max_iff]
  · unfold TypeRegistry.upcastCalls TypeRegistry.versions
    rw [TypeRegistry.callsFrom_of_isChain, List.map_map]
    · rfl
    · rw [TypeRegistry.toNat_sub_cast]
      exact (TypeRegistry.isChain_max_iff a c d).2 hchain
  · have hsplit : (c - a).toNat = (b - a).toNat + (c - b).toNat := by omega
    have hmid : a + ((b - a).toNat : ℤ) = b := by omega
    unfold TypeRegistry.upcast
    rw [hsplit, TypeRegistry.upcastFrom_add, hmid]
  · subst hname
    have hcalls := s.decodeCalls_of_latest hwire hlatest
    refine ⟨?_, hcalls, fun hle => ?_⟩
    · unfold decode
      simp only [hwire]
      rw [s.restoreMessage_of_latest hlatest]
    · obtain ⟨hsame, hnone⟩ := TypeRegistry.upcast_of_le hle
      exact ⟨hcalls.trans hnone, hsame⟩

end JSONSerializer

/-- An upcaster that adds a field to an order. -/
def addField (field : String) : Json.RawMessage → Except Err Json.RawMessage
  | some (.obj fields) => .ok (some (.obj (fields ++ [(field, .str "")])))
  | _ => .error (.msg "json: cannot unmarshal")

/-- The orders with three versions, the second with a currency and the third with a country. -/
def versionedSerializer : JSONSerializer PlaceOrder Unit :=
  { orderSerializer with
    registry :=
      ⟨fun name => if name = "order.PlaceOrder" then some [(1, ()), (3, ()), (2, ())] else none,
      fun name v => if name = "order.PlaceOrder" ∧ v = 1 then some (addField "Currency")
        else if name = "order.PlaceOrder" ∧ v = 2 then some (addField "Country") else none⟩ }

def oldOrder : WireEnvelope :=
  ⟨1, "order.PlaceOrder", 1, some (.obj [("OrderID", .str "o1")]), [], "w1", "orders", 0⟩

/-- `Decode` takes an order of the first version through both upcasters. -/
theorem upcast_chain_oldOrder : ∃ data, oldOrder.marshal = .ok data ∧
    versionedSerializer.decodeCalls data =
      [(1, some (.obj [("OrderID", .str "o1")])),
        (2, some (.obj [("OrderID", .str "o1"), ("Currency", .str "")]))] ∧
    versionedSerializer.decode data = .returned (.ok ⟨⟨"o1"⟩, [], 0⟩) := by
  have hlatest : versionedSerializer.registry.Latest "order.PlaceOrder" () 3 :=
    ⟨⟨[(1, ()), (3, ()), (2, ())], rfl, by decide, by decide, by decide⟩, by decide⟩
  obtain ⟨data, hdata⟩ : ∃ data, oldOrder.marshal = .ok data := ⟨_, rfl⟩
  have hwire := readWireEnvelope_marshal (w := oldOrder) rfl (by simp [oldOrder]) hdata
  obtain ⟨hdecode, hcalls, -⟩ :=
    (versionedSerializer.upcast_chain "order.PlaceOrder").2.2.2 data oldOrder () 3 hwire rfl hlatest
  exact ⟨data, hdata, hcalls, hdecode⟩

end WolfCore.Messenger
