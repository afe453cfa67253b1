import WolfCore.Lib.Go

/-!
# Domain events (`event/event.go`)

An event value, its metadata, and the options with which `NewEvent` rebuilds an event from
message headers.  A payload is an arbitrary Go value (`none` is `nil`); an instant is the number
of nanoseconds since the zero time, January 1 of year 1 UTC, so that `IsZero` is `= 0`.
-/

namespace WolfCore

open Go

/-- `event.Metadata`. -/
structure Metadata where
  traceID : String
  correlationID : String
  causationID : String
  source : String
  deriving DecidableEq

namespace Metadata

def zero : Metadata := ⟨"", "", "", ""⟩

/-- `if v != "" { result[k] = v }`. -/
def setNonEmpty (m : StrMap) (k v : String) : StrMap := if v = "" then m else m.set k v

/-- `Metadata.ToMap`: the non-empty fields (a nil map is an empty one). -/
def toMap (m : Metadata) : StrMap :=
  setNonEmpty (setNonEmpty (setNonEmpty (setNonEmpty StrMap.empty "trace_id" m.traceID)
    "correlation_id" m.correlationID) "causation_id" m.causationID) "source" m.source

/-- `MetadataFromMap`. -/
def fromMap (m : StrMap) : Metadata where
  traceID := m.get "trace_id"
  correlationID := m.get "correlation_id"
  causationID := m.get "causation_id"
  source := m.get "source"

/-- The keys of `ToMap`. -/
def keys : List String := ["trace_id", "correlation_id", "causation_id", "source"]

theorem setNonEmpty_apply (m : StrMap) (k v k' : String) :
    setNonEmpty m k v k' = if k' = k ∧ v ≠ "" then some v else m k' := by
  unfold setNonEmpty
  by_cases hv : v = ""
  · simp [hv]
  · simp [hv, StrMap.set_apply]

theorem toMap_eq_none {m : Metadata} {k : String} (hk : k ∉ keys) : m.toMap k = none := by
  simp only [keys, List.mem_cons, List.not_mem_nil, or_false, not_or] at hk
  simp [toMap, setNonEmpty_apply, hk, StrMap.empty]

/-- Metadata survive in a map that has none of their keys. -/
theorem fromMap_assign {base : StrMap} (hbase : ∀ k ∈ keys, base k = none) (m : Metadata) :
    fromMap (base.assign m.toMap) = m := by
  have hget : ∀ k ∈ keys, (base.assign m.toMap).get k = m.toMap.get k := by
    intro k hk
    unfold StrMap.get StrMap.assign
    rw [hbase k hk]
    cases m.toMap k <;> rfl
  have hvalue : ∀ v : String, (if v = "" then none else some v : Option String).getD "" = v := by
    intro v
    split_ifs with hv
    · exact hv.symm
    · rfl
  simp only [keys, List.forall_mem_cons] at hget
  obtain ⟨htrace, hcorr, hcause, hsource, -⟩ := hget
  unfold fromMap
  rw [htrace, hcorr, hcause, hsource]
  simp [StrMap.get, toMap, setNonEmpty_apply, StrMap.empty, hvalue]

end Metadata

/-- An event as the `Event` interface presents it. -/
structure Event (V : Type) where
  eventID : String
  eventType : String
  aggregateID : String
  aggregateType : String
  occurredAt : ℤ
  version : ℤ
  payload : Option V
  metadata : Metadata

namespace Event

variable {V : Type}

/-- `NewEvent` before its options: a random id, the current time and version 1. -/
def new (uuid : String) (now : ℤ) (eventType : String) (payload : Option V) : Event V :=
  ⟨uuid, eventType, "", "", now, 1, payload, Metadata.zero⟩

/-- `WithAggregateInfo`. -/
def withAggregateInfo (e : Event V) (id aggType : String) : Event V :=
  { e with aggregateID := id, aggregateType := aggType }

/-- `WithMetadata`. -/
def withMetadata (e : Event V) (m : Metadata) : Event V := { e with metadata := m }

/-- `WithVersion`. -/
def withVersion (e : Event V) (v : ℤ) : Event V := { e with version := v }

/-- `WithID`, which ignores the empty id. -/
def withID (e : Event V) (id : String) : Event V := if id = "" then e else { e with eventID := id }

/-- `WithOccurredAt`, which ignores the zero time. -/
def withOccurredAt (e : Event V) (t : ℤ) : Event V :=
  if t = 0 then e else { e with occurredAt := t }

end Event

end WolfCore
