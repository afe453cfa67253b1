import WolfCore.Lib.Go

/-!
# Envelopes and stamps (`messenger/envelope.go`, `messenger/stamp/`, `messenger/typer.go`)

An envelope carries a message, its stamps in the order in which they were added, and the time it
was created.  The stamps are found by name: `last` returns the last one with a name, whatever its
type.  A stamp of the application is any other type with a `StampName`, which may be one of the
built-in names.

`V` stands for the values of Go's `any`.
-/

namespace WolfCore.Messenger

open Go

/-- `TypeNameOf` of a message. -/
class Typed (V : Type) where
  typeNameOf : V → String

/-- The stamps of `messenger/stamp`, and stamps of the application.  Times are instants in
nanoseconds; the headers of a trace stamp are the entries of its map in the order of their keys. -/
inductive Stamp (V : Type)
  | busName (name : String)
  | result (value : V)
  | sent (transport : String) (sentAt : ℤ)
  | received (transport : String) (receivedAt : ℤ)
  | transportName (name : String)
  | redelivery (retryCount : Int64) (lastError : String)
  | delay (duration : Int64)
  | error (err : String) (occurredAt : ℤ)
  | trace (traceID spanID : String) (headers : List (String × String))
  | forceSync
  | forceTransport (transportName : String)
  | consumedBy (handler : String) (duration : Int64)
  | aggregate (type id : String)
  | outboxID (entryID : String)
  | custom (name : String) (value : V)
  deriving DecidableEq

namespace Stamp

/-- `NameReceived`. -/
def nameReceived : String := "messenger.received"

/-- `NameTrace`. -/
def nameTrace : String := "messenger.trace"

/-- `NameForceSync`. -/
def nameForceSync : String := "messenger.force_sync"

/-- `NameForceTransport`. -/
def nameForceTransport : String := "messenger.force_transport"

/-- `StampName`. -/
def stampName {V : Type} : Stamp V → String
  | busName _ => "messenger.bus_name"
  | result _ => "messenger.result"
  | sent _ _ => "messenger.sent"
  | received _ _ => nameReceived
  | transportName _ => "messenger.transport_name"
  | redelivery _ _ => "messenger.redelivery"
  | delay _ => "messenger.delay"
  | error _ _ => "messenger.error"
  | trace _ _ _ => nameTrace
  | forceSync => nameForceSync
  | forceTransport _ => nameForceTransport
  | consumedBy _ _ => "messenger.consumed"
  | aggregate _ _ => "messenger.aggregate"
  | outboxID _ => "messenger.outbox_id"
  | custom name _ => name

end Stamp

/-- `Envelope`. -/
structure Envelope (V : Type) where
  message : V
  stamps : List (Stamp V)
  createdAt : ℤ

namespace Envelope

variable {V : Type}

/-- `NewEnvelope`, at the time `now`. -/
def new (msg : V) (stamps : List (Stamp V)) (now : ℤ) : Envelope V := ⟨msg, stamps, now⟩

/-- `Envelope.WithStamp`. -/
def withStamp (e : Envelope V) (s : Stamp V) : Envelope V := { e with stamps := e.stamps ++ [s] }

/-- `Envelope.Last`. -/
def last (e : Envelope V) (name : String) : Option (Stamp V) :=
  e.stamps.findRev? fun s => s.stampName = name

/-- `Envelope.HasStamp`. -/
def hasStamp (e : Envelope V) (name : String) : Bool := e.stamps.any fun s => s.stampName = name

@[simp] theorem withStamp_message (e : Envelope V) (s : Stamp V) :
    (e.withStamp s).message = e.message := rfl

@[simp] theorem withStamp_stamps (e : Envelope V) (s : Stamp V) :
    (e.withStamp s).stamps = e.stamps ++ [s] := rfl

theorem last_withStamp_self (e : Envelope V) (s : Stamp V) :
    (e.withStamp s).last s.stampName = some s := by
  simp [last, withStamp, List.findRev?_eq_find?_reverse]

/-- A stamp with another name does not hide the last one. -/
theorem last_withStamp_of_ne (e : Envelope V) {s : Stamp V} {name : String}
    (h : s.stampName ≠ name) : (e.withStamp s).last name = e.last name := by
  simp [last, withStamp, List.findRev?_eq_find?_reverse, h]

theorem hasStamp_withStamp_of_ne (e : Envelope V) {s : Stamp V} {name : String}
    (h : s.stampName ≠ name) : (e.withStamp s).hasStamp name = e.hasStamp name := by
  simp [hasStamp, withStamp, h]

end Envelope

end WolfCore.Messenger
