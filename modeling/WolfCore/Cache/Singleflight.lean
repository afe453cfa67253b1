import WolfCore.Lib.Calls
import WolfCore.Lib.Go

/-!
# Coalesced reads (`infra/cache/singleflight.go`, `infra/cache/client.go`)

`SingleflightCache.Get` runs the `Get` of the inner client through `singleflight.Group.Do`: the
first call for a key leads a flight, and a call that starts while the flight is running joins it and
returns its result.  `Set` and `Delete` go to the inner client directly.

The operations of the inner client are atomic.  Each is given a number, in the order in which they
are executed; the numbers are part of no result and only tell which operation an answer comes from.
-/

namespace WolfCore.Cache

open Go Interleave

/-- `ErrCacheMiss`. -/
def errCacheMiss : Err := .msg "cache: miss"

inductive Request
  | get (key : String)
  | set (key value : String) (ttl : ℤ)
  | delete (keys : List String)

/-- What `Get` of the inner client returns: bytes (`none` is a nil slice) or an error. -/
abbrev Found := Except Err (Option String)

/-- How a call ends, with the number of the inner operation behind it. -/
inductive Response
  | got (result : Found) (n : ℕ)
  | wrote (err : Option Err) (n : ℕ)

/-- What `Do` makes of a call. -/
inductive Role
  | leads (flight : ℕ)
  | joined (flight : ℕ)

inductive Cmd
  /-- a call arrives -/
  | accept
  /-- the locked section at the start of `Do` -/
  | doStart (key : String)
  /-- `Get` of the inner client, called by the leader of a flight -/
  | innerGet (flight : ℕ) (key : String)
  /-- the locked section at the end of `Do`: the result is published and the flight is over -/
  | doFinish (flight : ℕ) (key : String) (answer : Found × ℕ)
  /-- whether the flight is over -/
  | wait (flight : ℕ)
  | innerSet (key value : String) (ttl : ℤ)
  | innerDelete (keys : List String)
  /-- a call returns -/
  | respond (request : Request) (response : Response)

abbrev Reply : Cmd → Type
  | .accept => Request
  | .doStart _ => Role
  | .innerGet _ _ => Found × ℕ
  | .doFinish _ _ _ => Unit
  | .wait _ => Option (Found × ℕ)
  | .innerSet _ _ _ => Option Err × ℕ
  | .innerDelete _ => Option Err × ℕ
  | .respond _ _ => Unit

/-- A goroutine between two calls, or one that waits for a flight. -/
inductive Local
  | idle
  | waiting (key : String) (flight : ℕ)

/-- The end of `SingleflightCache.Get`.  The value of the flight is an interface that holds the
slice of the inner client, so it is never the nil interface the code compares it with. -/
def returnGet (key : String) (answer : Found × ℕ) : Prog Reply Local :=
  .call (.respond (.get key) (.got answer.1 answer.2)) fun _ => .pure .idle

/-- A call that has joined a flight waits for it. -/
def await (key : String) (flight : ℕ) : Prog Reply Local :=
  .call (.wait flight) fun
    | some answer => returnGet key answer
    | none => .pure (.waiting key flight)

/-- `SingleflightCache.Get`. -/
def get (key : String) : Prog Reply Local :=
  .call (.doStart key) fun
    | .leads flight => .call (.innerGet flight key) fun answer =>
        .call (.doFinish flight key answer) fun _ => returnGet key answer
    | .joined flight => await key flight

def returnWrite (request : Request) (answer : Option Err × ℕ) : Prog Reply Local :=
  .call (.respond request (.wrote answer.1 answer.2)) fun _ => .pure .idle

/-- `SingleflightCache.Set`. -/
def set (key value : String) (ttl : ℤ) : Prog Reply Local :=
  .call (.innerSet key value ttl) (returnWrite (.set key value ttl))

/-- `SingleflightCache.Delete`. -/
def delete (keys : List String) : Prog Reply Local :=
  .call (.innerDelete keys) (returnWrite (.delete keys))

/-- One call, or the rest of one that waits. -/
def serve : Local → Prog Reply Local
  | .idle => .call .accept fun
      | .get key => get key
      | .set key value ttl => set key value ttl
      | .delete keys => delete keys
  | .waiting key flight => await key flight

/-! ### The surroundings -/

/-- The entries of the inner client, the running flight of each key (`Group.m`), the results of
finished flights, and the next numbers of a flight and of an inner operation. -/
structure World where
  store : String → Option String
  running : String → Option ℕ
  result : ℕ → Option (Found × ℕ)
  nextFlight : ℕ
  serial : ℕ

/-- No call has been made yet. -/
def World.fresh (store : String → Option String) : World :=
  ⟨store, fun _ => none, fun _ => none, 0, 0⟩

/-- What the surroundings choose at a command: the call that arrives, and whether the inner client
fails. -/
structure Choice where
  request : Request
  err : Option Err

/-- `Get` of the inner client. -/
def lookup (store : String → Option String) (err : Option Err) (key : String) : Found :=
  match err with
  | some err => .error err
  | none =>
      match store key with
      | some value => .ok (some value)
      | none => .error errCacheMiss

def exec : (e : Cmd) → Choice → World → Reply e × World
  | .accept, o, w => (o.request, w)
  | .doStart key, _, w =>
      match w.running key with
      | some flight => (.joined flight, w)
      | none => (.leads w.nextFlight, { w with
          running := Function.update w.running key (some w.nextFlight)
          nextFlight := w.nextFlight + 1 })
  | .innerGet _ key, o, w =>
      ((lookup w.store o.err key, w.serial), { w with serial := w.serial + 1 })
  | .doFinish flight key answer, _, w =>
      ((), { w with
        running := if w.running key = some flight then Function.update w.running key none
          else w.running
        result := Function.update w.result flight (some answer) })
  | .wait flight, _, w => (w.result flight, w)
  | .innerSet key value _, o, w =>
      ((o.err, w.serial), { w with
        store := if o.err = none then Function.update w.store key (some value) else w.store
        serial := w.serial + 1 })
  | .innerDelete keys, o, w =>
      ((o.err, w.serial), { w with
        store := if o.err = none then fun key => if key ∈ keys then none else w.store key
          else w.store
        serial := w.serial + 1 })
  | .respond _ _, _, w => ((), w)

/-- An entry of the inner client expires. -/
def expire (key : String) (w : World) : World :=
  { w with store := Function.update w.store key none }

/-- Goroutines that serve calls, one after the other. -/
def machine : Machine Reply World Choice Local String where
  exec := exec
  body := fun _ => serve
  boot := fun _ => .idle
  env := expire

def Cmd.isAccept : Cmd → Bool
  | .accept => true
  | _ => false

end WolfCore.Cache
