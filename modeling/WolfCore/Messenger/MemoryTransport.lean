import WolfCore.Lib.Calls
import WolfCore.Lib.Chan
import WolfCore.Messenger.Envelope

/-!
# The memory transport (`messenger/transport/memory/transport.go`, `messenger/worker/worker.go`)

Envelopes are sent to a channel; `Get` moves one from the channel to the pending set, `Ack` removes
it from there, and `Reject` puts it back to the channel, or drops it if there is no room.  The key
of an envelope in the pending set is the number that `Send` gave it, in a stamp.

The calls are programs over the atomic steps that goroutines share: loads and swaps of the flag
`closed`, operations on the channel and on the pending set, and numbers from the counter of the
package.  Sends and receives that have to wait are tried again.

* `send`, `get`, `ack`, `reject`, `close`: the calls; `processMessage`: what a worker does with an
  envelope;
* `machine`: any number of goroutines that make any calls, while other transports take numbers too;
* `closedSinceCheck`: the channel was closed after the call looked at `closed`;
* `close_safe_iff`: this is when a send panics.  A call that returns nil has delivered its envelope
  while the channel was open.

`V` stands for the values of Go's `any`.
-/

namespace WolfCore.Messenger.MemoryTransport

open Go Interleave

/-- The type `memoryIDStamp` among the values: its values, and the type assertion. -/
class MemoryIDStamp (V : Type) where
  ofID : String → V
  assertID : V → Option String
  assertID_ofID : ∀ id, assertID (ofID id) = some id

/-- `strconv.FormatUint(n, 10)`. -/
def formatUint (n : ℕ) : String := itoa n

/-- `Time.UnixNano` of an instant in nanoseconds since year 1. -/
def unixNano (t : ℤ) : ℤ := (Int64.ofInt (t - 62135596800000000000)).toInt

section

variable {V : Type} [Typed V] [MemoryIDStamp V]

/-- `StampName` of `memoryIDStamp`. -/
def memoryIDName : String := "memory.internal_id"

/-- `memoryIDStamp{ID: id}`. -/
def memoryIDStamp (id : String) : Stamp V := .custom memoryIDName (MemoryIDStamp.ofID id)

/-- `s.(memoryIDStamp).ID`. -/
def assertMemoryID : Stamp V → Outcome String
  | .custom _ v =>
      match MemoryIDStamp.assertID v with
      | some id => .returned id
      | none => .panicked "interface conversion"
  | _ => .panicked "interface conversion"

/-- `pendingKey`. -/
def pendingKey (env : Envelope V) : Outcome String :=
  match env.last memoryIDName with
  | some s => assertMemoryID s
  | none => .returned (Typed.typeNameOf env.message ++ ":" ++ itoa (unixNano env.createdAt))

end

/-! ### Calls -/

/-- A call of the transport, or a round of a worker. -/
inductive Request (V : Type)
  | send (env : Envelope V)
  | get
  | ack (env : Envelope V)
  | reject (env : Envelope V)
  | close
  /-- a round of `consumeLoop` -/
  | work

/-- Which call removes an envelope from the pending set. -/
inductive Settle
  | ack
  | reject
  deriving DecidableEq

/-- How the `select` of `Get` ends. -/
inductive GetResult (V : Type)
  | cancelled (err : Err)
  | received (r : RecvResult (Envelope V))

inductive Cmd (V : Type)
  /-- a call arrives -/
  | request
  /-- `t.closed.Load()` -/
  | loadClosed
  /-- `pendingSeq.Add(1)`, formatted -/
  | nextID
  /-- `t.ch <- env` -/
  | chSend (env : Envelope V)
  /-- `t.ch <- env`, in a `select` with a default -/
  | chTrySend (env : Envelope V)
  /-- `Get` comes to its `select` -/
  | await
  /-- and leaves it -/
  | chRecv
  /-- `t.pending.Store(key, env)` -/
  | store (key : String) (env : Envelope V)
  /-- `t.pending.Delete(key)` -/
  | delete (how : Settle) (key : String)
  /-- `t.closed.CompareAndSwap(false, true)` -/
  | swapClosed
  /-- `close(t.ch)` -/
  | closeCh
  /-- `time.Now()` -/
  | clock
  /-- `w.bus.Dispatch`, of the message of an envelope -/
  | dispatch (env : Envelope V)
  /-- a call returns -/
  | respond (request : Request V) (envelopes : List (Envelope V)) (err : Option Err)

abbrev Reply (V : Type) : Cmd V → Type
  | .request => Request V
  | .loadClosed => Bool
  | .nextID => String
  | .chSend _ => SendResult
  | .chTrySend _ => SendResult
  | .await => Unit
  | .chRecv => GetResult V
  | .store _ _ => Unit
  | .delete _ _ => Unit
  | .swapClosed => Bool
  | .closeCh => Unit
  | .clock => ℤ
  | .dispatch _ => Option Err
  | .respond _ _ _ => Unit

/-- A goroutine between two calls, one that waits to send or receive, and one that panicked. -/
inductive Local (V : Type)
  | idle
  | sending (original env : Envelope V)
  | receiving (work : Bool)
  | panicked (p : String)

section

variable {V : Type} [Typed V] [MemoryIDStamp V] (name : String)

def respond (request : Request V) (envelopes : List (Envelope V)) (err : Option Err) :
    Prog (Reply V) (Local V) :=
  .call (.respond request envelopes err) fun _ => .pure .idle

/-- The error of a call on a closed transport. -/
def errClosed : Err := .msg ("transport: " ++ name ++ " is closed")

/-- `t.ch <- env`, and the end of `Send`. -/
def sendLoop (original env : Envelope V) : Prog (Reply V) (Local V) :=
  .call (.chSend env) fun
    | .sent => respond (.send original) [] none
    | .blocked => .pure (.sending original env)
    | .panicked => .pure (.panicked "send on closed channel")

/-- `Transport.Send`. -/
def send (env : Envelope V) : Prog (Reply V) (Local V) :=
  .call .loadClosed fun
    | true => respond (.send env) [] (some (errClosed name))
    | false => .call .nextID fun id => sendLoop env (env.withStamp (memoryIDStamp id))

/-- What comes after a key is computed. -/
def withKey (env : Envelope V) (k : String → Prog (Reply V) (Local V)) : Prog (Reply V) (Local V) :=
  match pendingKey env with
  | .returned key => k key
  | .panicked p => .pure (.panicked p)

/-- `Transport.Ack`. -/
def ack (request : Request V) (env : Envelope V) : Prog (Reply V) (Local V) :=
  withKey env fun key => .call (.delete .ack key) fun _ => respond request [] none

/-- `Transport.Reject`. -/
def reject (request : Request V) (env : Envelope V) : Prog (Reply V) (Local V) :=
  withKey env fun key => .call (.delete .reject key) fun _ => .call .loadClosed fun
    | true => respond request [] (some (errClosed name))
    | false => .call (.chTrySend env) fun
        | .sent => respond request [] none
        | .blocked => respond request []
            (some (.msg ("transport: " ++ name ++ " buffer full, message dropped on reject")))
        | .panicked => .pure (.panicked "send on closed channel")

/-- `Worker.processMessage`. -/
def processMessage (env : Envelope V) : Prog (Reply V) (Local V) :=
  .call .clock fun now => .call (.dispatch (env.withStamp (.received name now))) fun
    | some _ => reject name .work (env.withStamp (.received name now))
    | none => ack .work (env.withStamp (.received name now))

/-- The `select` of `Transport.Get`, and the rest of the call, or of the round of a worker. -/
def receiveLoop (work : Bool) : Prog (Reply V) (Local V) :=
  .call .chRecv fun
    | .cancelled err => respond (if work then .work else .get) [] (some err)
    | .received (.received env) => withKey env fun key => .call (.store key env) fun _ =>
        if work then processMessage name env else respond .get [env] none
    | .received .closed => respond (if work then .work else .get) [] none
    | .received .blocked => .pure (.receiving work)

/-- `Transport.Get`. -/
def get (work : Bool) : Prog (Reply V) (Local V) :=
  .call .await fun _ => receiveLoop name work

/-- `Transport.Close`. -/
def close : Prog (Reply V) (Local V) :=
  .call .swapClosed fun
    | true => .call .closeCh fun _ => respond .close [] none
    | false => respond .close [] none

/-- One call, or the rest of one that waits. -/
def serve : Local V → Prog (Reply V) (Local V)
  | .idle => .call .request fun
      | .send env => send name env
      | .get => get name false
      | .ack env => ack (.ack env) env
      | .reject env => reject name (.reject env) env
      | .close => close
      | .work => get name true
  | .sending original env => sendLoop original env
  | .receiving work => receiveLoop name work
  | .panicked p => .pure (.panicked p)

end

/-! ### The surroundings -/

/-- The channel, the pending set, the flag `closed`, and how many numbers were taken from
`pendingSeq`. -/
structure World (V : Type) (cap : ℕ) where
  ch : Chan (Envelope V) cap
  pending : String → Option (Envelope V)
  closed : Bool
  taken : ℕ

def World.new {V : Type} {cap : ℕ} (taken : ℕ) : World V cap := ⟨.make, fun _ => none, false, taken⟩

/-- What the surroundings choose: the call that arrives, whether the context of a `Get` is
cancelled, the time, and what a dispatch returns. -/
structure Choice (V : Type) where
  request : Request V
  cancelled : Option Err
  now : ℤ
  dispatchErr : Option Err

/-- What a step does, and its answer.  `pendingSeq` is a 64 bit counter. -/
def exec {V : Type} {cap : ℕ} :
    (e : Cmd V) → Choice V → World V cap → Reply V e × World V cap
  | .request, o, s => (o.request, s)
  | .loadClosed, _, s => (s.closed, s)
  | .nextID, _, s => (formatUint ((s.taken + 1) % 2 ^ 64), { s with taken := s.taken + 1 })
  | .chSend env, _, s => ((s.ch.send env).1, { s with ch := (s.ch.send env).2 })
  | .chTrySend env, _, s => ((s.ch.send env).1, { s with ch := (s.ch.send env).2 })
  | .await, _, s => ((), { s with ch := s.ch.await })
  | .chRecv, o, s =>
      match o.cancelled, s.ch.hasRoom with
      | some err, true => (.cancelled err, { s with ch := s.ch.leave })
      | _, _ => (.received s.ch.recv.1, { s with ch := s.ch.recv.2 })
  | .store key env, _, s => ((), { s with pending := Function.update s.pending key (some env) })
  | .delete _ key, _, s => ((), { s with pending := Function.update s.pending key none })
  | .swapClosed, _, s => (!s.closed, { s with closed := true })
  | .closeCh, _, s => ((), { s with ch := s.ch.close })
  | .clock, o, s => (o.now, s)
  | .dispatch _, o, s => (o.dispatchErr, s)
  | .respond _ _ _, _, s => ((), s)

/-- The `select` of `Get` takes an envelope or leaves the envelopes alone. -/
theorem chRecv_cases {V : Type} {cap : ℕ} (o : Choice V) (s : World V cap) :
    (∃ env rest, s.ch.buf = env :: rest ∧
      exec .chRecv o s = (.received (.received env),
        { s with ch := { s.ch with buf := rest, waiting := s.ch.waiting - 1 } })) ∨
    (∃ (r : GetResult V) (ch : Chan (Envelope V) cap), (∀ env, r ≠ .received (.received env)) ∧
      exec .chRecv o s = (r, { s with ch := ch }) ∧ ch.buf = s.ch.buf ∧
        ch.closed = s.ch.closed) := by
  simp only [exec]
  split
  · exact Or.inr ⟨_, _, by simp, rfl, rfl, rfl⟩
  · rcases s.ch.recv_cases with ⟨env, rest, hbuf, heq⟩ | ⟨-, -, heq⟩ | ⟨-, -, heq⟩
    · exact Or.inl ⟨env, rest, hbuf, by rw [heq]⟩
    · exact Or.inr ⟨.received .closed, s.ch.leave, by simp, by rw [heq], rfl, rfl⟩
    · exact Or.inr ⟨.received .blocked, s.ch, by simp, by rw [heq], rfl, rfl⟩

/-- Goroutines that make calls, one after the other; the environment is another transport that takes
a number. -/
def machine {V : Type} [Typed V] [MemoryIDStamp V] (name : String) (cap : ℕ) :
    Machine (Reply V) (World V cap) (Choice V) (Local V) Unit where
  exec := exec
  body := fun _ => serve name
  boot := fun _ => .idle
  env := fun _ s => { s with taken := s.taken + 1 }

/-! ### Closing -/

section

variable {V : Type}

def isCloseCh : Logged (Reply V) → Bool
  | ⟨_, .closeCh, _⟩ => true
  | _ => false

/-- Goroutine `i` looks at the flag `closed`. -/
def isLoadBy (i : ℕ) : Logged (Reply V) → Bool
  | ⟨j, .loadClosed, _⟩ => j = i
  | _ => false

/-- An operation of `Send` or `Reject` on the channel. -/
def isSend : Logged (Reply V) → Bool
  | ⟨_, .chSend _, _⟩ => true
  | ⟨_, .chTrySend _, _⟩ => true
  | _ => false

/-- A send on the closed channel. -/
def panics : Logged (Reply V) → Bool
  | ⟨_, .chSend _, reply⟩ => reply = .panicked
  | ⟨_, .chTrySend _, reply⟩ => reply = .panicked
  | _ => false

def delivers : Logged (Reply V) → Bool
  | ⟨_, .chSend _, reply⟩ => reply = .sent
  | ⟨_, .chTrySend _, reply⟩ => reply = .sent
  | _ => false

def isRequest : Cmd V → Bool
  | .request => true
  | _ => false

/-- The channel was closed after goroutine `i` last looked at the flag `closed`. -/
def closedSinceCheck (i : ℕ) (h : History (Reply V)) : Bool := outstanding isCloseCh (isLoadBy i) h

/-- The transport was open when goroutine `i` last looked at the flag `closed`. -/
def Checked (i : ℕ) (h : History (Reply V)) : Prop :=
  ∃ l h', h = l ++ ⟨i, .loadClosed, false⟩ :: h' ∧ ∀ ev ∈ l, isLoadBy i ev = false

/-- The flag, the channel, and what was done with them so far. -/
structure CloseInv {cap : ℕ} (s : World V cap) (h : History (Reply V)) : Prop where
  closedCh : s.ch.closed = h.any isCloseCh
  swapped : ∀ i, ⟨i, .swapClosed, true⟩ ∈ h → s.closed = true
  closing : h.any isCloseCh = true → s.closed = true
  checks : Throughout (fun ev h => ∀ i, ev = ⟨i, .loadClosed, false⟩ → h.any isCloseCh = false) h
  sends : Throughout
    (fun ev h => panics ev = false ↔ (isSend ev = true → closedSinceCheck ev.tid h = false)) h
  delivered : Throughout (fun ev h => delivers ev = true → h.any isCloseCh = false) h

theorem Checked.others {i : ℕ} {h h' : History (Reply V)} (hc : Checked i h) (ho : Others i h h') :
    Checked i h' := by
  obtain ⟨l, h₀, rfl, hl⟩ := hc
  obtain ⟨l', rfl, hl'⟩ := ho
  refine ⟨l' ++ l, h₀, (List.append_assoc _ _ _).symm, fun ev hev => ?_⟩
  rcases List.mem_append.1 hev with hev | hev
  · have htid := hl' ev hev
    obtain ⟨j, e, reply⟩ := ev
    cases e with
    | loadClosed => exact decide_eq_false htid
    | _ => rfl
  · exact hl ev hev

theorem Checked.cons {i : ℕ} {h : History (Reply V)} (hc : Checked i h) {ev : Logged (Reply V)}
    (hev : isLoadBy i ev = false) : Checked i (ev :: h) := by
  obtain ⟨l, h₀, rfl, hl⟩ := hc
  exact ⟨ev :: l, h₀, rfl, List.forall_mem_cons.2 ⟨hev, hl⟩⟩

/-- If the transport was open at the last check, the channel was closed after it or not at all. -/
theorem closedSinceCheck_eq {cap : ℕ} {s : World V cap} {i : ℕ} {h : History (Reply V)}
    (hi : CloseInv s h) (hc : Checked i h) : closedSinceCheck i h = h.any isCloseCh := by
  obtain ⟨l, h', rfl, hl⟩ := hc
  have hbefore : h'.any isCloseCh = false := hi.checks.split i rfl
  rw [closedSinceCheck, outstanding_append hl, outstanding_cons_of_answer rfl (decide_eq_true rfl),
    List.any_append, List.any_cons, hbefore]
  rfl

variable {cap : ℕ} {s : World V cap} {h : History (Reply V)} {i : ℕ}

theorem isSend_of_panics {ev : Logged (Reply V)} (hev : panics ev = true) : isSend ev = true := by
  obtain ⟨j, e, reply⟩ := ev
  cases e with
  | chSend env => rfl
  | chTrySend env => rfl
  | _ => cases hev

theorem CloseInv.cons {s' : World V cap} (hi : CloseInv s h) {ev : Logged (Reply V)}
    (hclose : isCloseCh ev = false) (hch : s'.ch.closed = s.ch.closed)
    (hflag : s.closed = true → s'.closed = true)
    (hswap : ∀ i, ev = ⟨i, .swapClosed, true⟩ → s'.closed = true)
    (hload : ∀ i, ev = ⟨i, .loadClosed, false⟩ → h.any isCloseCh = false)
    (hsend : isSend ev = true → (panics ev = true ↔ closedSinceCheck ev.tid h = true))
    (hdelivers : delivers ev = true → h.any isCloseCh = false) : CloseInv s' (ev :: h) where
  closedCh := by rw [hch, hi.closedCh, List.any_cons, hclose]; rfl
  swapped := fun j hmem => by
    rcases List.mem_cons.1 hmem with heq | hmem
    · exact hswap j heq.symm
    · exact hflag (hi.swapped j hmem)
  closing := fun hany => by
    rw [List.any_cons, hclose] at hany
    exact hflag (hi.closing hany)
  checks := ⟨hload, hi.checks⟩
  sends := by
    refine ⟨⟨fun hp hs => ?_, fun hc => ?_⟩, hi.sends⟩
    · rw [← Bool.not_eq_true, ← hsend hs, hp]
      exact Bool.false_ne_true
    · rw [← Bool.not_eq_true]
      intro hp
      have hs := isSend_of_panics hp
      exact absurd ((hsend hs).1 hp) (Bool.not_eq_true _ ▸ hc hs)
  delivered := ⟨hdelivers, hi.delivered⟩

/-- An operation on the channel, after a check, panics exactly if the channel was closed since. -/
theorem CloseInv.panics_iff (hi : CloseInv s h) (hc : Checked i h) (env : Envelope V) :
    (s.ch.send env).1 = .panicked ↔ closedSinceCheck i h = true := by
  rw [closedSinceCheck_eq hi hc, ← hi.closedCh]
  exact Chan.send_panicked_iff

theorem CloseInv.open_of_sent (hi : CloseInv s h) {env : Envelope V}
    (hsent : (s.ch.send env).1 = .sent) :
    h.any isCloseCh = false := hi.closedCh ▸ Chan.not_closed_of_sent hsent

theorem closed_chRecv (o : Choice V) (s : World V cap) :
    (exec .chRecv o s).2.ch.closed = s.ch.closed ∧ (exec .chRecv o s).2.closed = s.closed := by
  rcases chRecv_cases o s with ⟨env, rest, -, heq⟩ | ⟨r, ch, -, heq, -, hclosed⟩
  · rw [heq]
    exact ⟨rfl, rfl⟩
  · rw [heq]
    exact ⟨hclosed, rfl⟩

variable [MemoryIDStamp V]

/-- A `Send` or `Reject` that returns nil has delivered its envelope since it was called. -/
def Delivered (i : ℕ) : Request V → Option Err → History (Reply V) → Prop
  | .send env, none, h =>
      ∃ id, ⟨i, .chSend (env.withStamp (memoryIDStamp id)), .sent⟩ ∈ since isRequest i h
  | .reject env, none, h => ⟨i, .chTrySend env, .sent⟩ ∈ since isRequest i h
  | _, _, _ => True

/-- What a goroutine has done before a step. -/
def closePre (i : ℕ) : Cmd V → History (Reply V) → Prop
  | .chSend _, h => Checked i h
  | .chTrySend _, h => Checked i h
  | .closeCh, h => ∃ j, ⟨j, .swapClosed, true⟩ ∈ h
  | .respond request _ err, h => Delivered i request err h
  | _, _ => True

theorem CloseInv.exec (hi : CloseInv s h) {e : Cmd V} (hpre : closePre i e h) (o : Choice V) :
    CloseInv (exec e o s).2 (⟨i, e, (exec e o s).1⟩ :: h) := by
  cases e with
  | loadClosed =>
    refine hi.cons rfl rfl id nofun (fun j heq => ?_) nofun nofun
    injection heq with _ _ hreply
    have hflag : s.closed = false := hreply
    by_contra hany
    simp [hi.closing (by simpa using hany)] at hflag
  | chSend env =>
    refine hi.cons rfl (Chan.closed_send env) id nofun nofun (fun _ => ?_) fun hd =>
      hi.open_of_sent (of_decide_eq_true hd)
    rw [← hi.panics_iff hpre env]
    exact decide_eq_true_iff
  | chTrySend env =>
    refine hi.cons rfl (Chan.closed_send env) id nofun nofun (fun _ => ?_) fun hd =>
      hi.open_of_sent (of_decide_eq_true hd)
    rw [← hi.panics_iff hpre env]
    exact decide_eq_true_iff
  | swapClosed => exact hi.cons rfl rfl (fun _ => rfl) (fun _ _ => rfl) nofun nofun nofun
  | closeCh =>
    obtain ⟨j, hj⟩ := hpre
    refine ⟨rfl, fun k hmem => ?_, fun _ => hi.swapped j hj, ⟨nofun, hi.checks⟩,
      ⟨iff_of_true rfl nofun, hi.sends⟩, ⟨nofun, hi.delivered⟩⟩
    exact hi.swapped j hj
  | chRecv =>
    exact hi.cons rfl (closed_chRecv o s).1
      (fun hs => (closed_chRecv o s).2.trans hs) nofun nofun nofun nofun
  | _ => exact hi.cons rfl rfl id nofun nofun nofun nofun

end

section

variable {V : Type} [Typed V] [MemoryIDStamp V] {cap : ℕ} (name : String)

/-- What a goroutine that waits to send knows. -/
def closeIdle (i : ℕ) : Local V → History (Reply V) → Prop
  | .sending original env, h => Checked i h ∧ ∃ id, env = original.withStamp (memoryIDStamp id)
  | _, _ => True

/-- The protocol of the calls. -/
def closing : Protocol (machine (V := V) name cap) where
  inv := CloseInv
  pre := closePre
  idle := closeIdle
  allowed := fun _ _ _ _ _ => True
  step := fun hi _ hpre _ => hi.exec hpre _
  env := fun hi => ⟨hi.closedCh, hi.swapped, hi.closing, hi.checks, hi.sends, hi.delivered⟩

/-- A part of a call keeps the protocol. -/
abbrev CallSafe (i : ℕ) (p : Prog (Reply V) (Local V)) (s : World V cap) (h : History (Reply V)) :
    Prop :=
  Safe (closing name).contract i (fun l _ h => closeIdle i l h) p s h

variable {name} {s : World V cap} {h : History (Reply V)} {i : ℕ}

theorem free_safe {e : Cmd V} {k : Reply V e → Prog (Reply V) (Local V)}
    (hpre : ∀ h, closePre i e h)
    (hk : ∀ reply (s' : World V cap) h', CallSafe name i (k reply) s' (⟨i, e, reply⟩ :: h')) :
    CallSafe name i (.call e k) s h :=
  Protocol.safe_call fun _ h₁ _ _ _ _ _ => ⟨hpre h₁, hk _ _ h₁⟩

theorem respond_safe {request : Request V} {envelopes : List (Envelope V)} {err : Option Err}
    (hpre : ∀ h', Others i h h' → closePre i (.respond request envelopes err) h') :
    CallSafe name i (respond request envelopes err) s h :=
  Protocol.safe_call fun _ h₁ _ ho _ _ _ => ⟨hpre h₁ ho, Protocol.safe_pure fun _ _ _ => trivial⟩

theorem sendLoop_safe {original : Envelope V} (hc : Checked i h) (id : String) :
    CallSafe name i (sendLoop original (original.withStamp (memoryIDStamp id))) s h := by
  refine Protocol.safe_call fun s₁ h₁ o ho _ _ _ => ⟨hc.others ho, ?_⟩
  obtain ⟨reply, s₂⟩ := (machine (V := V) name cap).exec
    (.chSend (original.withStamp (memoryIDStamp id))) o s₁
  cases reply with
  | sent =>
    exact respond_safe fun h' ho' => ⟨id, mem_since_mono ho' ((mem_since_cons rfl).2 (Or.inl rfl))⟩
  | blocked =>
    exact Protocol.safe_pure fun s₃ h₃ ho₃ => ⟨((hc.others ho).cons rfl).others ho₃, id, rfl⟩
  | panicked => exact Protocol.safe_pure fun _ _ _ => trivial

theorem send_safe (env : Envelope V) : CallSafe name i (send name env) s h := by
  refine free_safe (fun _ => trivial) fun closed s₁ h₁ => ?_
  cases closed with
  | true => exact respond_safe fun _ _ => trivial
  | false =>
    have hc : Checked i (⟨i, .loadClosed, false⟩ :: h₁) := ⟨[], h₁, rfl, by simp⟩
    refine Protocol.safe_call fun s₂ h₂ o ho _ _ _ => ⟨trivial, ?_⟩
    exact sendLoop_safe ((hc.others ho).cons rfl) _

theorem withKey_safe {env : Envelope V} {k : String → Prog (Reply V) (Local V)}
    (hk : ∀ key, CallSafe name i (k key) s h) : CallSafe name i (withKey env k) s h := by
  unfold withKey
  cases pendingKey env with
  | returned key => exact hk key
  | panicked p => exact Protocol.safe_pure fun _ _ _ => trivial

theorem reject_safe {request : Request V} {env : Envelope V}
    (hrequest : request = .reject env ∨ request = .work) :
    CallSafe name i (reject name request env) s h := by
  have herr : ∀ err h, closePre i (.respond request [] (some err)) h := by
    rcases hrequest with rfl | rfl <;> exact fun _ _ => trivial
  refine withKey_safe fun key => free_safe (fun _ => trivial) fun _ s₁ h₁ =>
    free_safe (fun _ => trivial) fun closed s₂ h₂ => ?_
  cases closed with
  | true => exact respond_safe fun _ _ => herr _ _
  | false =>
    have hc : Checked i (⟨i, .loadClosed, false⟩ :: h₂) := ⟨[], h₂, rfl, by simp⟩
    refine Protocol.safe_call fun s₃ h₃ o ho _ _ _ => ⟨hc.others ho, ?_⟩
    obtain ⟨reply, s₄⟩ := (machine (V := V) name cap).exec (.chTrySend env) o s₃
    cases reply with
    | sent =>
      refine respond_safe fun h' ho' => ?_
      rcases hrequest with rfl | rfl
      · exact mem_since_mono ho' ((mem_since_cons rfl).2 (Or.inl rfl))
      · trivial
    | blocked => exact respond_safe fun _ _ => herr _ _
    | panicked => exact Protocol.safe_pure fun _ _ _ => trivial

theorem receiveLoop_safe (work : Bool) : CallSafe name i (receiveLoop name work) s h := by
  have hrespond : ∀ envelopes err h,
      closePre i (.respond (if work then .work else .get : Request V) envelopes err) h := by
    cases work <;> exact fun _ _ _ => trivial
  refine free_safe (fun _ => trivial) fun reply s₁ h₁ => ?_
  match reply with
  | .cancelled err => exact respond_safe fun _ _ => hrespond _ _ _
  | .received .closed => exact respond_safe fun _ _ => hrespond _ _ _
  | .received .blocked => exact Protocol.safe_pure fun _ _ _ => trivial
  | .received (.received env) =>
    refine withKey_safe fun key => free_safe (fun _ => trivial) fun _ s₂ h₂ => ?_
    cases work with
    | false => exact respond_safe fun _ _ => trivial
    | true =>
      -- the worker dispatches the message
      refine free_safe (fun _ => trivial) fun now s₃ h₃ =>
        free_safe (fun _ => trivial) fun err s₄ h₄ => ?_
      cases err with
      | some err => exact reject_safe (Or.inr rfl)
      | none =>
        exact withKey_safe fun key => free_safe (fun _ => trivial) fun _ s₅ h₅ =>
          respond_safe fun _ _ => trivial

theorem close_safe : CallSafe name i close s h := by
  refine free_safe (fun _ => trivial) fun swapped s₁ h₁ => ?_
  cases swapped with
  | false => exact respond_safe fun _ _ => trivial
  | true =>
    refine Protocol.safe_call fun s₂ h₂ o ho _ _ _ => ⟨⟨i, ho.mem List.mem_cons_self⟩, ?_⟩
    exact respond_safe fun _ _ => trivial

theorem serve_safe {l : Local V} (hidle : closeIdle i l h) :
    CallSafe name i (serve name l) s h := by
  cases l with
  | sending original env =>
    obtain ⟨hc, id, rfl⟩ := hidle
    exact sendLoop_safe hc id
  | receiving work => exact receiveLoop_safe work
  | panicked p => exact Protocol.safe_pure fun _ _ _ => trivial
  | idle =>
    refine free_safe (fun _ => trivial) fun request s₁ h₁ => ?_
    cases request with
    | send env => exact send_safe env
    | get => exact free_safe (fun _ => trivial) fun _ s₂ h₂ => receiveLoop_safe false
    | ack env =>
      exact withKey_safe fun key => free_safe (fun _ => trivial) fun _ s₂ h₂ =>
        respond_safe fun _ _ => trivial
    | reject env => exact reject_safe (Or.inl rfl)
    | close => exact close_safe
    | work => exact free_safe (fun _ => trivial) fun _ s₂ h₂ => receiveLoop_safe true

variable (name) in
theorem closing_run (cap taken : ℕ) (as : List (Action (Choice V) Unit)) :
    let p := (Pool.boot (machine name cap) (World.new taken)).run (machine name cap) as
    CloseInv p.shared p.hist ∧ (closing name : Protocol (machine (V := V) name cap)).Kept p.hist :=
  Protocol.run (P := closing name) (fun _ _ => trivial) (fun _ _ _ _ hidle => serve_safe hidle)
    ⟨rfl, nofun, nofun, trivial, trivial, trivial⟩
      (.of_mem _ (fun a _ p => OnStep.of_forall (fun _ _ _ _ _ => trivial) p a) _)

/-- **When a send panics.**  In every run, no operation of `Send` or `Reject` on the channel panics
exactly if none of them comes after a `close(ch)` that the call did not see when it looked at
`closed`.  An envelope is only delivered to an open channel, and a call that returns nil has
delivered its envelope. -/
theorem close_safe_iff (name : String) (cap taken : ℕ) (as : List (Action (Choice V) Unit)) :
    let p := (Pool.boot (machine name cap) (World.new taken)).run (machine name cap) as
    ((∀ ev ∈ p.hist, panics ev = false) ↔
      Throughout (fun ev h => isSend ev = true → closedSinceCheck ev.tid h = false) p.hist) ∧
    Throughout (fun ev h => delivers ev = true → h.any isCloseCh = false) p.hist ∧
    Throughout (fun ev h => ∀ request envelopes err, ev.cmd = .respond request envelopes err →
      Delivered ev.tid request err h) p.hist := by
  intro p
  obtain ⟨hinv, hkept⟩ := (closing_run name cap taken as)
  exact ⟨hinv.sends.forall_iff, hinv.delivered,
    hkept.mono fun ev h hpre request envelopes err hcmd => by rwa [hcmd] at hpre⟩

end

/-- Values of an application: the messages, and the stamps of the transport. -/
inductive Job
  | resize
  | memoryID (id : String)

instance : Typed Job := ⟨fun _ => "jobs.Resize"⟩

instance : MemoryIDStamp Job where
  ofID := .memoryID
  assertID
    | .memoryID id => some id
    | .resize => none
  assertID_ofID := fun _ => rfl

/-- A choice that only says which call arrives. -/
def calling (request : Request Job) : Choice Job := ⟨request, none, 0, none⟩

/-- `Send` sees that the transport is open; then `Close` runs to its end, and `Send` goes on. -/
def closeBetween : List (Action (Choice Job) Unit) :=
  [.resume 0, .step 0 (calling (.send (.new .resize [] 0))), .step 0 (calling .get),
    .resume 1, .step 1 (calling .close), .step 1 (calling .get), .step 1 (calling .get),
    .step 0 (calling .get), .step 0 (calling .get)]

/-- This `Send` panics. -/
theorem send_panics :
    ∃ ev ∈ ((Pool.boot (machine "memory" 1000) (World.new 0)).run (machine "memory" 1000)
      closeBetween).hist, panics ev = true :=
  ⟨_, List.mem_cons_self, rfl⟩

end WolfCore.Messenger.MemoryTransport
