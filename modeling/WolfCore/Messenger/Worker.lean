import WolfCore.Messenger.Bus

/-!
# The worker (`messenger/worker/worker.go`)

`processMessage` stamps a received envelope and dispatches its message, with its stamps, through the
bus of the worker; it acks if the dispatch returned nil and rejects otherwise.

Nothing in the dispatch asks for the `ReceivedStamp`: the bus routes a received message as it routes
a new one.  `handled_iff_not_routed` says when the message is handled and not sent again, and
`loop_resends` is a worker on the bus that dispatched the message.
-/

namespace WolfCore.Messenger

open Go Interleave

section

variable {V C : Type}

def Cmd.isHandle : Cmd V C → Bool
  | .handle _ _ _ => true
  | _ => false

/-- Whether the effect is a `Send`. -/
def Cmd.isSend : Cmd V C → Bool
  | .send _ _ _ => true
  | _ => false

/-- Whether the effect is an `Ack`. -/
def Cmd.isAck : Cmd V C → Bool
  | .ack _ => true
  | _ => false

/-- Whether the effect settles a received message. -/
def Cmd.isSettle : Cmd V C → Bool
  | .ack _ | .reject _ _ => true
  | _ => false

theorem not_handle_of_isSettle {e : Cmd V C} (h : e.isSettle = true) :
    e.isHandle = false ∧ e.isSend = false := by
  cases e <;> first | exact ⟨rfl, rfl⟩ | cases h

/-- The end of `processMessage`: the envelope is rejected with the error of the dispatch, or
acked. -/
def settle (env : Envelope V) : Dispatched V → Prog (Reply V C) (Outcome Unit)
  | .panicked p => .pure (.panicked p)
  | .returned (.error err) => .call (.reject env err) fun _ => .pure (.returned ())
  | .returned (.ok _) => .call (.ack env) fun _ => .pure (.returned ())

/-- A received message is acked only if the dispatch returned nil. -/
theorem settle_spec {env : Envelope V} {r : Dispatched V} {l : List (Exchange (Reply V C))}
    {o : Outcome Unit} (h : Execution (settle env r) l o) :
    (∀ ev ∈ l, ev.cmd.isSettle = true) ∧
      ((∃ ev ∈ l, ev.cmd.isAck = true) → ∃ result, r = .returned (.ok result)) := by
  match r with
  | .panicked p =>
    obtain ⟨rfl, -⟩ := execution_pure.1 h
    simp
  | .returned (.error err) =>
    obtain ⟨reply, _, rfl, hend⟩ := execution_call.1 h
    obtain ⟨rfl, -⟩ := execution_pure.1 hend
    simp [Cmd.isSettle, Cmd.isAck]
  | .returned (.ok result) =>
    obtain ⟨reply, _, rfl, hend⟩ := execution_call.1 h
    obtain ⟨rfl, -⟩ := execution_pure.1 hend
    simp [Cmd.isSettle]

variable [Typed V]

/-- `Worker.processMessage`. -/
def processMessage (b : MessageBus V C) (transportName : String) (ctx : C) (env : Envelope V) :
    Prog (Reply V C) (Outcome Unit) :=
  .call .now fun t =>
    (dispatch b ctx env.message (env.withStamp (.received transportName t)).stamps).bind
      (settle (env.withStamp (.received transportName t)))

/-! ### What the terminals do -/

/-- A handler is registered for the type of the message. -/
def Registered (b : MessageBus V C) (msg : V) : Prop :=
  ∃ h, b.handlers (Typed.typeNameOf msg) = some h ∧ h.assertType msg = none

/-- The bus runs the handler of the envelope's message itself. -/
def HandlesSync (b : MessageBus V C) (env : Envelope V) : Prop :=
  env.hasStamp Stamp.nameForceSync = true ∨
    env.last Stamp.nameForceTransport = none ∧ route b env.message = ""

/-- The terminal of a dispatch runs the handler, or sends the envelope at most once. -/
theorem execution_dispatchTerminal {b : MessageBus V C} {ctx : C} {env : Envelope V}
    {l : List (Exchange (Reply V C))} {r : Dispatched V}
    (h : Execution (dispatchTerminal b ctx env) l r) :
    (HandlesSync b env ∧ Execution (syncTerminal b ctx env) l r) ∨
      (¬ HandlesSync b env ∧
        (l = [] ∨ ∃ transport reply, l = [⟨.send transport ctx env, reply⟩])) := by
  have hsend : ∀ transportName, Execution (sendToTransport b ctx env transportName) l r →
      l = [] ∨ ∃ transport reply, l = [⟨.send transport ctx env, reply⟩] := by
    intro transportName h
    unfold sendToTransport at h
    split_ifs at h
    · obtain ⟨reply, _, rfl, hend⟩ := execution_call.1 h
      obtain ⟨rfl, -⟩ := execution_pure.1 hend
      exact Or.inr ⟨transportName, reply, rfl⟩
    · exact Or.inl (execution_pure.1 h).1
  unfold dispatchTerminal at h
  by_cases hsync : env.hasStamp Stamp.nameForceSync = true
  · rw [if_pos hsync] at h
    exact Or.inl ⟨Or.inl hsync, h⟩
  · rw [if_neg hsync] at h
    split at h
    · rename_i transportName hforce
      exact Or.inr ⟨by simp [HandlesSync, hsync, hforce], hsend _ h⟩
    · rename_i s hforce
      exact Or.inr ⟨by simp [HandlesSync, hsync, hforce], Or.inl (execution_pure.1 h).1⟩
    · rename_i hforce
      split_ifs at h with hroute
      · exact Or.inl ⟨Or.inr ⟨hforce, hroute⟩, h⟩
      · exact Or.inr ⟨by simp [HandlesSync, hsync, hroute], hsend _ h⟩

/-- If the bus handles the message itself, its terminal is the synchronous one. -/
theorem dispatchTerminal_of_handlesSync {b : MessageBus V C} {ctx : C} {env : Envelope V}
    (h : HandlesSync b env) : dispatchTerminal b ctx env = syncTerminal b ctx env := by
  unfold dispatchTerminal
  by_cases hsync : env.hasStamp Stamp.nameForceSync = true
  · rw [if_pos hsync]
  · obtain ⟨hforce, hroute⟩ := h.resolve_left hsync
    rw [if_neg hsync, hforce]
    exact if_pos hroute

/-- The synchronous terminal calls the handler if one is registered, and returns nil only if it
does. -/
theorem execution_syncTerminal {b : MessageBus V C} {ctx : C} {env : Envelope V}
    {l : List (Exchange (Reply V C))} {r : Dispatched V}
    (h : Execution (syncTerminal b ctx env) l r) :
    (¬ Registered b env.message ∧ l = []) ∨
      ∃ reply, l = [⟨.handle (Typed.typeNameOf env.message) ctx env.message, reply⟩] ∧
        ∀ result, r = .returned (.ok result) → ∃ v, reply = .returned (.ok v) := by
  unfold syncTerminal resolve at h
  cases hhandler : b.handlers (Typed.typeNameOf env.message) with
  | none =>
    simp only [hhandler, execution_pure] at h
    exact Or.inl ⟨by simp [Registered, hhandler], h.1⟩
  | some handler =>
    simp only [hhandler, handleAny] at h
    cases hassert : handler.assertType env.message with
    | some err =>
      simp only [hassert, Prog.pure_bind, execution_pure] at h
      exact Or.inl ⟨by simp [Registered, hhandler, hassert], h.1⟩
    | none =>
      simp only [hassert, Prog.bind, execution_call, execution_pure] at h
      obtain ⟨reply, _, rfl, rfl, rfl⟩ := h
      refine Or.inr ⟨reply, rfl, fun result hresult => ?_⟩
      rcases reply with (_ | v) | _
      · cases hresult
      · exact ⟨v, rfl⟩
      · cases hresult

/-! ### One received message -/

/-- The registered handler is called, then no handler and no `Sender`, and the message is acked only
if the handler returned nil. -/
def HandledNotResent (msg : V) (l : List (Exchange (Reply V C))) : Prop :=
  ∃ ctx reply rest, effects l = ⟨.handle (Typed.typeNameOf msg) ctx msg, reply⟩ :: rest ∧
    (∀ ev ∈ rest, ev.cmd.isHandle = false ∧ ev.cmd.isSend = false) ∧
    ((∃ ev ∈ rest, ev.cmd.isAck = true) → ∃ v, reply = .returned (.ok v))

/-- The envelope with its `ReceivedStamp` is handled as the envelope without. -/
theorem handlesSync_received (b : MessageBus V C) (env : Envelope V) (transportName : String)
    (t t' : ℤ) :
    HandlesSync b (.new env.message (env.withStamp (.received transportName t)).stamps t') ↔
      HandlesSync b env := by
  have hsync := env.hasStamp_withStamp_of_ne (s := .received transportName t)
    (show Stamp.nameReceived ≠ Stamp.nameForceSync by decide)
  have hforce := env.last_withStamp_of_ne (s := .received transportName t)
    (show Stamp.nameReceived ≠ Stamp.nameForceTransport by decide)
  unfold HandlesSync
  rw [← hsync, ← hforce]
  rfl

/-- An execution of `processMessage` on an open bus: the chain runs on the received envelope, and
the message is settled by its result. -/
theorem execution_processMessage {b : MessageBus V C} (hopen : b.closed = false)
    {transportName : String} {ctx : C} {env : Envelope V} {l : List (Exchange (Reply V C))}
    {o : Outcome Unit} (h : Execution (processMessage b transportName ctx env) l o) :
    ∃ t t' l₁ l₂ r, effects l = effects l₁ ++ l₂ ∧
      Execution (buildChain (dispatchTerminal b) b.middleware ctx
        (.new env.message (env.withStamp (.received transportName t)).stamps t')) l₁ r ∧
      (∀ ev ∈ l₂, ev.cmd.isSettle = true) ∧
      ((∃ ev ∈ l₂, ev.cmd.isAck = true) → ∃ result, r = .returned (.ok result)) := by
  obtain ⟨t, _, rfl, hrest⟩ := execution_call.1 h
  obtain ⟨_, r, l₂, rfl, hdispatch, hsettle⟩ := execution_bind.1 hrest
  rw [dispatch, if_neg (by simp [hopen])] at hdispatch
  obtain ⟨t', l₁, rfl, hchain⟩ := execution_call.1 hdispatch
  obtain ⟨hquiet, hack⟩ := settle_spec hsettle
  refine ⟨t, t', l₁, effects l₂, r, ?_, hchain, fun ev hev => ?_, ?_⟩
  · rw [← effects_append]
    rfl
  · exact hquiet ev (List.mem_of_mem_filter hev)
  · rintro ⟨ev, hev, hisAck⟩
    exact hack ⟨ev, List.mem_of_mem_filter hev, hisAck⟩

theorem processMessage_closed {b : MessageBus V C} (hclosed : b.closed = true)
    (transportName : String) (ctx : C) (env : Envelope V) :
    Only (fun e => e.isEffect = false ∨ e.isSettle = true)
      (processMessage b transportName ctx env) := by
  have hdispatch : ∀ msg stamps, dispatch b ctx msg stamps =
      .pure (.returned (.error errBusClosed)) := fun _ _ => if_pos hclosed
  refine ⟨Or.inl rfl, fun t => ?_⟩
  simp only [hdispatch]
  exact ⟨Or.inr rfl, fun _ => trivial⟩

theorem not_handledNotResent {msg : V} {l : List (Exchange (Reply V C))}
    (h : ∀ ev ∈ effects l, ev.cmd.isHandle = false) : ¬ HandledNotResent msg l := by
  rintro ⟨ctx, reply, rest, hl, -⟩
  cases h _ (hl ▸ List.mem_cons_self)

/-- **When a received message is handled**, and not sent again: exactly if the bus is open and the
envelope has a `ForceSyncStamp`, or no `ForceTransportStamp` and no route. -/
theorem handled_iff_not_routed {b : MessageBus V C} (hmw : ∀ m ∈ b.middleware, PassThrough m)
    (transportName : String) (ctx : C) (env : Envelope V) (hreg : Registered b env.message) :
    (∀ l o, Execution (processMessage b transportName ctx env) l o →
      HandledNotResent env.message l) ↔ b.closed = false ∧ HandlesSync b env := by
  constructor
  · intro hall
    obtain ⟨l, o, h⟩ := exists_execution (processMessage b transportName ctx env)
    have hopen : b.closed = false := by
      by_contra hclosed
      rw [Bool.not_eq_false] at hclosed
      refine not_handledNotResent (fun ev hev => ?_) (hall l o h)
      obtain ⟨hmem, heffect⟩ := List.mem_filter.1 hev
      rcases Only.mem (processMessage_closed hclosed _ ctx env) h ev hmem with hn | hsettle
      · cases hn.symm.trans heffect
      · exact (not_handle_of_isSettle hsettle).1
    refine ⟨hopen, ?_⟩
    by_contra hn
    obtain ⟨t, t', l₀, l₂, r, hl, hchain, hquiet, -⟩ := execution_processMessage hopen h
    obtain ⟨ctx', l₁, hl₁, hterminal⟩ := execution_passThrough hmw hchain
    rw [hl₁] at hl
    obtain ⟨ctx'', reply, rest, heff, -⟩ := hall l o h
    have hmem : ⟨.handle (Typed.typeNameOf env.message) ctx'' env.message, reply⟩ ∈
        effects l₁ ++ l₂ := hl ▸ heff ▸ List.mem_cons_self
    rcases List.mem_append.1 hmem with hmem | hmem
    · rcases execution_dispatchTerminal hterminal with ⟨hs, -⟩ | ⟨-, rfl | ⟨_, _, rfl⟩⟩
      · exact hn ((handlesSync_received b env transportName t t').1 hs)
      · cases hmem
      · cases List.mem_singleton.1 (List.mem_of_mem_filter hmem)
    · cases hquiet _ hmem
  · rintro ⟨hopen, hsync⟩ l o h
    obtain ⟨t, t', l₀, l₂, r, hl, hchain, hquiet, hack⟩ := execution_processMessage hopen h
    obtain ⟨ctx', l₁, hl₁, hterminal⟩ := execution_passThrough hmw hchain
    rw [hl₁] at hl
    have hsync' := (handlesSync_received b env transportName t t').2 hsync
    rcases execution_dispatchTerminal hterminal with ⟨-, hs⟩ | ⟨hn, -⟩
    swap
    · exact absurd hsync' hn
    rcases execution_syncTerminal hs with ⟨hn, -⟩ | ⟨reply, rfl, hok⟩
    · exact absurd hreg hn
    refine ⟨ctx', reply, l₂, hl, fun ev hev => not_handle_of_isSettle (hquiet ev hev),
      fun hacked => ?_⟩
    obtain ⟨result, hresult⟩ := hack hacked
    exact hok result hresult

end

/-! ### A worker on the bus that dispatched the message -/

structure PlaceOrder where
  orderID : String
  deriving DecidableEq

instance : Typed PlaceOrder := ⟨fun _ => "order.PlaceOrder"⟩

/-- A bus with logging, a handler for the message, a transport and the given routes. -/
def orderBus (routes : StrMap) : MessageBus PlaceOrder Unit where
  handlers := fun name => if name = "order.PlaceOrder" then some ⟨true, fun _ => none⟩ else none
  routes := routes
  transports := fun name => name = "async"
  middleware := [logging]
  closed := false

def receivedOrder : Envelope PlaceOrder := ⟨⟨"o1"⟩, [], 0⟩

theorem handled_iff_not_routed_sync :
    HandlesSync (orderBus StrMap.empty) receivedOrder ∧
    ∀ l o, Execution (processMessage (orderBus StrMap.empty) "async" () receivedOrder) l o →
      HandledNotResent receivedOrder.message l := by
  have hsync : HandlesSync (orderBus StrMap.empty) receivedOrder := Or.inr ⟨rfl, rfl⟩
  have hmw : ∀ m ∈ (orderBus StrMap.empty).middleware, PassThrough m := by
    intro m hm
    rw [List.mem_singleton.1 hm]
    exact passThrough_logging
  exact ⟨hsync, (handled_iff_not_routed hmw "async" () receivedOrder ⟨_, rfl, rfl⟩).2 ⟨rfl, hsync⟩⟩

/-- The order, as the worker stamps it at time 1 and dispatches it at time 2. -/
def stampedOrder (createdAt : ℤ) : Envelope PlaceOrder := ⟨⟨"o1"⟩, [.received "async" 1], createdAt⟩

/-- What the worker does with the order when the transport accepts it. -/
def resent : List (Exchange (Reply PlaceOrder Unit)) :=
  [⟨.now, (1 : ℤ)⟩, ⟨.now, (2 : ℤ)⟩, ⟨.now, (3 : ℤ)⟩,
    ⟨.send "async" () (stampedOrder 2), .returned none⟩,
    ⟨.now, (4 : ℤ)⟩, ⟨.own 0, (0 : ℕ)⟩, ⟨.ack (stampedOrder 0), none⟩]

/-- With the route that sent the message to the transport, the worker sends it there again and acks
it, and no handler runs. -/
theorem loop_resends :
    let bus := orderBus (StrMap.empty.set "order.PlaceOrder" "async")
    Execution (processMessage bus "async" () receivedOrder) resent (.returned ()) ∧
      effects resent = [⟨.send "async" () (stampedOrder 2), .returned none⟩,
        ⟨.ack (stampedOrder 0), none⟩] ∧
      ¬ HandledNotResent receivedOrder.message resent := by
  have heffects : effects resent = [⟨.send "async" () (stampedOrder 2), .returned none⟩,
      ⟨.ack (stampedOrder 0), none⟩] := rfl
  refine ⟨.call (.call (.call (.call (.call (.call (.call (.pure _))))))), heffects, ?_⟩
  refine not_handledNotResent fun ev hev => ?_
  rw [heffects, List.mem_cons, List.mem_singleton] at hev
  rcases hev with rfl | rfl <;> rfl

end WolfCore.Messenger
