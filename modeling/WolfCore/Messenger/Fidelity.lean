import WolfCore.Messenger.Tracing
import WolfCore.Messenger.OutboxTransport
import WolfCore.Messenger.RoundTrip

/-!
# From a dispatch to the worker's chain

One envelope through all of its hops: a dispatch creates it, the outbox transport stores and returns
it, and the worker hands its message and its stamps to the bus of the consumers.  That bus creates
an envelope of its own, at the time of its own clock.

`faithful_iff` says that the chain of the consumers gets the message and the built-in stamps of the
original, but its creation time only if no time has passed; `created_again` is a message that was
dispatched one second earlier than its envelope tells.
-/

namespace WolfCore.Messenger

open Go Interleave

section

variable {V C T : Type} [Typed V]

/-- A dispatch through middleware that passes through sends the envelope it has created, at the time
of the clock when it starts: the `Op.send` of its transport has the message, the stamps and this
time. -/
theorem dispatch_sends {b : MessageBus V C} (hmw : ∀ m ∈ b.middleware, PassThrough m) {ctx c : C}
    {msg : V} {stamps : List (Stamp V)} {l : List (Exchange (Reply V C))} {r : Dispatched V}
    (h : Execution (dispatch b ctx msg stamps) l r) {transport : String} {env : Envelope V}
    {reply : Outcome (Option Err)} (hsend : ⟨.send transport c env, reply⟩ ∈ l) :
    ∃ t l', l = ⟨.now, t⟩ :: l' ∧ env = .new msg stamps t := by
  unfold dispatch at h
  split_ifs at h
  · obtain ⟨rfl, -⟩ := execution_pure.1 h
    cases hsend
  · obtain ⟨t, l', rfl, hchain⟩ := execution_call.1 h
    refine ⟨t, l', rfl, ?_⟩
    obtain ⟨ctx', l₁, heffects, hterminal⟩ := execution_passThrough hmw hchain
    have hmem : ⟨.send transport c env, reply⟩ ∈ effects l' := by
      rcases List.mem_cons.1 hsend with heq | hmem
      · cases heq
      · exact List.mem_filter.2 ⟨hmem, rfl⟩
    rw [heffects] at hmem
    have hsent := mem_sendsOf.2 ⟨c, List.mem_of_mem_filter hmem⟩
    rcases (dispatchTerminal_sends hterminal).2 with ⟨-, hnil⟩ | ⟨transport', reply', -, hone, -⟩
    · rw [hnil] at hsent
      cases hsent
    · rw [hone, List.mem_singleton] at hsent
      cases hsent
      rfl

/-- The envelope the chain of the worker's bus is invoked with: the worker reads the clock at `t`,
and the bus at `t'`. -/
def chainInput (env : Envelope V) (transportName : String) (t t' : ℤ) : Envelope V :=
  .new env.message (env.withStamp (.received transportName t)).stamps t'

/-- On an open bus `processMessage` invokes the chain with `chainInput`. -/
theorem processMessage_open {b : MessageBus V C} (hopen : b.closed = false) (transportName : String)
    (ctx : C) (env : Envelope V) :
    processMessage b transportName ctx env = .call .now fun t => .call .now fun t' =>
      (buildChain (dispatchTerminal b) b.middleware ctx (chainInput env transportName t t')).bind
        (settle (env.withStamp (.received transportName t))) := by
  unfold processMessage dispatch
  simp only [hopen]
  rfl

/-! ### What arrives -/

/-- The envelope has the message, the built-in stamps and the creation time of the dispatch, and in
addition only the stamps of the transport and of the worker. -/
def Faithful (msg : V) (stamps : List (Stamp V)) (dispatchedAt : ℤ) (entryID transportName : String)
    (receivedAt : ℤ) (env : Envelope V) : Prop :=
  env.message = msg ∧
    env.stamps = stamps.filter Stamp.isBuiltin ++
      [.outboxID entryID, .received transportName receivedAt] ∧
    env.createdAt = dispatchedAt

/-- **Fidelity from end to end.** Whatever calls the transport has served, if all messages and
stamps it was sent are deliverable: an envelope that `Get` returns was sent by one of the calls, and
the chain of the worker's bus is invoked with its message and its built-in stamps, created at the
time `t'` of the clock of that bus.  If clocks do not go back, this is a faithful copy exactly if no
time has passed since the dispatch. -/
theorem faithful_iff (tr : Transport V T) (ops : List (Op V))
    (hdeliver : ∀ wireID entryID msg stamps dispatchedAt dbErr,
      .send wireID entryID msg stamps dispatchedAt dbErr ∈ ops →
        tr.serializer.Deliverable msg stamps)
    (poll : Poll) {envs : List (Envelope V)}
    (hget : (tr.get poll (tr.run ops)).1 = .returned (.ok envs)) {env : Envelope V}
    (henv : env ∈ envs) {b : MessageBus V C} (hopen : b.closed = false) (transportName : String)
    (ctx : C) :
    (processMessage b transportName ctx env = .call .now fun t => .call .now fun t' =>
      (buildChain (dispatchTerminal b) b.middleware ctx (chainInput env transportName t t')).bind
        (settle (env.withStamp (.received transportName t)))) ∧
    ∃ wireID entryID msg stamps dispatchedAt dbErr,
      .send wireID entryID msg stamps dispatchedAt dbErr ∈ ops ∧
      ∀ t t', (chainInput env transportName t t').message = msg ∧
        (chainInput env transportName t t').stamps =
          stamps.filter Stamp.isBuiltin ++ [.outboxID entryID, .received transportName t] ∧
        (chainInput env transportName t t').createdAt = t' ∧
        (dispatchedAt ≤ t' →
          (Faithful msg stamps dispatchedAt entryID transportName t
            (chainInput env transportName t t') ↔ ¬ dispatchedAt < t')) := by
  refine ⟨processMessage_open hopen transportName ctx env, ?_⟩
  obtain ⟨r, hr, env', hdecode, rfl⟩ := (get_spec tr poll _).2 envs hget env henv
  obtain ⟨wireID, msg, stamps, dispatchedAt, dbErr, hsend, entry, hentry, hpayload⟩ :=
    sentAs_of_mem_run hr
  refine ⟨wireID, r.id, msg, stamps, dispatchedAt, dbErr, hsend, fun t t' => ?_⟩
  have hencode := (entryOf_id hentry).2
  rw [hpayload] at hencode
  have hreceived := tr.serializer.decode_of_deliverable (hdeliver _ _ _ _ _ _ hsend) hencode
  obtain rfl : env' = .new msg (stamps.filter Stamp.isBuiltin) dispatchedAt := by
    simpa [Envelope.new] using hdecode.symm.trans hreceived
  have hstamps : stamps.filter Stamp.isBuiltin ++ [.outboxID r.id] ++ [.received transportName t] =
      stamps.filter Stamp.isBuiltin ++ [.outboxID r.id, .received transportName t] :=
    List.append_assoc _ _ _
  refine ⟨rfl, hstamps, rfl, fun hclock => ⟨?_, fun hstands => ?_⟩⟩
  · rintro ⟨-, -, hcreated⟩
    obtain rfl : t' = dispatchedAt := hcreated
    exact lt_irrefl t'
  · exact ⟨rfl, hstamps, (not_lt.1 hstands).antisymm hclock⟩

end

/-! ### An order through the outbox -/

/-- The transport with its default options. -/
def orderTransport : Transport PlaceOrder Unit := ⟨⟨300000000000, 10⟩, orderSerializer, 100⟩

def orderStamps : List (Stamp PlaceOrder) := [.aggregate "Order" "o1"]

/-- The order is dispatched at time 0. -/
def orderSent : List (Op PlaceOrder) := [.send "w1" "e1" ⟨"o1"⟩ orderStamps 0 none]

def tableOrder : RowOrder := ⟨fun _ => 0, id, fun _ => .refl _⟩

/-- A poll without failures. -/
def quietPoll : Poll := ⟨0, fun _ => false, tableOrder, none, fun _ => none⟩

def orderReceived : Envelope PlaceOrder := ⟨⟨"o1"⟩, orderStamps ++ [.outboxID "e1"], 0⟩

theorem get_orderSent :
    (orderTransport.get quietPoll (orderTransport.run orderSent)).1 = .returned
      (.ok [orderReceived]) := rfl

/-- If no time passes, the chain gets a faithful copy. -/
theorem faithful_iff_order :
    Faithful ⟨"o1"⟩ orderStamps 0 "e1" "outbox" 0 (chainInput orderReceived "outbox" 0 0) := by
  have hdeliver : ∀ wireID entryID msg stamps dispatchedAt dbErr,
      .send wireID entryID msg stamps dispatchedAt dbErr ∈ orderSent →
        orderTransport.serializer.Deliverable msg stamps := by
    intro wireID entryID msg stamps dispatchedAt dbErr hsend
    cases List.mem_singleton.1 hsend
    exact ⟨⟨(), 1, _, latest_order, rfl, rfl, rfl⟩,
      fun st hst => by rw [List.mem_singleton.1 hst]; trivial⟩
  obtain ⟨-, wireID, entryID, msg, stamps, dispatchedAt, dbErr, hsend, hcopy⟩ :=
    faithful_iff orderTransport orderSent hdeliver quietPoll get_orderSent
      (List.mem_singleton_self orderReceived) (b := orderBus StrMap.empty) rfl "outbox" ()
  cases List.mem_singleton.1 hsend
  exact ((hcopy 0 0).2.2.2 le_rfl).2 (lt_irrefl 0)

/-- The worker dispatches the order one second after it was dispatched: the chain is invoked with an
envelope that was created at that later time. -/
theorem created_again :
    (orderTransport.get quietPoll (orderTransport.run orderSent)).1 = .returned
      (.ok [orderReceived]) ∧
    (processMessage (orderBus StrMap.empty) "outbox" () orderReceived =
      .call .now fun t => .call .now fun t' =>
        (buildChain (dispatchTerminal (orderBus StrMap.empty)) [logging] ()
        (chainInput orderReceived "outbox" t t')).bind
          (settle (orderReceived.withStamp (.received "outbox" t)))) ∧
    ¬ Faithful ⟨"o1"⟩ orderStamps 0 "e1" "outbox" 1000000000
      (chainInput orderReceived "outbox" 1000000000 1000000000) := by
  refine ⟨get_orderSent, processMessage_open rfl "outbox" () orderReceived, ?_⟩
  rintro ⟨-, -, hcreated⟩
  cases hcreated

end WolfCore.Messenger
